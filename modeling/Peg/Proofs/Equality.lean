import Mathlib.Data.List.Forall2
import Peg.Value.Hash

/-!
# Equality of values is lawful

Values that look different can be equal: a truth value and a number, an integer and a float,
two dictionaries whose entries were put in in another order. Equality is an equivalence all
the same, and equal values have equal hashes, or none of them has a hash. Captured values
are compared by it, label and value, and so it is an equivalence of theirs.

Transitivity and hashes need nothing of the values. Numbers are compared exactly, and it is
only because of this that an integer between two neighbouring floats does not equal both.
Reflexivity and symmetry do: NaN equals nothing, itself included, and a list of entries in
which a key comes twice need not find its own entries in a list that finds all of its own.
`Value.IsData` says of a value that it has neither in it.

Symmetry of dictionaries is the one argument here that is not read off the constructors.
Each entry of the first has an equal one in the second, and no two of them have the same
one, because then their keys would be equal. As both have the same number of entries, every
entry of the second is met (`exists_of_meets`).
-/

namespace Peg

variable {α β γ δ ι : Type}

/-! ## Lists that are related item by item -/

theorem forall₂_trans {R : β → γ → Prop} {S : γ → δ → Prop} {T : β → δ → Prop} {xs : List β}
    {ys : List γ} {zs : List δ} (h : List.Forall₂ R xs ys) (h' : List.Forall₂ S ys zs)
    (hxs : ∀ x ∈ xs, ∀ y z, R x y → S y z → T x z) : List.Forall₂ T xs zs := by
  induction h generalizing zs with
  | nil =>
      cases h' with
      | nil => exact .nil
  | cons hx _ ih =>
      cases h' with
      | cons hy hys =>
          exact .cons (hxs _ List.mem_cons_self _ _ hx hy)
            (ih hys fun x hmem => hxs x (List.mem_cons_of_mem _ hmem))

/-- Where every item of one list meets one of another that is no longer, and no two of them
meet the same, all of the other are met. -/
theorem exists_of_meets {R : β → γ → Prop} {xs : List β} {ys : List γ}
    (hlength : ys.length ≤ xs.length) (hmeets : ∀ x ∈ xs, ∃ y ∈ ys, R x y)
    (happart : xs.Pairwise fun x x' => ∀ y, R x y → ¬ R x' y) : ∀ y ∈ ys, ∃ x ∈ xs, R x y := by
  induction xs generalizing ys with
  | nil =>
      rw [List.eq_nil_of_length_eq_zero (Nat.le_zero.mp hlength)]
      exact fun y hy => absurd hy List.not_mem_nil
  | cons x xs ih =>
      obtain ⟨hx, happart⟩ := List.pairwise_cons.mp happart
      obtain ⟨y₀, hy₀, hR⟩ := hmeets x List.mem_cons_self
      obtain ⟨front, back, rfl⟩ := List.append_of_mem hy₀
      -- The item that the first one meets is met by no other, so the others meet the rest.
      have hothers : ∀ x' ∈ xs, ∃ y ∈ front ++ back, R x' y := by
        intro x' hx'
        obtain ⟨y, hy, hR'⟩ := hmeets x' (List.mem_cons_of_mem _ hx')
        refine ⟨y, ?_, hR'⟩
        rcases List.mem_append.mp hy with hy | hy
        · exact List.mem_append_left _ hy
        · rcases List.mem_cons.mp hy with rfl | hy
          · exact absurd hR' (hx x' hx' y hR)
          · exact List.mem_append_right _ hy
      have hrest : (front ++ back).length ≤ xs.length := by
        simp only [List.length_append, List.length_cons] at hlength ⊢
        omega
      have hmet := ih hrest hothers happart
      intro y hy
      by_cases heq : y = y₀
      · exact ⟨x, List.mem_cons_self, heq ▸ hR⟩
      · obtain ⟨x', hx', hR'⟩ := hmet y (by simpa [heq] using hy)
        exact ⟨x', List.mem_cons_of_mem _ hx', hR'⟩

namespace Value

/-- The values are equal. -/
def Equals (v w : Value α) : Prop := v.same w = true

/-- The value has neither NaN in it nor a node, an action or a grammar, and a key comes once
in each dictionary. -/
inductive IsData : Value α → Prop
  | null : IsData .null
  | bool (b : Bool) : IsData (.bool b)
  | int (i : Int) : IsData (.int i)
  | float {x : Binary64} : x ≠ .nan → IsData (.float x)
  | text (t : Text) : IsData (.text t)
  | list {items : List (Value α)} : (∀ v ∈ items, IsData v) → IsData (.list items)
  | tuple {items : List (Value α)} : (∀ v ∈ items, IsData v) → IsData (.tuple items)
  | dict {entries : List (Value α × Value α)} : (∀ e ∈ entries, IsData e.1) →
    (∀ e ∈ entries, IsData e.2) → (entries.Pairwise fun e f => ¬ e.1.Equals f.1) →
    IsData (.dict entries)
  | captured {label value : Value α} : IsData label → IsData value →
    IsData (.captured label value)

theorem sizeOf_entry {entries : List (Value α × Value α)} {e : Value α × Value α}
    (he : e ∈ entries) : sizeOf e.1 < sizeOf entries ∧ sizeOf e.2 < sizeOf entries := by
  have hlt := List.sizeOf_lt_of_mem he
  obtain ⟨k, v⟩ := e
  simp only [Prod.mk.sizeOf_spec] at hlt ⊢
  omega

/-- Induction over values, as far as equality looks into them. -/
theorem induct {motive : Value α → Prop} (null : motive .null)
    (number : ∀ v x, v.asNumber? = some x → motive v) (text : ∀ t, motive (.text t))
    (list : ∀ items, (∀ v ∈ items, motive v) → motive (.list items))
    (tuple : ∀ items, (∀ v ∈ items, motive v) → motive (.tuple items))
    (dict : ∀ entries, (∀ e ∈ entries, motive e.1) → (∀ e ∈ entries, motive e.2) →
      motive (.dict entries))
    (captured : ∀ label value, motive label → motive value → motive (.captured label value))
    (other : ∀ v, (∀ w, ¬ v.Equals w) → motive v) (v : Value α) : motive v := by
  have hother : ∀ v : Value α, (∀ w, v.same w = false) → motive v := fun v hv =>
    other v fun w hw => Bool.false_ne_true ((hv w).symm.trans hw)
  cases v with
  | null => exact null
  | bool b => exact number _ (.ofInt b.toInt) rfl
  | int i => exact number _ (.ofInt i) rfl
  | float x => exact number _ (.ofFloat x) rfl
  | text t => exact text t
  | list items =>
      exact list items fun v _ => induct null number text list tuple dict captured other v
  | tuple items =>
      exact tuple items fun v _ => induct null number text list tuple dict captured other v
  | dict entries =>
      refine dict entries (fun e he => ?_) fun e he => ?_
      · have hlt := (sizeOf_entry he).1
        exact induct null number text list tuple dict captured other e.1
      · have hlt := (sizeOf_entry he).2
        exact induct null number text list tuple dict captured other e.2
  | captured label value =>
      exact captured label value
        (induct null number text list tuple dict captured other label)
        (induct null number text list tuple dict captured other value)
  | node n => exact hother _ fun w => by rw [same]
  | action act => exact hother _ fun w => by rw [same]
  | grammar start name => exact hother _ fun w => by rw [same]
termination_by sizeOf v

variable {v w u label value : Value α} {vs ws : List (Value α)}
  {es fs : List (Value α × Value α)} {x : Exact} {t : Text}

/-! ## What a value equals -/

theorem sameAll_iff : sameAll vs ws = true ↔ List.Forall₂ Equals vs ws := by
  induction vs generalizing ws with
  | nil => rw [sameAll, List.isEmpty_iff, List.forall₂_nil_left_iff]
  | cons v vs ih =>
      cases ws with
      | nil => simp [sameAll]
      | cons w ws => rw [sameAll, Bool.and_eq_true, ih, List.forall₂_cons, Equals]

theorem sameEntries_iff : sameEntries es fs = true ↔
    ∀ e ∈ es, ∃ f ∈ fs, e.1.Equals f.1 ∧ e.2.Equals f.2 := by
  induction es with
  | nil => simp [sameEntries]
  | cons e es ih =>
      obtain ⟨k, v⟩ := e
      rw [sameEntries, Bool.and_eq_true, ih, List.forall_mem_cons, List.any_eq_true]
      simp only [Bool.and_eq_true, Equals]

theorem equals_null_iff : (null : Value α).Equals w ↔ w = .null := by
  constructor
  · intro h
    cases w with
    | null => rfl
    | _ => exact absurd h Bool.false_ne_true
  · rintro rfl
    rfl

theorem equals_text_iff : (text t : Value α).Equals w ↔ w = .text t := by
  constructor
  · intro h
    cases w with
    | text u => rw [(beq_iff_eq.mp h : t = u)]
    | _ => exact absurd h Bool.false_ne_true
  · rintro rfl
    exact beq_self_eq_true t

/-- A number equals the numbers that are the same exactly, of whatever type. -/
theorem equals_number_iff (h : v.asNumber? = some x) :
    v.Equals w ↔ x ≠ .nan ∧ w.asNumber? = some x := by
  have hsame : v.same w = (w.asNumber?.map (Exact.same x)).getD false := by
    cases v <;> simp only [asNumber?, Option.some.injEq, reduceCtorEq] at h <;> rw [same, h]
  rw [Equals, hsame]
  cases w.asNumber? with
  | none => simp
  | some y => cases x <;> simp [Exact.same, eq_comm]

theorem equals_list_iff :
    (list vs).Equals w ↔ ∃ ws, w = .list ws ∧ List.Forall₂ Equals vs ws := by
  constructor
  · intro h
    cases w with
    | list ws => exact ⟨ws, rfl, sameAll_iff.mp h⟩
    | _ => exact absurd h Bool.false_ne_true
  · rintro ⟨ws, rfl, hws⟩
    exact sameAll_iff.mpr hws

theorem equals_tuple_iff :
    (tuple vs).Equals w ↔ ∃ ws, w = .tuple ws ∧ List.Forall₂ Equals vs ws := by
  constructor
  · intro h
    cases w with
    | tuple ws => exact ⟨ws, rfl, sameAll_iff.mp h⟩
    | _ => exact absurd h Bool.false_ne_true
  · rintro ⟨ws, rfl, hws⟩
    exact sameAll_iff.mpr hws

theorem equals_dict_iff : (dict es).Equals w ↔ ∃ fs, w = .dict fs ∧ es.length = fs.length ∧
    ∀ e ∈ es, ∃ f ∈ fs, e.1.Equals f.1 ∧ e.2.Equals f.2 := by
  constructor
  · intro h
    cases w with
    | dict fs =>
        obtain ⟨hlength, hentries⟩ := (Bool.and_eq_true _ _).mp h
        exact ⟨fs, rfl, beq_iff_eq.mp hlength, sameEntries_iff.mp hentries⟩
    | _ => exact absurd h Bool.false_ne_true
  · rintro ⟨fs, rfl, hlength, hentries⟩
    exact (Bool.and_eq_true _ _).mpr ⟨beq_iff_eq.mpr hlength, sameEntries_iff.mpr hentries⟩

theorem equals_captured_iff : (captured label value).Equals w ↔
    ∃ l v, w = .captured l v ∧ label.Equals l ∧ value.Equals v := by
  constructor
  · intro h
    cases w with
    | captured l v => exact ⟨l, v, rfl, (Bool.and_eq_true _ _).mp h⟩
    | _ => exact absurd h Bool.false_ne_true
  · rintro ⟨l, v, rfl, h⟩
    exact (Bool.and_eq_true _ _).mpr h

/-! ## An equivalence -/

theorem Equals.trans (hvw : v.Equals w) (hwu : w.Equals u) : v.Equals u := by
  induction v using induct generalizing w u with
  | null =>
      rw [equals_null_iff] at hvw
      rwa [hvw] at hwu
  | number v x hx =>
      obtain ⟨hne, hw⟩ := (equals_number_iff hx).mp hvw
      exact (equals_number_iff hx).mpr ⟨hne, ((equals_number_iff hw).mp hwu).2⟩
  | text t =>
      rw [equals_text_iff] at hvw
      rwa [hvw] at hwu
  | list vs ih =>
      obtain ⟨ws, rfl, hws⟩ := equals_list_iff.mp hvw
      obtain ⟨us, rfl, hus⟩ := equals_list_iff.mp hwu
      exact equals_list_iff.mpr ⟨us, rfl, forall₂_trans hws hus fun v hv _ _ => ih v hv⟩
  | tuple vs ih =>
      obtain ⟨ws, rfl, hws⟩ := equals_tuple_iff.mp hvw
      obtain ⟨us, rfl, hus⟩ := equals_tuple_iff.mp hwu
      exact equals_tuple_iff.mpr ⟨us, rfl, forall₂_trans hws hus fun v hv _ _ => ih v hv⟩
  | dict es ihk ihv =>
      obtain ⟨fs, rfl, hlength, hfs⟩ := equals_dict_iff.mp hvw
      obtain ⟨gs, rfl, hlength', hgs⟩ := equals_dict_iff.mp hwu
      refine equals_dict_iff.mpr ⟨gs, rfl, hlength.trans hlength', fun e he => ?_⟩
      obtain ⟨f, hf, hkey, hvalue⟩ := hfs e he
      obtain ⟨g, hg, hkey', hvalue'⟩ := hgs f hf
      exact ⟨g, hg, ihk e he hkey hkey', ihv e he hvalue hvalue'⟩
  | captured label value ihl ihv =>
      obtain ⟨l, v, rfl, hlabel, hvalue⟩ := equals_captured_iff.mp hvw
      obtain ⟨l', v', rfl, hlabel', hvalue'⟩ := equals_captured_iff.mp hwu
      exact equals_captured_iff.mpr ⟨l', v', rfl, ihl hlabel hlabel', ihv hvalue hvalue'⟩
  | other v hv => exact absurd hvw (hv w)

theorem IsData.equals_self (h : v.IsData) : v.Equals v := by
  induction h with
  | null => exact equals_null_iff.mpr rfl
  | bool b => exact (equals_number_iff rfl).mpr ⟨nofun, rfl⟩
  | int i => exact (equals_number_iff rfl).mpr ⟨nofun, rfl⟩
  | @float x hx =>
      refine (equals_number_iff rfl).mpr ⟨?_, rfl⟩
      cases x with
      | nan => exact absurd rfl hx
      | infinite _ => exact nofun
      | finite _ _ => exact nofun
  | text t => exact equals_text_iff.mpr rfl
  | list _ ih => exact equals_list_iff.mpr ⟨_, rfl, List.forall₂_same.mpr ih⟩
  | tuple _ ih => exact equals_tuple_iff.mpr ⟨_, rfl, List.forall₂_same.mpr ih⟩
  | dict _ _ _ ihk ihv =>
      exact equals_dict_iff.mpr ⟨_, rfl, rfl, fun e he => ⟨e, he, ihk e he, ihv e he⟩⟩
  | captured _ _ ihl ihv => exact equals_captured_iff.mpr ⟨_, _, rfl, ihl, ihv⟩

/-- Equality holds both ways of lists if it does of their items. -/
theorem forall₂_symm (hvs : ∀ v ∈ vs, ∀ w, v.Equals w → w.Equals v)
    (h : List.Forall₂ Equals vs ws) : List.Forall₂ Equals ws vs := by
  have hboth : List.Forall₂ (fun v w => (∀ w, v.Equals w → w.Equals v) ∧ v.Equals w) vs ws :=
    (List.forall₂_and_left _ _).mpr ⟨hvs, h⟩
  exact (hboth.imp fun v w hv => hv.1 w hv.2).flip

/-- Entries with keys that are all apart have different partners. -/
theorem exists_entry (hkeys : es.Pairwise fun e f => ¬ e.1.Equals f.1)
    (hsymm : ∀ e ∈ es, ∀ w, e.1.Equals w → w.Equals e.1) (hlength : es.length = fs.length)
    (h : ∀ e ∈ es, ∃ f ∈ fs, e.1.Equals f.1 ∧ e.2.Equals f.2) :
    ∀ f ∈ fs, ∃ e ∈ es, e.1.Equals f.1 ∧ e.2.Equals f.2 := by
  refine exists_of_meets (Nat.le_of_eq hlength.symm) h (hkeys.imp_of_mem ?_)
  intro e e' _ he' hne f hf hf'
  exact hne (hf.1.trans (hsymm e' he' f.1 hf'.1))

theorem equals_symm_of_number (h : v.asNumber? = some x) (hvw : v.Equals w) : w.Equals v := by
  obtain ⟨hne, hw⟩ := (equals_number_iff h).mp hvw
  exact (equals_number_iff hw).mpr ⟨hne, h⟩

theorem IsData.equals_symm (h : v.IsData) (hvw : v.Equals w) : w.Equals v := by
  induction h generalizing w with
  | null =>
      rw [equals_null_iff] at hvw
      rw [hvw, equals_null_iff]
  | bool b => exact equals_symm_of_number rfl hvw
  | int i => exact equals_symm_of_number rfl hvw
  | float _ => exact equals_symm_of_number rfl hvw
  | text t =>
      rw [equals_text_iff] at hvw
      rw [hvw, equals_text_iff]
  | list _ ih =>
      obtain ⟨ws, rfl, hws⟩ := equals_list_iff.mp hvw
      exact equals_list_iff.mpr ⟨_, rfl, forall₂_symm (fun v hv w => ih v hv) hws⟩
  | tuple _ ih =>
      obtain ⟨ws, rfl, hws⟩ := equals_tuple_iff.mp hvw
      exact equals_tuple_iff.mpr ⟨_, rfl, forall₂_symm (fun v hv w => ih v hv) hws⟩
  | dict _ _ hkeys ihk ihv =>
      obtain ⟨fs, rfl, hlength, hfs⟩ := equals_dict_iff.mp hvw
      refine equals_dict_iff.mpr ⟨_, rfl, hlength.symm, fun f hf => ?_⟩
      obtain ⟨e, he, hkey, hvalue⟩ := exists_entry hkeys (fun e he w => ihk e he) hlength hfs f hf
      exact ⟨e, he, ihk e he hkey, ihv e he hvalue⟩
  | captured _ _ ihl ihv =>
      obtain ⟨l, v, rfl, hlabel, hvalue⟩ := equals_captured_iff.mp hvw
      exact equals_captured_iff.mpr ⟨_, _, rfl, ihl hlabel, ihv hvalue⟩

/-! ## Hashes -/

/-- The hashes are the same, or neither value has one, and for the same reason. -/
inductive HashesAgree (same : β → β → Bool) : Except String β → Except String β → Prop
  | hashed {k l : β} : same k l = true → HashesAgree same (.ok k) (.ok l)
  | unhashable (typeName : String) : HashesAgree same (.error typeName) (.error typeName)

theorem HashesAgree.bind {same : β → β → Bool} {same' : γ → γ → Bool} {d d' : Except String β}
    {next next' : β → Except String γ} (hd : HashesAgree same d d')
    (hnext : ∀ k l, same k l = true → HashesAgree same' (next k) (next' l)) :
    HashesAgree same' (d >>= next) (d' >>= next') := by
  cases hd with
  | hashed hkl => exact hnext _ _ hkl
  | unhashable typeName => exact .unhashable typeName

theorem hashKey_number (h : v.asNumber? = some x) :
    (v.hashKey : Except String (HashKey ι)) = .ok (.ofExact x) := by
  cases v <;> simp only [asNumber?, Option.some.injEq, reduceCtorEq] at h <;> rw [hashKey, h]

variable [DecidableEq ι]

theorem hashesAgree_number (hne : x ≠ .nan) (hv : v.asNumber? = some x)
    (hw : w.asNumber? = some x) : HashesAgree HashKey.same
      (v.hashKey : Except String (HashKey ι)) w.hashKey := by
  rw [hashKey_number hv, hashKey_number hw]
  cases x with
  | nan => exact absurd rfl hne
  | units _ => exact .hashed (beq_self_eq_true _)
  | infinite _ => exact .hashed (beq_self_eq_true _)

theorem hashesAgree_all (hvs : ∀ v ∈ vs, ∀ w, v.Equals w → HashesAgree HashKey.same
      (v.hashKey : Except String (HashKey ι)) w.hashKey) (h : List.Forall₂ Equals vs ws) :
    HashesAgree HashKey.sameAll (hashKeys vs : Except String (List (HashKey ι))) (hashKeys ws) := by
  induction h with
  | nil =>
      rw [hashKeys]
      exact .hashed rfl
  | @cons v w vs ws hvw _ ih =>
      rw [hashKeys, hashKeys]
      refine (hvs v List.mem_cons_self w hvw).bind fun k l hkl => ?_
      refine (ih fun v hv => hvs v (List.mem_cons_of_mem _ hv)).bind fun ks ls hks => ?_
      exact .hashed (by rw [HashKey.sameAll, hkl, hks]; rfl)

/-- Equal values have equal hashes, or none has a hash. -/
theorem Equals.hashesAgree (h : v.Equals w) :
    HashesAgree HashKey.same (v.hashKey : Except String (HashKey ι)) w.hashKey := by
  induction v using induct generalizing w with
  | null =>
      rw [equals_null_iff.mp h, hashKey]
      exact .hashed rfl
  | number v x hx =>
      obtain ⟨hne, hw⟩ := (equals_number_iff hx).mp h
      exact hashesAgree_number hne hx hw
  | text t =>
      rw [equals_text_iff.mp h, hashKey]
      split
      · exact .hashed rfl
      · exact .hashed (beq_self_eq_true t)
  | list vs ih =>
      obtain ⟨ws, rfl, -⟩ := equals_list_iff.mp h
      rw [hashKey, hashKey]
      exact .unhashable "list"
  | tuple vs ih =>
      obtain ⟨ws, rfl, hws⟩ := equals_tuple_iff.mp h
      rw [hashKey, hashKey]
      exact (hashesAgree_all (fun v hv w => ih v hv) hws).bind fun ks ls hks => .hashed hks
  | dict es _ _ =>
      obtain ⟨fs, rfl, -⟩ := equals_dict_iff.mp h
      rw [hashKey, hashKey]
      exact .unhashable "dict"
  | captured label value ihl ihv =>
      obtain ⟨l, v, rfl, hlabel, hvalue⟩ := equals_captured_iff.mp h
      rw [hashKey, hashKey]
      refine (ihl hlabel).bind fun k k' hk => (ihv hvalue).bind fun m m' hm => ?_
      exact .hashed (by rw [HashKey.same, hk, hm]; rfl)
  | other v hv => exact absurd h (hv w)

/-- The order of its entries makes no difference to a dictionary. -/
theorem equals_of_perm (h : (dict es).IsData) (hperm : es.Perm fs) :
    (dict es).Equals (.dict fs) := by
  cases h with
  | dict hkeys hvalues _ =>
      exact equals_dict_iff.mpr ⟨fs, rfl, hperm.length_eq, fun e he =>
        ⟨e, hperm.mem_iff.mp he, (hkeys e he).equals_self, (hvalues e he).equals_self⟩⟩

end Value

/-- Equality is an equivalence of all values that are plain data, captured values and what is
in them included. A captured value equals only captured values, by label and value, and
dictionaries are equal in whatever order their entries are. Equal values have equal hashes,
or neither has a hash. -/
theorem captured_equality_lawful (α ι : Type) [DecidableEq ι] :
    Equivalence (fun v w : {v : Value α // v.IsData} => v.1.same w.1 = true) ∧
    (∀ label value w : Value α, (Value.captured label value).same w = true ↔
      ∃ l v, w = .captured l v ∧ label.same l = true ∧ value.same v = true) ∧
    (∀ es fs : List (Value α × Value α), (Value.dict es).IsData → es.Perm fs →
      (Value.dict es).same (.dict fs) = true) ∧
    ∀ v w : Value α, v.same w = true →
      Value.HashesAgree HashKey.same (v.hashKey : Except String (HashKey ι)) w.hashKey := by
  refine ⟨⟨fun v => v.2.equals_self, fun {v _} h => v.2.equals_symm h, fun h h' => ?_⟩,
    fun _ _ _ => Value.equals_captured_iff, fun _ _ h hperm => Value.equals_of_perm h hperm,
    fun _ _ h => Value.Equals.hashesAgree h⟩
  exact Value.Equals.trans h h'

namespace Disguises

/-- One in binary64. -/
def unit : Binary64 := .finite false ⟨1 <<< 52, 1022, by decide⟩

/-- A number in a tuple, captured. -/
def numbered (n : Value Unit) : Value Unit := .captured (.text "n") (.tuple [n, .text ""])

/-- Two entries, captured; the second key is a number. -/
def keyed (n : Value Unit) : Value Unit :=
  .captured (.text "d") (.dict [(.text "k", .null), (n, .list [])])

/-- The entries the other way round. -/
def turned (n : Value Unit) : Value Unit :=
  .captured (.text "d") (.dict [(n, .list []), (.text "k", .null)])

theorem isData_numbered {n : Value Unit} (h : n.IsData) : (numbered n).IsData := by
  refine .captured (.text _) (.tuple fun v hv => ?_)
  rcases List.mem_pair.mp hv with rfl | rfl
  · exact h
  · exact .text _

theorem isData_keyed {n : Value Unit} (h : n.IsData) (hne : ¬ (Value.text "k").Equals n) :
    (keyed n).IsData := by
  refine .captured (.text _) (.dict (fun e he => ?_) (fun e he => ?_)
    (List.pairwise_pair.mpr hne))
  · rcases List.mem_pair.mp he with rfl | rfl
    · exact .text _
    · exact h
  · rcases List.mem_pair.mp he with rfl | rfl
    · exact .null
    · exact .list fun v hv => absurd hv List.not_mem_nil

/-- An integer, a truth value and a float that are all one are equal where they are captured,
and their hashes are equal. As keys of dictionaries they are equal as well, and these have
no hashes. -/
theorem captured_equality_lawful_one :
    (numbered (.int 1)).IsData ∧ (numbered (.bool true)).IsData ∧
      (numbered (.float unit)).IsData ∧
      (numbered (.int 1)).same (numbered (.bool true)) = true ∧
      (numbered (.bool true)).same (numbered (.float unit)) = true ∧
      (numbered (.int 1)).same (numbered (.float unit)) = true ∧
      Value.HashesAgree HashKey.same
        ((numbered (.int 1)).hashKey : Except String (HashKey Unit))
        (numbered (.float unit)).hashKey ∧
      (keyed (.int 1)).IsData ∧ (keyed (.int 1)).same (turned (.bool true)) = true ∧
      Value.HashesAgree HashKey.same
        ((keyed (.int 1)).hashKey : Except String (HashKey Unit))
        (turned (.bool true)).hashKey := by
  obtain ⟨hequivalence, -, -, hhashes⟩ := captured_equality_lawful Unit Unit
  have hint := isData_numbered (.int 1)
  have hbool := isData_numbered (.bool true)
  have hfloat := isData_numbered (.float (by decide : unit ≠ .nan))
  have hfirst : (numbered (.int 1)).same (numbered (.bool true)) = true := rfl
  have hsecond : (numbered (.bool true)).same (numbered (.float unit)) = true := rfl
  have hboth : (numbered (.int 1)).same (numbered (.float unit)) = true :=
    hequivalence.trans (x := ⟨_, hint⟩) (y := ⟨_, hbool⟩) (z := ⟨_, hfloat⟩) hfirst hsecond
  have hturned : (keyed (.int 1)).same (turned (.bool true)) = true := rfl
  exact ⟨hint, hbool, hfloat, hfirst, hsecond, hboth, hhashes _ _ hboth,
    isData_keyed (.int 1) nofun, hturned, hhashes _ _ hturned⟩

end Disguises

end Peg
