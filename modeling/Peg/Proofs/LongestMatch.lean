import Mathlib.Computability.Language
import Peg.Proofs.Answer
import Peg.Proofs.Lookahead

/-!
# Longest matches

A choice keeps the first alternative that matches and a repeat takes all it can get, so a
node need not match the longest text of the language that it is written for. Where it
does, it *scans* the language: from any text it takes the longest text of the language
that is in front, and it fails where there is none.

Parts in a row scan the texts of the one followed by the texts of the other if the
languages are apart: what follows never begins with a code point that occurs in the part
before. A longer text of the whole could otherwise start with a shorter text of the first
part, which the first part does not go back to.
-/

namespace Peg

variable {α β : Type}

/-- The longest text of a language that `s` begins with. -/
structure IsLongest (L : Language CodePoint) (s t : Text) : Prop where
  mem : t ∈ L
  begins : t <+: s
  longest : ∀ u ∈ L, u <+: s → u.length ≤ t.length

/-- No code point in a text of `L` is the first of a text of `M`. -/
def Apart (L M : Language CodePoint) : Prop :=
  ∀ t ∈ L, ∀ c ∈ t, ∀ u ∈ M, u.head? ≠ some c

section Languages

variable {L M : Language CodePoint} {s t u : Text}

/-- What follows a text of the first language follows the longest one, or is empty. -/
theorem Apart.begins {a b : Text} (hapart : Apart L M) (ht : IsLongest L (t ++ s) t) (ha : a ∈ L)
    (hb : b ∈ M) (h : a ++ b <+: t ++ s) : b <+: s := by
  have hbegins : a <+: t ++ s := (List.prefix_append a b).trans h
  have hat : a <+: t := List.prefix_of_prefix_length_le hbegins (List.prefix_append t s)
    (ht.longest a ha hbegins)
  -- if something of the longest text is left, `b` begins with a code point of it
  obtain ⟨r, rfl⟩ := hat
  rw [List.append_assoc, List.prefix_append_right_inj] at h
  cases r with
  | nil => exact h
  | cons c r =>
      cases b with
      | nil => exact List.nil_prefix
      | cons d b =>
          have hhead : (d :: b).head? ≠ some c := hapart _ ht.mem c (by simp) _ hb
          rw [List.cons_append, List.cons_prefix_cons] at h
          exact absurd (congrArg some h.1) hhead

theorem Apart.of_disjoint {p q : CodePoint → Prop} (hL : ∀ t ∈ L, ∀ c ∈ t, p c)
    (hM : ∀ u ∈ M, ∀ c, u.head? = some c → q c) (hpq : ∀ c, p c → ¬ q c) : Apart L M :=
  fun t ht c hc u hu hhead => hpq c (hL t ht c hc) (hM u hu c hhead)

theorem apart_one : Apart L 1 := by
  intro t _ c _ u hu
  rw [(Language.mem_one u).mp hu]
  exact nofun

theorem IsLongest.append (hapart : Apart L M) (ht : IsLongest L (t ++ s) t)
    (hu : IsLongest M s u) : IsLongest (L * M) (t ++ s) (t ++ u) where
  mem := Language.append_mem_mul ht.mem hu.mem
  begins := List.prefix_append_right_inj t |>.mpr hu.begins
  longest x hx hbegins := by
    obtain ⟨a, ha, b, hb, rfl⟩ := Language.mem_mul.mp hx
    have hle := ht.longest a ha ((List.prefix_append a b).trans hbegins)
    have hle' := hu.longest b hb (hapart.begins ht ha hb hbegins)
    simp only [List.length_append]
    omega

end Languages

/-! ## Scanning -/

/-- The reading took the longest text of the language off `s`, or there is none. -/
inductive Scan (L : Language CodePoint) (s : Text) : Reading β → Prop
  | longest {v : β} {t rest : Text} : s = t ++ rest → IsLongest L s t →
    Scan L s (.matched v rest)
  | none : (∀ t ∈ L, ¬ t <+: s) → Scan L s .mismatch

namespace Context

/-- With `levels` levels or more the node scans the language. -/
def Scans (ctx : Context α) (levels : Nat) (node : Node α) (L : Language CodePoint) : Prop :=
  ∀ s, ∃ r, ctx.Reads levels node s r ∧ Scan L s r

/-- With `levels` levels or more the nodes, one after the other, scan the language. -/
def ScansAll (ctx : Context α) (levels : Nat) (items : List (Node α))
    (L : Language CodePoint) : Prop :=
  ∀ s, ∃ r, ctx.ReadsAll levels items s r ∧ Scan L s r

variable {ctx : Context α} {levels levels' : Nat} {n item : Node α} {ns : List (Node α)}
  {L M : Language CodePoint} {s : Text}

theorem Scans.mono (h : ctx.Scans levels n L) (hle : levels ≤ levels') :
    ctx.Scans levels' n L := by
  intro s
  obtain ⟨r, hr, hscan⟩ := h s
  exact ⟨r, hr.mono hle, hscan⟩

/-- An attempt takes the longest text of the language, or fails. -/
theorem Scans.attempt [Named α] {limit pos : Nat} {text : Text} (h : ctx.Scans levels n L)
    (hnode : ctx.IsRegular n) (hpos : pos ≤ text.length) (hlimit : levels ≤ limit) :
    (∃ v t rest, text.drop pos = t ++ rest ∧ IsLongest L (text.drop pos) t ∧
      ctx.Matches n (text.drop pos) v rest ∧
      attempt ctx limit n text pos = .ok (.matched v t.length)) ∨
    (∀ t ∈ L, ¬ t <+: text.drop pos) ∧ ∃ e, attempt ctx limit n text pos = .ok (.failed e) := by
  obtain ⟨r, hr, hscan⟩ := h (text.drop pos)
  have hanswer := attempt_answers_reading limit hnode hpos
  rw [hr limit hlimit] at hanswer
  cases hscan with
  | @longest v t rest hs ht =>
      obtain ⟨t', hs', hattempt⟩ := hanswer
      obtain rfl := List.append_cancel_right (hs.symm.trans hs')
      exact .inl ⟨v, t, rest, hs, ht, hr.matches, hattempt⟩
  | none hnone => exact .inr ⟨hnone, hanswer⟩

/-! ## Leaves and runs -/

theorem Scans.literal (t : Text) : ctx.Scans 1 (.literal t) {t} := by
  intro s
  by_cases h : t <+: s
  · obtain ⟨rest, rfl⟩ := h
    refine ⟨_, .literal t rest, .longest rfl ⟨rfl, List.prefix_append t rest, ?_⟩⟩
    rintro u rfl -
    exact Nat.le_refl _
  · refine ⟨_, .literal_mismatch h, .none ?_⟩
    rintro u rfl
    exact h

/-- The texts of one code point out of several. -/
def oneOfTexts (cs : List CodePoint) : Language CodePoint := {t | ∃ c ∈ cs, t = [c]}

theorem Scans.oneOf (cs : List CodePoint) : ctx.Scans 2 (.oneOf cs) (oneOfTexts cs) := by
  intro s
  by_cases h : ∃ c ∈ cs, s.head? = some c
  · obtain ⟨c, hc, hhead⟩ := h
    obtain ⟨rest, rfl⟩ := List.head?_eq_some_iff.mp hhead
    refine ⟨_, .oneOf hc, .longest (t := [c]) rfl ⟨⟨c, hc, rfl⟩, by simp, ?_⟩⟩
    rintro u ⟨d, -, rfl⟩ -
    exact Nat.le_refl _
  · have hnone : EndsRun (· ∈ cs) s := fun c hhead hc => h ⟨c, hc, hhead⟩
    refine ⟨_, .oneOf_mismatch hnone, .none ?_⟩
    rintro u ⟨c, hc, rfl⟩ ⟨rest, rfl⟩
    exact hnone c rfl hc

/-- A run goes no further than up to a code point of another class. -/
theorem length_le_of_run {p : CodePoint → Prop} {t u : Text} (hu : IsRun p u) (hs : EndsRun p s)
    (h : u <+: t ++ s) : u.length ≤ t.length := by
  by_contra hlt
  have htu : t <+: u :=
    List.prefix_of_prefix_length_le (List.prefix_append t s) h (Nat.le_of_not_le hlt)
  obtain ⟨r, rfl⟩ := htu
  rw [List.prefix_append_right_inj] at h
  cases r with
  | nil => simp at hlt
  | cons c r =>
      obtain ⟨s', rfl⟩ := h
      exact absurd (hu c (by simp)) (hs c rfl)

/-- A text is a run and what comes after it. -/
theorem exists_run (p : CodePoint → Bool) (s : Text) :
    ∃ t rest, s = t ++ rest ∧ IsRun (p · = true) t ∧ EndsRun (p · = true) rest := by
  refine ⟨s.takeWhile p, s.dropWhile p, (List.takeWhile_append_dropWhile).symm,
    fun c hc => List.all_eq_true.mp List.all_takeWhile c hc, fun c hc => ?_⟩
  have hnot := List.head?_dropWhile_not p s
  rw [hc] at hnot
  simpa using hnot

/-! ## Composite nodes -/

theorem ScansAll.nil : ctx.ScansAll 0 [] 1 := by
  intro s
  refine ⟨_, .nil, .longest (t := []) rfl ⟨Language.nil_mem_one, List.nil_prefix, ?_⟩⟩
  intro u hu _
  rw [(Language.mem_one u).mp hu]

theorem ScansAll.mono (h : ctx.ScansAll levels ns L) (hle : levels ≤ levels') :
    ctx.ScansAll levels' ns L := by
  intro s
  obtain ⟨r, hr, hscan⟩ := h s
  exact ⟨r, hr.mono hle, hscan⟩

theorem Scans.cons (hn : ctx.Scans levels n L) (hns : ctx.ScansAll levels ns M)
    (hapart : Apart L M) : ctx.ScansAll levels (n :: ns) (L * M) := by
  intro s
  obtain ⟨r, hr, hscan⟩ := hn s
  cases hscan with
  | none hnone =>
      refine ⟨_, .here hr, .none fun x hx hbegins => ?_⟩
      obtain ⟨a, ha, b, -, rfl⟩ := Language.mem_mul.mp hx
      exact hnone a ha ((List.prefix_append a b).trans hbegins)
  | @longest v t rest hs ht =>
      subst hs
      obtain ⟨r', hr', hscan'⟩ := hns rest
      cases hscan' with
      | @longest vs u rest' hs' hu =>
          subst hs'
          exact ⟨_, .cons hr hr', .longest (List.append_assoc t u rest').symm
            (ht.append hapart hu)⟩
      | none hnone =>
          refine ⟨_, .later hr hr', .none fun x hx hbegins => ?_⟩
          obtain ⟨a, ha, b, hb, rfl⟩ := Language.mem_mul.mp hx
          exact hnone b hb (hapart.begins ht ha hb hbegins)

theorem ScansAll.one (hn : ctx.Scans levels n L) : ctx.ScansAll levels [n] L := by
  have hcons := hn.cons (ScansAll.nil.mono (Nat.zero_le levels)) apart_one
  rwa [mul_one] at hcons

theorem Scans.sequence (h : ctx.ScansAll levels ns L) :
    ctx.Scans (levels + 1) (.sequence ns) L := by
  intro s
  obtain ⟨r, hr, hscan⟩ := h s
  cases hscan with
  | longest hs ht => exact ⟨_, .sequence hr, .longest hs ht⟩
  | none hnone => exact ⟨_, .sequence_mismatch hr, .none hnone⟩

/-- An optional part is there if it can be. -/
theorem Scans.optional (h : ctx.Scans levels n L) (hlevels : 0 < levels) :
    ctx.Scans (levels + 1) n.optional (1 + L) := by
  intro s
  obtain ⟨r, hr, hscan⟩ := h s
  cases hscan with
  | @longest v t rest hs ht =>
      refine ⟨_, .optional hr, .longest hs ⟨.inr ht.mem, ht.begins, ?_⟩⟩
      rintro u (hu | hu) hbegins
      · rw [(Language.mem_one u).mp hu]
        exact Nat.zero_le _
      · exact ht.longest u hu hbegins
  | none hnone =>
      refine ⟨_, .optional_absent hr hlevels, .longest (t := []) rfl
        ⟨.inl Language.nil_mem_one, List.nil_prefix, ?_⟩⟩
      rintro u (hu | hu) hbegins
      · rw [(Language.mem_one u).mp hu]
      · exact absurd hbegins (hnone u hu)

/-- An action that gives a value on whatever its item matches does not matter. -/
theorem Scans.action {act : α} (h : ctx.Scans levels item L)
    (hact : ∀ s v rest, ctx.Matches item s v rest → ∃ w, ctx.perform act v = .value w) :
    ctx.Scans (levels + 1) (.action item act) L := by
  intro s
  obtain ⟨r, hr, hscan⟩ := h s
  cases hscan with
  | longest hs ht =>
      obtain ⟨w, hw⟩ := hact s _ _ hr.matches
      exact ⟨_, hr.action_value hw, .longest hs ht⟩
  | none hnone => exact ⟨_, .action_mismatch hr, .none hnone⟩

end Context

end Peg
