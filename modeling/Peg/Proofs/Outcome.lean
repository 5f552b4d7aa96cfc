import Peg.Matching

/-!
# What composite matches keep

A composite node hands its parts to one of three loops: one item after the other,
the first alternative that does not fail, one item as often as it moves on. None of
the loops looks at a result, an error or a fault, so whatever holds of the ends of
the parts holds of the end of the loop.

`Outcome.Meets` states what holds of an end, one condition for each way to end, and
the rules below carry such conditions from the parts through the loops. A property
of positions is carried as an invariant: the parts keep it, so the loop does.
-/

namespace Peg

variable {α ε ε' β γ : Type}

namespace Outcome

/-- What holds of an outcome: one condition for each way to end. -/
def Meets (S : β → Int → Prop) (F : ε → Prop) (X : Fault → Prop) : Outcome ε β → Prop
  | success v stop => S v stop
  | failure e => F e
  | fault f => X f

variable {S : β → Int → Prop} {F : ε → Prop} {X : Fault → Prop}

theorem Meets.imp {S' : β → Int → Prop} {F' : ε → Prop} {X' : Fault → Prop}
    {o : Outcome ε β} (h : o.Meets S F X) (hS : ∀ v stop, S v stop → S' v stop)
    (hF : ∀ e, F e → F' e) (hX : ∀ f, X f → X' f) : o.Meets S' F' X' := by
  cases o with
  | success v stop => exact hS v stop h
  | failure e => exact hF e h
  | fault f => exact hX f h

theorem meets_andThen {T : γ → Int → Prop} {o : Outcome ε β}
    {next : β → Int → Outcome ε γ} (h : o.Meets S F X)
    (hnext : ∀ v stop, S v stop → (next v stop).Meets T F X) :
    (o.andThen next).Meets T F X := by
  cases o with
  | success v stop => exact hnext v stop h
  | failure e => exact h
  | fault f => exact h

@[simp] theorem meets_map {T : γ → Int → Prop} {f : β → γ} {o : Outcome ε β} :
    (o.map f).Meets T F X ↔ o.Meets (fun v => T (f v)) F X := by
  cases o <;> rfl

@[simp] theorem meets_mapError {F' : ε' → Prop} {f : ε → ε'} {o : Outcome ε β} :
    (o.mapError f).Meets S F' X ↔ o.Meets S (fun e => F' (f e)) X := by
  cases o <;> rfl

theorem mapError_mapError {ε'' : Type} {g : ε → ε'} {h : ε' → ε''} {o : Outcome ε β} :
    (o.mapError g).mapError h = o.mapError (h ∘ g) := by
  cases o <;> rfl

/-! ### Where an end comes from -/

section Ends

variable {o : Outcome ε β} {φ : Fault}

@[simp] theorem map_eq_fault {f : β → γ} : o.map f = fault φ ↔ o = fault φ := by
  cases o <;> simp [map]

@[simp] theorem map_eq_failure {f : β → γ} {e : ε} : o.map f = failure e ↔ o = failure e := by
  cases o <;> simp [map]

@[simp] theorem mapError_eq_fault {f : ε → ε'} : o.mapError f = fault φ ↔ o = fault φ := by
  cases o <;> simp [mapError]

theorem mapError_eq_failure {f : ε → ε'} {e' : ε'} :
    o.mapError f = failure e' ↔ ∃ e, o = failure e ∧ f e = e' := by
  cases o <;> simp [mapError]

theorem andThen_eq_fault {next : β → Int → Outcome ε γ} :
    o.andThen next = fault φ ↔
      o = fault φ ∨ ∃ v stop, o = success v stop ∧ next v stop = fault φ := by
  cases o <;> simp [andThen, and_assoc]

theorem andThen_eq_failure {next : β → Int → Outcome ε γ} {e : ε} :
    o.andThen next = failure e ↔
      o = failure e ∨ ∃ v stop, o = success v stop ∧ next v stop = failure e := by
  cases o <;> simp [andThen, and_assoc]

end Ends

end Outcome

/-! ## The loops -/

variable {I : Int → Prop} {F : ParseError α → Prop} {X : Fault → Prop}

theorem matchAll_meets {step : Node α → Int → Match α} {items : List (Node α)} {pos : Int}
    (hstep : ∀ n ∈ items, ∀ p, I p → (step n p).Meets (fun _ stop => I stop) F X)
    (hpos : I pos) : (matchAll step items pos).Meets (fun _ stop => I stop) F X := by
  induction items generalizing pos with
  | nil => exact hpos
  | cons n ns ih =>
      rw [matchAll]
      refine Outcome.meets_andThen (hstep n (by simp) pos hpos) fun v stop hstop => ?_
      rw [Outcome.meets_map]
      exact ih (fun m hm => hstep m (by simp [hm])) hstop

theorem matchFirst_meets {S : Value α → Int → Prop} {step : Node α → Match α}
    {alternatives : List (Node α)} (hstep : ∀ n ∈ alternatives, (step n).Meets S F X) :
    (matchFirst step alternatives).Meets S (fun es => ∀ e ∈ es, F e) X := by
  induction alternatives with
  | nil => exact fun e he => absurd he (by simp)
  | cons n ns ih =>
      have hn := hstep n (by simp)
      have hns := ih fun m hm => hstep m (by simp [hm])
      rw [matchFirst]
      cases hs : step n with
      | success v stop => rw [hs] at hn; exact hn
      | fault f => rw [hs] at hn; exact hn
      | failure e =>
          rw [hs] at hn
          rw [Outcome.meets_mapError]
          refine hns.imp (fun _ _ h => h) (fun es hes e' he' => ?_) (fun _ h => h)
          rcases List.mem_cons.mp he' with rfl | hmem
          · exact hn
          · exact hes e' hmem

theorem matchMany_meets {step : Int → Match α} {room : Nat} {pos : Int}
    {G : ParseError α → Prop}
    (hstep : ∀ p, I p → (step p).Meets (fun _ stop => I stop) F X) (hpos : I pos) :
    (matchMany step room pos).Meets (fun _ stop => I stop) G X := by
  induction room generalizing pos with
  | zero => exact hpos
  | succ room ih =>
      have hs := hstep pos hpos
      rw [matchMany]
      cases h : step pos with
      | failure e => exact hpos
      | fault f => rw [h] at hs; exact hs
      | success v stop =>
          rw [h] at hs
          simp only []
          split
          · exact hpos
          · rw [Outcome.meets_map]
            exact ih hs

end Peg
