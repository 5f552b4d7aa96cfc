import Peg.Proofs.Frames
import Peg.Proofs.Limit
import Peg.Proofs.Regular
import Peg.Proofs.Termination

/-!
# Nesting too deeply

A match for which no level is left ends in the fault `tooDeep`. Inside one parse nothing
recovers from that: whoever starts a match hands its fault on, so the attempt is refused
as nested too deeply, however the match that met the limit was reached. Conversely an
attempt is refused for nothing else but the end of the stack, which is met at the limit,
or by an action that raises the error itself or has no level left to start a parse on, or
while the message of an error is made.

Under a higher limit an attempt that was not refused ends as before, since up to the
limit that was not met nothing is different.

A parse that an action starts does not hand the fault on. It is refused on its own, the
refusal is an error like any other to the action, and so the match of the action fails.
What is around the action goes on from there: a choice tries its next alternative. The
faults of the grammar, in contrast, cross any nesting of parses.
-/

namespace Peg

variable {α : Type}

/-- The refusal of an attempt that nests too deeply. -/
def nestedTooDeep (text : Text) (pos : Int) : Except (Halt α) (Attempt α) :=
  .error (.refused (.leaf .tooDeep pos []) text)

theorem Outcome.toAttempt_eq_nestedTooDeep_iff {o : Match α} {text : Text} {pos : Int} :
    o.toAttempt text pos = nestedTooDeep text pos ↔ o = .fault .tooDeep :=
  Outcome.toAttempt_eq_refused.trans (and_iff_left ⟨rfl, rfl⟩)

theorem settle_eq_tooDeep_iff {pos : Int} {r : Raised} :
    (settle pos r : Match α) = .fault .tooDeep ↔ r.EndsStack := by
  refine ⟨fun h => ?_, fun h => settle_of_endsStack h pos⟩
  rcases settle_cases (α := α) pos r with ⟨kind, t, rfl, hplain⟩ | hends | ⟨r', -, hr'⟩
  · rw [settle_of_isPlain hplain] at h
    cases h
  · exact hends
  · rw [hr'] at h
    cases h

variable [Named α]

/-! ## The end of the stack -/

section Finish

variable {ctx : Context α} {limit : Nat} {act : α} {v : Value α} {pos stop : Int}
  {inner : Node α} {text : Text}

theorem finish_of_raised {r : Raised} (hr : ctx.perform act v = .raised r) :
    ctx.finish limit act v pos stop = settle pos r := by
  rw [Context.finish, hr]

theorem finish_of_refusal {h : Halt α} (hp : ctx.perform act v = .parse inner text)
    (hi : parseInside ctx limit inner text = .error h) :
    ctx.finish limit act v pos stop = settleHalt pos h := by
  rw [Context.finish, hp]
  simp only [hi]

end Finish

namespace Frame

variable {ctx : Context α} {f g : Frame α}

/-- The match meets the end of the stack itself. -/
inductive EndsStack (ctx : Context α) (f : Frame α) : Prop
  /-- No level is left for it. -/
  | limit : f.limit = 0 → EndsStack ctx f
  /-- Its action raised the error, or one whose message ends the stack. -/
  | raised {limit act v stop r} : f.Performs ctx limit act v stop →
    ctx.perform act v = .raised r → r.EndsStack → EndsStack ctx f
  /-- No level is left for the parse that its action starts. -/
  | noLevel {act v stop inner text} : f.Performs ctx 0 act v stop →
    ctx.perform act v = .parse inner text → EndsStack ctx f
  /-- The parse that its action starts hands on an error whose message ends the stack. -/
  | handedOn {limit act v stop inner text r} : f.Performs ctx limit act v stop →
    ctx.perform act v = .parse inner text →
    parseInside ctx limit inner text = .error (.fault (.uncaught r)) → r.EndsStack →
    EndsStack ctx f

theorem EndsStack.outcome_eq (h : f.EndsStack ctx) : f.outcome ctx = .fault .tooDeep := by
  cases h with
  | limit hlimit => exact outcome_of_limit hlimit
  | raised hact hr hkind =>
      rw [hact.outcome_eq, finish_of_raised hr]
      exact settle_eq_tooDeep_iff.mpr hkind
  | noLevel hact hp =>
      rw [hact.outcome_eq, finish_of_refusal hp rfl]
      rfl
  | handedOn hact hp hi hends =>
      rw [hact.outcome_eq, finish_of_refusal hp hi, settleHalt]
      split
      · next hconfig => exact absurd hends (Raised.not_endsStack_of_isConfig hconfig)
      · exact settle_of_endsStack hends _

theorem endsStack_of_performs {limit : Nat} {act : α} {v : Value α} {stop : Int}
    (hact : f.Performs ctx limit act v stop)
    (h : ctx.finish limit act v f.pos stop = .fault .tooDeep) : f.EndsStack ctx := by
  cases hp : ctx.perform act v with
  | value w => rw [Context.finish, hp] at h; cases h
  | raised r =>
      rw [finish_of_raised hp] at h
      exact .raised hact hp (settle_eq_tooDeep_iff.mp h)
  | parse inner text =>
      cases limit with
      | zero => exact .noLevel hact hp
      | succ limit =>
          cases hi : parseInside ctx (limit + 1) inner text with
          | ok w => rw [Context.finish, hp] at h; simp only [hi] at h; cases h
          | error halt =>
              rw [finish_of_refusal hp hi] at h
              cases halt with
              | refused e t =>
                  exact absurd (settle_eq_tooDeep_iff.mp h) (e.raised_not_endsStack _)
              | fault φ =>
                  have hdeep := (parseInside_fault hi).2
                  rw [settleHalt] at h
                  split at h
                  · cases h; exact absurd rfl hdeep
                  · have hends := settle_eq_tooDeep_iff.mp h
                    cases φ with
                    | uncaught r => exact .handedOn hact hp hi hends
                    | tooDeep => exact absurd rfl hdeep
                    | _ => cases hends

/-- A match ends in the fault exactly when one of the matches it visits meets the end of
the stack. -/
theorem outcome_tooDeep_iff :
    f.outcome ctx = .fault .tooDeep ↔ ∃ g, f.Visits ctx g ∧ g.EndsStack ctx := by
  constructor
  · intro h
    -- Every started match has one level less, so the blame cannot be handed down for ever.
    induction hlimit : f.limit generalizing f with
    | zero => exact ⟨f, .refl, .limit hlimit⟩
    | succ limit ih =>
        cases blames_of_fault h with
        | limit hzero => exact ⟨f, .refl, .limit hzero⟩
        | performed hact hfinish => exact ⟨f, .refl, endsStack_of_performs hact hfinish⟩
        | own hown => exact hown.elim
        | @started g hstart hg =>
            have hone := hstart.limit_eq
            obtain ⟨k, hvisit, hends⟩ := ih hg (by omega)
            exact ⟨k, .head hstart hvisit, hends⟩
  · rintro ⟨g, hvisit, hends⟩
    exact hvisit.fault hends.outcome_eq

end Frame

/-! ## Parses that actions start -/

theorem parseInside_of_tooDeep {ctx : Context α} {limit : Nat} {node : Node α} {t : Text}
    (h : matchNode ctx limit (.ofText t) [] node 0 = .fault .tooDeep) :
    parseInside ctx (limit + 1) node t = .error (.refused (.leaf .tooDeep 0 []) t) := by
  rw [parseInside, h]
  rfl

theorem parseInside_of_fault {ctx : Context α} {limit : Nat} {node : Node α} {t : Text}
    {φ : Fault} (h : matchNode ctx limit (.ofText t) [] node 0 = .fault φ) (hne : φ ≠ .tooDeep) :
    parseInside ctx (limit + 1) node t = .error (.fault φ) := by
  rw [parseInside, h]
  cases φ <;> first | rfl | exact absurd rfl hne

theorem Fault.ne_tooDeep_of_isConfig {φ : Fault} (h : φ.isConfig = true) : φ ≠ .tooDeep := by
  rintro rfl
  cases h

namespace Frame

variable {ctx : Context α} {f g : Frame α}

/-- A parse that nests too deeply is an error like any other to the action that starts
it. -/
theorem StartsInside.failure (h : f.StartsInside ctx g) (hg : g.outcome ctx = .fault .tooDeep) :
    ∃ message, f.outcome ctx =
      .failure (.leaf (.transform .nestingTooDeep message) f.pos []) := by
  cases h with
  | @intro limit act v stop inner text hact hp =>
      refine ⟨(Reason.tooDeep : Reason α).text ++ "\n" ++ text.excerpt 0 Text.defaultLookahead, ?_⟩
      rw [outcome_top] at hg
      rw [hact.outcome_eq, finish_of_refusal hp (parseInside_of_tooDeep hg)]
      rfl

/-- A fault of the grammar leaves the parse that an action starts. -/
theorem StartsInside.fault {φ : Fault} (h : f.StartsInside ctx g)
    (hg : g.outcome ctx = .fault φ) (hconfig : φ.isConfig = true) :
    f.outcome ctx = .fault φ := by
  cases h with
  | @intro limit act v stop inner text hact hp =>
      have hne := Fault.ne_tooDeep_of_isConfig hconfig
      rw [outcome_top] at hg
      rw [hact.outcome_eq, finish_of_refusal hp (parseInside_of_fault hg hne)]
      exact if_pos hconfig

/-- A fault of the grammar crosses any nesting of parses. -/
theorem Runs.fault {φ : Fault} (h : f.Runs ctx g) (hg : g.outcome ctx = .fault φ)
    (hconfig : φ.isConfig = true) : f.outcome ctx = .fault φ := by
  induction h with
  | refl => exact hg
  | tail _ hstart ih =>
      rcases hstart with hstart | hstart
      · exact ih (hstart.fault hg)
      · exact ih (hstart.fault hg hconfig)

end Frame

/-! ## Attempts -/

section Attempts

variable (ctx : Context α) (node : Node α) (text : Text) (pos : Int)

theorem attempt_exhausted_iff (limit : Nat) :
    attempt ctx limit node text pos = nestedTooDeep text pos ↔
      ∃ f, (Frame.top limit node text pos).Visits ctx f ∧ f.EndsStack ctx := by
  rw [← Frame.outcome_tooDeep_iff]
  exact Outcome.toAttempt_eq_nestedTooDeep_iff

/-- The limit decides nothing but whether an attempt is refused. An attempt that is not
refused ends in the same way under any higher limit, and it is refused if any match that
it visits finds no level left. -/
theorem attempt_limit_irrelevant {limit limit' : Nat} (hle : limit ≤ limit')
    (hquiet : ctx.IsQuiet node) :
    (attempt ctx limit node text pos ≠ nestedTooDeep text pos →
      attempt ctx limit' node text pos = attempt ctx limit node text pos) ∧
    ∀ f, (Frame.top limit node text pos).Visits ctx f → f.limit = 0 →
      attempt ctx limit node text pos = nestedTooDeep text pos := by
  constructor
  · intro hanswered
    have hne : matchNode ctx limit (.ofText text) [] node pos ≠ .fault .tooDeep := fun hdeep =>
      hanswered (Outcome.toAttempt_eq_nestedTooDeep_iff.mpr hdeep)
    rw [attempt, attempt, matchNode_extends ctx _ hle [] node pos hquiet hne]
  · intro f hvisit hlimit
    exact (attempt_exhausted_iff ctx node text pos limit).mpr ⟨f, hvisit, .limit hlimit⟩

/-- The end of the stack refuses the attempt that meets it, and no other: where a parse
inside an action meets it, the match of the action fails. The faults of the grammar cross
any nesting of parses. -/
theorem exhaustion_stays_in_parse (limit : Nat) :
    (attempt ctx limit node text pos = nestedTooDeep text pos ↔
      ∃ f, (Frame.top limit node text pos).Visits ctx f ∧ f.EndsStack ctx) ∧
    (∀ f g : Frame α, f.StartsInside ctx g → g.outcome ctx = .fault .tooDeep →
      ∃ message, f.outcome ctx =
        .failure (.leaf (.transform .nestingTooDeep message) f.pos [])) ∧
    ∀ f φ, (Frame.top limit node text pos).Runs ctx f → f.outcome ctx = .fault φ →
      φ.isConfig = true → attempt ctx limit node text pos = .error (.fault φ) := by
  refine ⟨attempt_exhausted_iff ctx node text pos limit, fun f g => Frame.StartsInside.failure,
    fun f φ hruns hf hconfig => ?_⟩
  have htop : matchNode ctx limit (.ofText text) [] node pos = .fault φ := hruns.fault hf hconfig
  rw [attempt, htop]
  cases φ <;> first | rfl | cases hconfig

end Attempts

/-! ## Brackets that are turned into trees -/

namespace Trees

/-- The actions of the grammar: the one makes a list of what is in brackets, the other
counts a letter. -/
inductive Action where
  | children
  | count

instance : Named Action := ⟨fun | .children => "children" | .count => "count", fun _ => .defined⟩

def ref : Node Action := .placeholder 0 (.text "tree")

def brackets : Node Action :=
  .action (.sequence [.literal "(", .capture (.text "inner") (.many ref), .literal ")"]) .children

/-- The rule `tree = "(" tree* ")" | letter`, with an action for each alternative. -/
def rule : Node Action := .choice [brackets, .action (.range 97 122) .count]

def perform : Action → Value Action → ActionResult Action
  | .children, .tuple [_, .captured _ v, _] => .value v
  | .children, v => .value v
  | .count, _ => .value (.int 1)

def context : Context Action := ⟨Bindings.empty.bind 0 rule, perform⟩

theorem perform_value (act : Action) (v : Value Action) : ∃ w, perform act v = .value w := by
  unfold perform
  split <;> exact ⟨_, rfl⟩

theorem isRegular : context.IsRegular ref :=
  Context.isRegular_of_isReady (by decide) (by decide) fun act v => by
    obtain ⟨w, hw⟩ := perform_value act v
    show (perform act v).IsPlain
    rw [hw]
    trivial

/-- The value of a letter is one, and brackets around values are a list of them. -/
theorem attempt_nested : attempt context 20 ref "(a(b))" 0 =
    .ok (.matched (.list [.int 1, .list [.int 1]]) 6) := rfl

/-- More than twenty levels change nothing. With two of them the first alternative is
already one too deep. -/
theorem attempt_limit_irrelevant_nested :
    context.IsQuiet ref ∧
      attempt context defaultLimit ref "(a(b))" 0 =
        .ok (.matched (.list [.int 1, .list [.int 1]]) 6) ∧
      attempt context 2 ref "(a(b))" 0 = nestedTooDeep "(a(b))" 0 := by
  have hmore := (attempt_limit_irrelevant context ref "(a(b))" 0 (by decide : 20 ≤ defaultLimit)
    isRegular.isQuiet).1
  have hfew := (attempt_limit_irrelevant context ref "(a(b))" 0 (by decide : 2 ≤ 20)
    isRegular.isQuiet).2
  have htarget : (Frame.top 2 ref "(a(b))" 0).Starts context
      ⟨1, .ofText "(a(b))", [(0, 0)], rule, 0⟩ := .target rfl List.not_mem_nil
  have halternative : (⟨1, .ofText "(a(b))", [(0, 0)], rule, 0⟩ : Frame Action).Starts context
      ⟨0, .ofText "(a(b))", [(0, 0)], brackets, 0⟩ := .alternative List.mem_cons_self
  rw [attempt_nested] at hmore
  exact ⟨isRegular.isQuiet, hmore nofun, hfew _ (.head htarget (.head halternative .refl)) rfl⟩

end Trees

/-! ## An action that starts a parse -/

namespace Recovered

/-- The one action of the grammar. It parses a text with `nested`. -/
inductive Action where
  | sub

instance : Named Action := ⟨fun _ => "sub", fun _ => .defined⟩

def nested : Node Action := .sequence [.sequence [.literal "a"]]

def guarded : Node Action := .action (.literal "a") .sub

/-- A choice that goes on where the action fails. -/
def rule : Node Action := .choice [guarded, .literal "a"]

def context : Context Action := ⟨.empty, fun _ _ => .parse nested "a"⟩

/-- With four levels the parse inside the action nests too deeply, and the attempt
succeeds. -/
theorem exhaustion_is_recoverable :
    ¬ ∀ (ctx : Context Action) (limit : Nat) (node : Node Action) (text : Text) (pos : Int)
      (f : Frame Action), (Frame.top limit node text pos).Runs ctx f → f.limit = 0 →
      attempt ctx limit node text pos = nestedTooDeep text pos := by
  intro h
  have hguarded : (Frame.top 4 rule "a" 0).Starts context ⟨3, .ofText "a", [], guarded, 0⟩ :=
    .alternative List.mem_cons_self
  have hletter : matchNode context 2 (.ofText "a") [] (.literal "a") 0 =
      .success (.text "a") 1 := rfl
  have hnested : (⟨3, .ofText "a", [], guarded, 0⟩ : Frame Action).StartsInside context
      (.top 1 nested "a" 0) := .intro (.intro hletter) rfl
  have hitem : (Frame.top 1 nested "a" 0).Starts context
      ⟨0, .ofText "a", [], .sequence [.literal "a"], 0⟩ := .item List.mem_cons_self
  have hruns := (hguarded.runs.trans hnested.runs).trans hitem.runs
  have hanswer : attempt context 4 rule "a" 0 = .ok (.matched (.text "a") 1) := rfl
  cases hanswer.symm.trans (h context 4 rule "a" 0 _ hruns rfl)

end Recovered

end Peg
