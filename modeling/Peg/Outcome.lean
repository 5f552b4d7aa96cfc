import Peg.ParseError

/-!
# Outcomes

Matching a node at a position succeeds with a result and the position after it,
fails with an error, or ends in a fault. The error of a failure and the result of a
success are parameters, because the parts of a match deal in lists of them.

An *attempt* is what becomes of an outcome at the top: the length consumed in place
of the position, and a parse error in place of the fault that says that the matches
nest too deeply.
-/

namespace Peg

/-- What comes of matching something at a position. -/
inductive Outcome (ε β : Type) where
  | success (value : β) (stop : Int)
  | failure (error : ε)
  | fault (f : Fault)

namespace Outcome

variable {ε ε' β γ : Type}

/-- Goes on after a success. -/
def andThen : Outcome ε β → (β → Int → Outcome ε γ) → Outcome ε γ
  | success value stop, next => next value stop
  | failure error, _ => failure error
  | fault f, _ => fault f

/-- Changes the result of a success. -/
def map (f : β → γ) : Outcome ε β → Outcome ε γ
  | success value stop => success (f value) stop
  | failure error => failure error
  | fault f => fault f

/-- Changes the error of a failure. -/
def mapError (f : ε → ε') : Outcome ε β → Outcome ε' β
  | success value stop => success value stop
  | failure error => failure (f error)
  | fault f => fault f

end Outcome

variable {α : Type}

/-- What comes of matching a node. -/
abbrev Match (α : Type) := Outcome (ParseError α) (Value α)

/-- The answer of an attempt: a result and the length consumed, or a failure. -/
inductive Attempt (α : Type) where
  | matched (value : Value α) (consumed : Int)
  | failed (error : ParseError α)

/-- What ends an attempt or a parse without an answer. -/
inductive Halt (α : Type) where
  | refused (error : ParseError α) (text : Text)
  | fault (f : Fault)

/-- The end of a run as an error that somebody may catch. -/
def Halt.raised [Named α] : Halt α → Raised
  | refused error text => error.raised (some text)
  | fault f => f.raised

/-- The attempt that an outcome at the top amounts to. -/
def Outcome.toAttempt (text : Text) (pos : Int) : Match α → Except (Halt α) (Attempt α)
  | success value stop => .ok (.matched value (stop - pos))
  | failure error => .ok (.failed error)
  | fault .tooDeep => .error (.refused (.leaf .tooDeep pos []) text)
  | fault f => .error (.fault f)

/-- An attempt from the start of a text as a parse of the whole text. -/
def Attempt.complete (text : Text) : Attempt α → Except (Halt α) (Value α)
  | matched value consumed =>
    if consumed = text.length then .ok value
    else .error (.refused (.leaf (.unconsumed value consumed) consumed []) text)
  | failed error => .error (.refused error text)

end Peg
