import Peg.Describe

/-!
# Events

The library reports what it does as events: placeholders that are resolved, and
parses that start and end. An event about a grammar holds the name of the grammar,
which is written only when somebody reads the report. A name that cannot be written
is a fault of the reading, so a program that nobody watches never meets it.
-/

namespace Peg

/-- Something worth reporting. -/
inductive Event (α : Type) where
  | resolved (placeholder target : Text)
  | started (length : Nat) (grammar : Value α)
  | refused (grammar : Value α) (pos : Int) (message : Text)
  | succeeded (grammar : Value α)

namespace Event

variable {α : Type}

/-- The part of the library that an event comes from. -/
inductive Source where
  | building
  | parsing
  deriving DecidableEq, Repr

def source : Event α → Source
  | resolved .. => .building
  | _ => .parsing

variable [Named α] (isBound : Nat → Bool)

def message : Event α → Except Fault Text
  | resolved placeholder target => .ok ("resolved " ++ placeholder ++ " to " ++ target)
  | started length grammar => do
    let name ← grammar.display isBound
    return "parsing " ++ Text.ofNat length ++ " characters with grammar " ++ name
  | refused grammar pos message => do
    let name ← grammar.display isBound
    return "grammar " ++ name ++ " failed at position " ++ Text.ofInt pos ++ ": " ++ message
  | succeeded grammar => do
    let name ← grammar.display isBound
    return "grammar " ++ name ++ " parsed input successfully"

/-- A report of an event, as somebody reads it. -/
structure Report where
  source : Source
  message : Text
  deriving DecidableEq, Repr

/-- The reports of events, up to the first that cannot be written. -/
def reports : List (Event α) → List Report × Option Fault
  | [] => ([], none)
  | e :: es =>
    match e.message isBound with
    | .ok t =>
      let (rs, fault) := reports es
      (⟨e.source, t⟩ :: rs, fault)
    | .error f => ([], some f)

end Event

end Peg
