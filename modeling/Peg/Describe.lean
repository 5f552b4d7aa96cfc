import Peg.Binary64.Shortest
import Peg.Fault
import Peg.Text.Numeral
import Peg.Text.Quoted
import Peg.Value

/-!
# Descriptions

Messages show nodes and values. A node is described down to a depth: below it a
composite node is cut to its type, while the leaves of a grammar (literals,
ranges, placeholders and the empty node) are always shown in full. A placeholder is
shown by its name and by whether it is bound, never by its target, so every
description is finite.

A description can have a fault of its own, since a node may hold a value that is
no node, a bound that is no code point, or an integer too large to be shown.
-/

namespace Peg

variable {α : Type} [Named α]

/-- The integers less than this in size can be looked at as code points. -/
def codeLimit : Nat := 1 <<< 31

/-- A bound of a range, as a quoted text of one code point. -/
def describeBound (bound : Int) : Except Fault Text :=
  if bound < -codeLimit ∨ codeLimit ≤ bound then .error .hugeCodePoint
  else
    match CodePoint.ofInt? bound with
    | some c => .ok (Text.quoted [c])
    | none => .error .notACodePoint

/-- An integer in decimal, unless it has too many digits. -/
def describeInt (i : Int) : Except Fault Text :=
  if i.natAbs < Nat.pow 10 Numeral.maxDigits then .ok (Text.ofInt i) else .error .hugeInteger

/-- What stands for the address of a thing that is shown by it. -/
def anyAddress : Text := "0xADDR"

/-- A tuple of written items; one item alone is followed by a comma. -/
def tupleText : List Text → Text
  | [t] => "(" ++ t ++ ",)"
  | ts => "(" ++ Text.join ", " ts ++ ")"

/-- A construct with its parts in parentheses. -/
def construct (name : String) (parts : List Text) : Text :=
  name ++ "(" ++ Text.join ", " parts ++ ")"

/-- A range of code points, by its bounds. -/
def describeRange (low high : Int) : Except Fault Text := do
  let l ← describeBound low
  let h ← describeBound high
  return construct "Range" [l ++ ".." ++ h]

/-- The integer that a value can stand for as a bound of a range. -/
def Value.asBound : Value α → Except Fault Int
  | .int i => .ok i
  | .bool b => .ok b.toInt
  | v => .error (.notAnInteger v.typeName)

/-- A range by bounds that need not be integers; the lower bound is looked at first. -/
def describeLooseRange (low high : Value α) : Except Fault Text := do
  let l ← describeBound (← low.asBound)
  let h ← describeBound (← high.asBound)
  return construct "Range" [l ++ ".." ++ h]

/-- A function as a value of its own. -/
def functionText (act : α) : Text :=
  match Named.sort act with
  | .defined => "<function " ++ Named.name act ++ " at " ++ anyAddress ++ ">"
  | .builtin => "<built-in function " ++ Named.name act ++ ">"
  | .type => "<class '" ++ Named.name act ++ "'>"
  | .other _ shown => shown

mutual

/-- The form of a value in messages. `verbatim` leaves a text as it is, which only
concerns the value itself and not the values in it. `isBound` says which
placeholders have a target. -/
def Value.write (isBound : Nat → Bool) (verbatim : Bool) : Value α → Except Fault Text
  | .null => .ok "None"
  | .bool b => .ok (if b then "True" else "False")
  | .int i => describeInt i
  | .float x => .ok x.text
  | .text t => .ok (if verbatim then t else t.quoted)
  | .list items => do
    let ts ← Value.writeAll isBound items
    return "[" ++ Text.join ", " ts ++ "]"
  | .tuple items => do
    let ts ← Value.writeAll isBound items
    return tupleText ts
  | .dict entries => do
    let ts ← Value.writeEntries isBound entries
    return "\x7b" ++ Text.join ", " ts ++ "\x7d"
  | .captured label value => do
    let l ← label.write isBound false
    let v ← value.write isBound false
    return construct "Captured" [l, v]
  | .node n => n.describe isBound 2
  | .action act => .ok (functionText act)
  | .grammar _ name => do
    let t ← name.write isBound false
    return construct "Grammar" [t]

def Value.writeAll (isBound : Nat → Bool) : List (Value α) → Except Fault (List Text)
  | [] => .ok []
  | v :: vs => do
    let t ← v.write isBound false
    let ts ← Value.writeAll isBound vs
    return t :: ts

def Value.writeEntries (isBound : Nat → Bool) :
    List (Value α × Value α) → Except Fault (List Text)
  | [] => .ok []
  | (k, v) :: entries => do
    let key ← k.write isBound false
    let value ← v.write isBound false
    let ts ← Value.writeEntries isBound entries
    return (key ++ ": " ++ value) :: ts

/-- The form of a node in messages, composite nodes being cut below `depth`. -/
def Node.describe (isBound : Nat → Bool) : Node α → (depth : Int) → Except Fault Text
  | .literal t, _ => .ok (construct "Literal" [t.quoted])
  | .range low high, _ => describeRange low high
  | .empty _, _ => .ok "Empty"
  | .placeholder id name, _ => do
    let shown ← if name.isPresent then name.write isBound true else .ok anyAddress
    return construct "Recursion" (if isBound id then [shown] else [shown, "unresolved"])
  | .stray value, _ => .error (.notANode value.subject)
  | .looseLiteral text, _ => do
    let t ← text.write isBound false
    return construct "Literal" [t]
  | .looseRange low high, _ => describeLooseRange low high
  | .bare, depth => .ok (if depth ≤ 0 then "Node(...)" else "Node")
  | .sequence items, depth =>
    if depth ≤ 0 then .ok "Sequence(...)" else do
      let ts ← Node.describeAll isBound items (depth - 1)
      return construct "Sequence" ts
  | .choice alternatives, depth =>
    if depth ≤ 0 then .ok "Choice(...)" else do
      let ts ← Node.describeAll isBound alternatives (depth - 1)
      return construct "Choice" ts
  | .many item, depth =>
    if depth ≤ 0 then .ok "Repeat(...)" else do
      let t ← item.describe isBound (depth - 1)
      return construct "Repeat" [t]
  | .exclusion item forbidden, depth =>
    if depth ≤ 0 then .ok "Exclusion(...)" else do
      let t ← item.describe isBound (depth - 1)
      let f ← forbidden.describe isBound (depth - 1)
      return construct "Exclusion" [t, f]
  | .capture label item, depth =>
    if depth ≤ 0 then .ok "Capture(...)" else do
      let l ← label.write isBound false
      let t ← item.describe isBound (depth - 1)
      return construct "Capture" [l, t]
  | .action item act, depth =>
    if depth ≤ 0 then .ok "Action(...)" else do
      let t ← item.describe isBound (depth - 1)
      return construct "Action" [t, Named.name act]

def Node.describeAll (isBound : Nat → Bool) :
    List (Node α) → (depth : Int) → Except Fault (List Text)
  | [], _ => .ok []
  | n :: ns, depth => do
    let t ← n.describe isBound depth
    let ts ← Node.describeAll isBound ns depth
    return t :: ts

end

/-- The depth to which messages describe nodes. -/
def Node.usualDepth : Int := 2

/-- A value as it is written in messages. -/
def Value.render (isBound : Nat → Bool) (v : Value α) : Except Fault Text :=
  v.write isBound false

/-- A value as it is printed: a text as it is, anything else as it is written in
messages. -/
def Value.display (isBound : Nat → Bool) (v : Value α) : Except Fault Text :=
  v.write isBound true

end Peg
