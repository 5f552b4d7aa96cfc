import Peg.Json.Number
import Peg.Matching

/-!
# The actions of the JSON grammar

Each action turns the raw result of one construct of the grammar into the value
that the construct denotes. It states the shape of the results that its node can
have; a result of another shape is refused.
-/

namespace Peg.Json

/-- The actions of the grammar, by the construct that they give a value to. -/
inductive Action where
  | digit
  | lowerHexDigit
  | upperHexDigit
  | number
  | string
  | value
  | array
  | object
  deriving DecidableEq, Repr

instance : Named Action where
  name
    | .digit => "int"
    | .lowerHexDigit | .upperHexDigit => "<lambda>"
    | .number => "_number"
    | .string => "_string"
    | .value => "_value"
    | .array => "_array"
    | .object => "_object"
  sort
    | .digit => .type
    | _ => .defined

/-- The escapes of one code point after the backslash, with what they stand for. -/
def escapes : List (Char × Char) :=
  [('"', '"'), ('\\', '\\'), ('/', '/'), ('b', '\x08'), ('f', '\x0c'), ('n', '\n'), ('r', '\r'),
    ('t', '\t')]

/-- The literal names of values. -/
def keywords {α : Type} : List (String × Value α) :=
  [("true", .bool true), ("false", .bool false), ("null", .null)]

/-- The labels by which the grammar tells apart what it captured. -/
def emptyLabel : String := "empty"

namespace Action

variable {α : Type}

/-- The value of a letter that is a hexadecimal digit, `first` being ten. -/
def hexLetter (first : Char) : Value α → Option (Value α)
  | .text [c] =>
    let a := (CodePoint.ofChar first).val
    if a ≤ c.val ∧ c.val < a + 6 then some (.int (10 + (c.val - a : Nat))) else none
  | _ => none

/-- The number that hexadecimal digits write. -/
def hexNumber? : List (Value α) → Option Nat :=
  List.foldlM (fun n v =>
    match v with
    | .int (.ofNat d) => some (n * 16 + d)
    | _ => none) 0

/-- The code points of one element of a string: itself, or what an escape stands
for. -/
def element? : Value α → Option Text
  | .text t => some t
  | .tuple [_, .text e] =>
    (escapes.find? fun (c, _) => e = [CodePoint.ofChar c]).map fun (_, c) =>
      [CodePoint.ofChar c]
  | .tuple [_, .tuple [_, .tuple digits]] => do
    let n ← hexNumber? digits
    let c ← CodePoint.ofInt? n
    return [c]
  | _ => none

/-- The text that a string denotes. -/
def string? : Value α → Option (Value α)
  | .tuple [_, .list elements, _] => do
    let ts ← elements.mapM element?
    return .text ts.flatten
  | _ => none

/-- The value between the blanks around it. -/
def value? : Value α → Option (Value α)
  | .tuple [_, .captured _ v, _] => some v
  | .tuple [_, .text t, _] => (keywords.find? fun (k, _) => t = Text.ofString k).map (·.2)
  | _ => none

/-- The members of a list with separators. -/
def members? : Value α → Option (List (Value α))
  | .tuple [first, .list rest] => do
    let vs ← rest.mapM fun
      | .tuple [_, v] => some v
      | _ => none
    return first :: vs
  | _ => none

/-- What stands between brackets: nothing, or members. -/
def body? : Value α → Option (List (Value α))
  | .tuple [_, .captured (.text label) v, _] =>
    if label = Text.ofString emptyLabel then some [] else members? v
  | _ => none

/-- The key and the value of a pair. -/
def pair? : Value α → Option (Text × Value α)
  | .tuple [_, .text key, _, _, v] => some (key, v)
  | _ => none

/-- The entries with a key set to a value: a key that is already there keeps its
place. -/
def setEntry (key : Text) (v : Value α) : List (Text × Value α) → List (Text × Value α)
  | [] => [(key, v)]
  | (k, w) :: es => if k = key then (k, v) :: es else (k, w) :: setEntry key v es

/-- The entries of an object: a key that comes again keeps its place and takes the
last value. -/
def entries (pairs : List (Text × Value α)) : List (Text × Value α) :=
  pairs.foldl (fun es (k, v) => setEntry k v es) []

/-- The value that an action makes of a raw result, if it has the right shape. -/
def denote? : Action → Value α → Option (Value α)
  | digit, .text [c] => if c.isDigit then some (.int c.digitValue) else none
  | digit, _ => none
  | lowerHexDigit, v => hexLetter 'a' v
  | upperHexDigit, v => hexLetter 'A' v
  | number, v => (NumberParts.ofRaw? v).map NumberParts.toValue
  | string, v => string? v
  | value, v => value? v
  | array, v => (body? v).map .list
  | object, v => do
    let ms ← body? v
    let ps ← ms.mapM pair?
    return .dict ((entries ps).map fun (k, v) => (.text k, v))

/-- Performs an action. -/
def perform (a : Action) (v : Value α) : ActionResult α :=
  match a.denote? v with
  | some w => .value w
  | none => .raised (.shown .type "unexpected result")

end Action

end Peg.Json
