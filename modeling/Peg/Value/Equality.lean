import Peg.Value

/-!
# Equality of values

Numbers are equal when they are exactly the same number, whatever their type: an
integer is not rounded before it is compared with a float, and a truth value
counts as zero or one. NaN equals nothing. A list never equals a tuple, and a
captured value equals only captured values. The order of the entries of a
dictionary does not matter. Nodes, actions and grammars are known by their
identity alone, which a value does not show, so here they equal nothing.
-/

namespace Peg

/-- A number as such, without its type. -/
inductive Exact where
  /-- A number of units of 2 ^ -1074. -/
  | units (u : Int)
  | infinite (negative : Bool)
  | nan
  deriving DecidableEq

namespace Exact

/-- Equality of numbers. -/
def same : Exact → Exact → Bool
  | nan, _ => false
  | x, y => x = y

def ofInt (i : Int) : Exact := .units (i * Binary64.unitsInOne)

def ofFloat : Binary64 → Exact
  | .nan => .nan
  | .infinite negative => .infinite negative
  | .finite negative m => .units (if negative then -m.units else m.units)

end Exact

variable {α : Type}

/-- The number that a value is, if it is one. -/
def Value.asNumber? : Value α → Option Exact
  | .bool b => some (.ofInt b.toInt)
  | .int i => some (.ofInt i)
  | .float x => some (.ofFloat x)
  | _ => none

mutual

/-- Equality of values. -/
def Value.same : Value α → Value α → Bool
  | .null, w => match w with
    | .null => true
    | _ => false
  | .text t, w => match w with
    | .text u => t == u
    | _ => false
  | .list vs, w => match w with
    | .list ws => Value.sameAll vs ws
    | _ => false
  | .tuple vs, w => match w with
    | .tuple ws => Value.sameAll vs ws
    | _ => false
  | .dict es, w => match w with
    | .dict fs => es.length == fs.length && Value.sameEntries es fs
    | _ => false
  | .captured l v, w => match w with
    | .captured l' v' => l.same l' && v.same v'
    | _ => false
  | .bool b, w => (w.asNumber?.map (Exact.same (.ofInt b.toInt))).getD false
  | .int i, w => (w.asNumber?.map (Exact.same (.ofInt i))).getD false
  | .float x, w => (w.asNumber?.map (Exact.same (.ofFloat x))).getD false
  | .node _, _ | .action _, _ | .grammar .., _ => false

def Value.sameAll : List (Value α) → List (Value α) → Bool
  | [], ws => ws.isEmpty
  | v :: vs, ws => match ws with
    | [] => false
    | w :: ws => v.same w && Value.sameAll vs ws

/-- Whether every entry of the first list has an equal one in the second. -/
def Value.sameEntries : List (Value α × Value α) → List (Value α × Value α) → Bool
  | [], _ => true
  | (k, v) :: es, fs =>
    (fs.any fun f => k.same f.1 && v.same f.2) && Value.sameEntries es fs

end

/-- The value that the entries give to a key. -/
def Value.entry? (k : Value α) (es : List (Value α × Value α)) : Option (Value α) :=
  (es.find? fun e => k.same e.1).map (·.2)

end Peg
