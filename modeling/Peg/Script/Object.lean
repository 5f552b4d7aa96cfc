import Peg.Script.Expr
import Peg.Value.Hash

/-!
# Objects

A value says what a thing looks like. A script can also tell which thing it is: a
name stands for the same thing each time it is used, while an expression that is
evaluated twice makes two things that look alike. The difference shows where things
are compared. Nodes, actions and grammars are equal only to themselves, and NaN is not
even that, but what is in a list, or a key of a dictionary, also counts as found when
it is one and the same thing.

An *object* is a value with the identities that matter: those of the things that a
value alone does not tell from others like it, and those of captured values that hold
such things. All other values are *plain*: what looks like them is equal to them.
-/

namespace Peg.Script

/-- What tells a thing from all others. -/
inductive Identity where
  | rule (r : ExampleRule)
  /-- The empty node that all optional parts share. -/
  | nothing
  /-- The function that gives lengths, which every program has. -/
  | length
  /-- The type of integers, which every program has. -/
  | integer
  /-- Anything that an evaluation made, by its number. -/
  | made (n : Nat)
  deriving DecidableEq

/-- A value with the identities in it. -/
inductive Object where
  /-- A value without parts that have an identity. -/
  | plain (v : Result)
  /-- A node, an action, a grammar or NaN. -/
  | thing (id : Identity) (v : Result)
  | list (items : List Object)
  | tuple (items : List Object)
  | dict (entries : List (Object × Object))
  | captured (id : Identity) (label value : Object)

namespace Object

mutual

/-- The value of an object. -/
def value : Object → Result
  | plain v => v
  | thing _ v => v
  | list items => .list (values items)
  | tuple items => .tuple (values items)
  | dict es => .dict (entryValues es)
  | captured _ l v => .captured l.value v.value

def values : List Object → List Result
  | [] => []
  | o :: os => o.value :: values os

def entryValues : List (Object × Object) → List (Result × Result)
  | [] => []
  | (k, o) :: es => (k.value, o.value) :: entryValues es

end

def isPlain : Object → Bool
  | plain _ => true
  | _ => false

/-! ## Making objects -/

def ofList (items : List Object) : Object :=
  if items.all isPlain then plain (.list (values items)) else list items

def ofTuple (items : List Object) : Object :=
  if items.all isPlain then plain (.tuple (values items)) else tuple items

def ofEntries (es : List (Object × Object)) : Object :=
  if es.all fun (k, o) => k.isPlain && o.isPlain then plain (.dict (entryValues es))
  else dict es

def ofCaptured (id : Identity) (label value : Object) : Object :=
  if label.isPlain && value.isPlain then plain (.captured label.value value.value)
  else captured id label value

theorem value_ofList (items : List Object) : (ofList items).value = .list (values items) := by
  unfold ofList
  split <;> rfl

theorem value_ofTuple (items : List Object) :
    (ofTuple items).value = .tuple (values items) := by
  unfold ofTuple
  split <;> rfl

theorem value_ofEntries (es : List (Object × Object)) :
    (ofEntries es).value = .dict (entryValues es) := by
  unfold ofEntries
  split <;> rfl

theorem value_ofCaptured (id : Identity) (label o : Object) :
    (ofCaptured id label o).value = .captured label.value o.value := by
  unfold ofCaptured
  split <;> rfl

/-! ## Comparing objects -/

/-- Whether two objects are one and the same, as far as that makes a difference. -/
def identical : Object → Object → Bool
  | thing i _, thing j _ | captured i .., captured j .. => i == j
  | _, _ => false

mutual

/-- Equality of objects. -/
def same : Object → Object → Bool
  | plain v, p => match p with
    | plain w => v.same w
    | _ => false
  | thing i v, p => match v, p with
    | .float _, _ => false
    | _, thing j _ => i == j
    | _, _ => false
  | list os, p => match p with
    | list ps => foundAll os ps
    | _ => false
  | tuple os, p => match p with
    | tuple ps => foundAll os ps
    | _ => false
  | dict es, p => match p with
    | dict fs => es.length == fs.length && foundEntries es fs
    | _ => false
  | captured _ l o, p => match p with
    | captured _ l' o' => l.same l' && o.same o'
    | _ => false

/-- Whether objects are identical or equal, one by one. -/
def foundAll : List Object → List Object → Bool
  | [], ps => ps.isEmpty
  | o :: os, ps => match ps with
    | [] => false
    | p :: ps => (o.identical p || o.same p) && foundAll os ps

/-- Whether every entry of the first list has one in the second whose key and value
are identical or equal to its own. -/
def foundEntries : List (Object × Object) → List (Object × Object) → Bool
  | [], _ => true
  | (k, o) :: es, fs =>
    (fs.any fun f =>
      (k.identical f.1 || k.same f.1) && (o.identical f.2 || o.same f.2)) &&
      foundEntries es fs

end

/-- Whether an object counts as another among the keys of a dictionary. -/
def found (o p : Object) : Bool := o.identical p || o.same p

/-! ## Hashes -/

mutual

/-- The hash of an object, or the name of the type that has none. -/
def hashKey : Object → Except String (HashKey Identity)
  | plain v => v.hashKey
  | thing id _ => .ok (.identity id)
  | list _ => .error "list"
  | dict _ => .error "dict"
  | tuple os => do
    let ks ← hashKeys os
    return .tuple ks
  | captured _ l o => do
    let k ← l.hashKey
    let h ← o.hashKey
    return .captured k h

def hashKeys : List Object → Except String (List (HashKey Identity))
  | [] => .ok []
  | o :: os => do
    let k ← o.hashKey
    let ks ← hashKeys os
    return k :: ks

end

/-- Whether two objects have the same hash, or the name of a type that has none. -/
def sameHash (o p : Object) : Except String Bool := do
  let k ← o.hashKey
  let l ← p.hashKey
  return k.same l

/-- Entries with a key set to a value: a key that is already there keeps its place. -/
def setEntry (k o : Object) : List (Object × Object) → List (Object × Object)
  | [] => [(k, o)]
  | (k', o') :: es => if k.found k' then (k', o) :: es else (k', o') :: setEntry k o es

end Object

end Peg.Script
