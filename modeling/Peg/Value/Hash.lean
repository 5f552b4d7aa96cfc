import Peg.Value.Equality

/-!
# Hashes of values

Equal values have equal hashes, and values that can change (lists and
dictionaries, and whatever holds one) have none. A number hashes to its residue
modulo the prime 2 ^ 61 - 1, which is the same for all types of numbers; minus one
is set aside and becomes minus two. The hash of anything else is kept as a key
that shows what it was computed from, so two keys are the same only when the
hashes are certain to be. The empty text hashes to zero like the number. The hash
of a thing with an identity is computed from the identity, whose type is a
parameter.
-/

namespace Peg

/-- What a hash is computed from. -/
inductive HashKey (ι : Type) where
  | null
  | number (n : Int)
  | text (t : Text)
  | tuple (keys : List (HashKey ι))
  | captured (label value : HashKey ι)
  | identity (i : ι)
  /-- The hash of a thing that shares it with no other. -/
  | unique

namespace HashKey

variable {ι : Type}

/-- The prime modulo which numbers are hashed. -/
def modulus : Nat := (1 <<< 61) - 1

/-- A residue with its sign, minus one being set aside. -/
def ofResidue (negative : Bool) (r : Nat) : Int :=
  let n : Int := if negative then -r else r
  if n = -1 then -2 else n

/-- The hash of a number. As 2 ^ 61 is one modulo the prime, a unit of 2 ^ -1074
has the residue 2 ^ 24. -/
def ofExact : Exact → HashKey ι
  | .units u => .number (ofResidue (u < 0) ((u.natAbs <<< 24) % modulus))
  | .infinite negative => .number (if negative then -314159 else 314159)
  | .nan => .unique

mutual

/-- Whether two hashes are the same. -/
def same [DecidableEq ι] : HashKey ι → HashKey ι → Bool
  | .null, .null => true
  | .number n, .number m => n == m
  | .text t, .text u => t == u
  | .tuple ks, .tuple ls => sameAll ks ls
  | .captured k v, .captured l w => k.same l && v.same w
  | .identity i, .identity j => i == j
  | _, _ => false

def sameAll [DecidableEq ι] : List (HashKey ι) → List (HashKey ι) → Bool
  | [], [] => true
  | k :: ks, l :: ls => k.same l && sameAll ks ls
  | _, _ => false

end

end HashKey

variable {α ι : Type}

mutual

/-- The hash of a value, or the name of the type that has none. -/
def Value.hashKey : Value α → Except String (HashKey ι)
  | .null => .ok .null
  | .bool b => .ok (.ofExact (.ofInt b.toInt))
  | .int i => .ok (.ofExact (.ofInt i))
  | .float x => .ok (.ofExact (.ofFloat x))
  | .text t => .ok (if t.isEmpty then .number 0 else .text t)
  | .list _ => .error "list"
  | .dict _ => .error "dict"
  | .tuple vs => do
    let ks ← Value.hashKeys vs
    return .tuple ks
  | .captured l v => do
    let k ← l.hashKey
    let h ← v.hashKey
    return .captured k h
  | .node _ | .action _ | .grammar .. => .ok .unique

def Value.hashKeys : List (Value α) → Except String (List (HashKey ι))
  | [] => .ok []
  | v :: vs => do
    let k ← v.hashKey
    let ks ← Value.hashKeys vs
    return k :: ks

end

end Peg
