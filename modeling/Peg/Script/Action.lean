import Peg.Script.Evaluation

/-!
# Performing actions

What the actions of scripts do with the result they are given. An action that cannot
do its work raises an error of the kind that any program would. The expression of an
action is evaluated with the names as they are when the action is performed, so it can
fail then, and give something else the next time.
-/

namespace Peg.Script

namespace Action

/-- How many code points of a text a message about it shows. -/
def shownLength : Nat := 200

/-- The integer that a value is or writes. -/
def toInteger : Result → ActionResult Action
  | .bool b => .value (.int b.toInt)
  | .int i => .value (.int i)
  | .float .nan => .raised (.shown .value "cannot convert float NaN to integer")
  | .float x =>
    match x.truncate? with
    | some i => .value (.int i)
    | none => .raised (.shown .overflow "cannot convert float infinity to integer")
  | .text t =>
    match Numeral.read t with
    | .value i => .value (.int i)
    | .tooLong digits => .raised (.shown .value (Numeral.tooLongMessage digits))
    | .malformed =>
      .raised (.shown .value
        ("invalid literal for int() with base 10: " ++ t.quoted.take shownLength))
  | v =>
    .raised (.shown .type
      ("int() argument must be a string, a bytes-like object or a real number, not '" ++
        v.typeName ++ "'"))

/-- The length of a value. -/
def lengthOf (v : Result) : ActionResult Action :=
  match v.length? with
  | some n => .value (.int n)
  | none => .raised (.shown .type ("object of type '" ++ v.typeName ++ "' has no len()"))

/-- The item at an index; a negative index counts from the end. -/
def itemAt? {β : Type} (items : List β) (index : Int) : Option β :=
  if 0 ≤ index then items[index.toNat]?
  else if 0 ≤ index + items.length then items[(index + items.length).toNat]?
  else none

/-- The item at an index of something of the named sort. -/
def itemAt {β : Type} (sort : String) (items : List β) (index : Int)
    (give : β → Result) : ActionResult Action :=
  if !Fault.isIndex index then .raised Fault.hugeIndex.raised
  else
    match itemAt? items index with
    | some x => .value (give x)
    | none => .raised (.shown .index (sort ++ " index out of range"))

/-- The item of a value at an index. -/
def itemOf (index : Int) : Result → ActionResult Action
  | .text t => itemAt "string" t index fun c => .text [c]
  | .list items => itemAt "list" items index id
  | .tuple items => itemAt "tuple" items index id
  | .dict entries =>
    match Value.entry? (.int index) entries with
    | some v => .value v
    | none => .raised (.ofMessage .key ((describeInt index).mapError Fault.raised))
  | .action .integer => .raised (.shown .type "type 'int' is not subscriptable")
  | v => .raised (.shown .type ("'" ++ v.typeName ++ "' object is not subscriptable"))

/-- Fails with an error of the given kind, or because there can be none. -/
def failWith (kind : Kind) (message : Text) : ActionResult Action :=
  match makeRaised kind message with
  | .ok r => .raised r
  | .error e => .raised e.raised

/-- The value of an expression now, evaluated by itself. -/
def evaluated (scope : Scope) (next : Nat) (e : Expr) (give : Result → Result) :
    ActionResult Action :=
  match (e.eval scope).run next with
  | (.ok o, _) => .value (give o.value)
  | (.error e, _) => .raised e.raised

/-- Performs an action, given what an evaluation looks at and the number of the next
thing that it makes. -/
def perform (scope : Scope) (next : Nat) : Action → Result → ActionResult Action
  | length, v => lengthOf v
  | integer, v => toInteger v
  | item index, v => itemOf index v
  | identity, v => .value v
  | join, v => .value (.text v.flat)
  | const e, _ => evaluated scope next e id
  | tag label, v => evaluated scope next label (.captured · v)
  | fail kind message, _ => failWith kind message
  | failOn t kind message, v => if v.flat = t then failWith kind message else .value v
  | sub name, v =>
    match scope.lookUp name with
    | some o => .parse (.ofValue o.value) v.flat
    | none => .raised (Error.unbound (α := Action) name).raised
  | uncallable typeName, _ =>
    .raised (.shown .type ("'" ++ typeName ++ "' object is not callable"))
  | json a, v => a.perform v
  | calculator a, v => a.perform v

end Action

end Peg.Script
