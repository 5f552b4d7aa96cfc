import Peg.Script.Action

/-!
# Scripts

A script is a list of steps that build grammars and run them. Its steps share the
state of a session: what names stand for, which placeholder a name can resolve, and
the targets of the placeholders. A step gives an answer or an error, and reports
events; a step that fails gives no name a meaning, and the script goes on.

Names stand for what they were given last. Nodes built earlier do not notice, since
they hold nodes and not names.
-/

namespace Peg.Script

/-- The state between two steps. -/
structure Session where
  /-- What the names stand for, the last one given first. -/
  names : List (Text × Object)
  /-- The placeholders that can be resolved by name: number and name of each. -/
  resolvers : List (Text × (Nat × Result))
  bindings : Bindings Action
  nextNumber : Nat

/-- A step of a script. -/
inductive Step where
  | define (name : Text) (value : Expr)
  /-- Makes a placeholder, and gives the name both to it and to its resolver. -/
  | declare (name : Text) (label : Expr)
  | resolve (name : Text) (target : Expr)
  | parse (node text : Expr)
  | validate (node text : Expr)
  | attempt (node text : Expr) (pos : Int)
  | grammar (name : Text) (start label : Expr)
  | grammarParse (name : Text) (text : Expr)
  | grammarValidate (name : Text) (text : Expr)
  | describe (node : Expr) (depth : Int)
  | shape (node : Expr)
  /-- Tries to change a part of a node or a captured value. -/
  | change (subject : Expr) (part : Text) (value : Expr)

/-- The answer of a step that does not fail. -/
inductive Answer where
  | value (v : Result)
  | verdict (accepted : Bool)
  | matched (v : Result) (consumed : Int)
  | failed (error : ParseError Action) (text : Text)
  | resolved
  | grammar (shown : Text) (name : Result)
  | text (t : Text)
  | shape (n : Node Action)

namespace Session

/-- A session in which nothing has a name, and the example grammars can be used. -/
def initial : Session where
  names := []
  resolvers := []
  bindings := Calculator.bindInto .calculator (Json.bindInto .json .empty)
  nextNumber := 5

/-- The object that a name stands for. -/
def lookUp (s : Session) (name : Text) : Option Object := s.names.lookup name

def scope (s : Session) : Scope := ⟨s.lookUp, s.bindings.isBound⟩

/-- What matching needs to know of a session. -/
def context (s : Session) : Context Action :=
  ⟨s.bindings, Action.perform s.scope s.nextNumber⟩

def give (s : Session) (name : Text) (o : Object) : Session :=
  { s with names := (name, o) :: s.names }

/-- What a step leads to: the next session, the events, and an answer or an error. -/
abbrev Progress := Session × List (Event Action) × Except (Error Action) Answer

/-- Evaluates expressions, then goes on with their value or ends with their error. -/
def evaluating {β : Type} (s : Session) (e : Eval β) (next : Session → β → Progress) :
    Progress :=
  match e.run s.nextNumber with
  | (.ok b, n) => next { s with nextNumber := n } b
  | (.error e, n) => ({ s with nextNumber := n }, [], .error e)

/-- A value as a text to match. -/
def textOf : Result → Except (Error Action) Text
  | .text t => .ok t
  | v => .error (.notText v.shortTypeName)

/-- A value as a text whose lines are counted. -/
def linesOf : Result → Except (Error Action) Text
  | .text t => .ok t
  | .list _ => .error (.badCall "list.count() takes exactly one argument (3 given)")
  | .tuple _ => .error (.badCall "tuple.count() takes exactly one argument (3 given)")
  | v => .error (.noPart v.subject "count")

/-- The value of an expression. -/
def valueOf (s : Session) (e : Expr) : Eval Result := do
  let o ← e.eval s.scope
  return o.value

/-- The values of two expressions. -/
def both (s : Session) (e f : Expr) : Eval (Result × Result) := do
  let v ← s.valueOf e
  let w ← s.valueOf f
  return (v, w)

/-- The answer of an attempt. -/
def attempt (s : Session) (node text : Result) (pos : Int) :
    Except (Error Action) Answer := do
  let t ← textOf text
  let a ← (Peg.attempt s.context defaultLimit (.ofValue node) t pos).mapError .ofHalt
  match a with
  | .matched v consumed => return .matched v consumed
  | .failed e => return .failed e t

/-- The answer of a parse. -/
def parse (s : Session) (node text : Result) : Except (Error Action) Answer := do
  let t ← textOf text
  let v ← (Peg.parse s.context defaultLimit (.ofValue node) t).mapError .ofHalt
  return .value v

/-- The answer of a validation. -/
def validate (s : Session) (node text : Result) : Except (Error Action) Answer := do
  let t ← textOf text
  let accepted ← (Peg.validate s.context defaultLimit (.ofValue node) t).mapError .ofHalt
  return .verdict accepted

/-- The error of changing a part of a value: what is built or matched never changes. -/
def changeError (part : Text) : Result → Error Action
  | .node n => .immutableNode n.typeName
  | .captured .. => .immutableResult
  | .action .integer =>
    .badCall ("cannot set '" ++ part ++ "' attribute of immutable type 'int'")
  | v => .noPart v.subject part

/-- Goes on with the grammar that a name stands for. Anything else has no such
operation. -/
def withGrammar (s : Session) (name : Text) (operation : String)
    (next : Grammar Action → Progress) : Progress :=
  match s.lookUp name with
  | none => (s, [], .error (.unbound name))
  | some o =>
    match o.value with
    | .grammar start title => next ⟨start, title⟩
    | v => (s, [], .error (.noPart v.subject operation))

/-- Runs one step. -/
def step (s : Session) : Step → Progress
  | .define name value =>
    s.evaluating (value.eval s.scope) fun s o => (s.give name o, [], .ok (.value o.value))
  | .declare name label =>
    s.evaluating (s.valueOf label) fun s v =>
      let id := s.nextNumber
      let node : Result := .node (.placeholder id v)
      ({ s.give name (.thing (.made id) node) with
          resolvers := (name, (id, v)) :: s.resolvers
          nextNumber := id + 1 },
        [], .ok (.value node))
  | .resolve name target =>
    match s.resolvers.lookup name with
    | none => (s, [], .error (.unbound name))
    | some (id, label) =>
      s.evaluating (s.valueOf target) fun s v =>
        let (bindings, event) := Peg.resolve s.bindings id label v
        let s := { s with bindings }
        match event with
        | .ok event => (s, [event], .ok .resolved)
        | .error e => (s, [], .error e)
  | .parse node text => s.evaluating (s.both node text) fun s (n, t) => (s, [], s.parse n t)
  | .validate node text =>
    s.evaluating (s.both node text) fun s (n, t) => (s, [], s.validate n t)
  | .attempt node text pos =>
    s.evaluating (s.both node text) fun s (n, t) => (s, [], s.attempt n t pos)
  | .grammar name start label =>
    s.evaluating (s.both start label) fun s (n, l) =>
      match Grammar.ofValues s.bindings.isBound n l with
      | .error e => (s, [], .error e)
      | .ok g =>
        s.evaluating (newThing g.toValue) fun s o =>
          let answer := (g.toValue.render s.bindings.isBound).map (Answer.grammar · g.name)
          (s.give name o, [], answer.mapError .fault)
  | .grammarParse name text =>
    s.withGrammar name "parse" fun g =>
      s.evaluating (s.valueOf text) fun s t =>
        let (events, answer) := g.parse s.context defaultLimit t
        (s, events, answer.map .value)
  | .grammarValidate name text =>
    s.withGrammar name "validate" fun g =>
      s.evaluating (s.valueOf text) fun s t =>
        let (events, answer) := g.validate s.context defaultLimit t
        (s, events, answer.map .verdict)
  | .describe node depth =>
    s.evaluating (s.valueOf node) fun s v =>
      let shown := (Node.ofValue v).describe s.bindings.isBound depth
      (s, [], (shown.map .text).mapError .fault)
  | .shape node =>
    s.evaluating (s.valueOf node) fun s v => (s, [], .ok (.shape (.ofValue v)))
  | .change subject part value =>
    s.evaluating (s.both subject value) fun s (v, _) => (s, [], .error (changeError part v))

/-- Runs one step while somebody reads the reports of its events. An event that cannot
be reported ends the step. -/
def observedStep (s : Session) (st : Step) :
    Session × List Event.Report × Except (Error Action) Answer :=
  let (s, events, answer) := s.step st
  match Event.reports s.bindings.isBound events with
  | (reports, none) => (s, reports, answer)
  | (reports, some f) => (s, reports, .error (.fault f))

end Session

end Peg.Script
