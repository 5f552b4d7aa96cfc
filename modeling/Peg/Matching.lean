import Peg.Bindings
import Peg.Leaf

/-!
# Matching

A node is matched at a position of a text by ordered choice: an alternative is
tried only after all before it failed, and what matched is not reconsidered later.

Matches nest, and they may nest only as deep as a limit; a match at the limit ends
in the fault `tooDeep`. Every nested match takes one level, and so does an action
that starts a parse of its own. Since the limit goes down with every nested match,
matching is a recursion on it, and a grammar may be as cyclic as it likes.

The limit does not stand in for a check on left recursion. A match carries the
placeholders that it is inside of, each with the position at which it was entered.
To enter one of them again at the same position could only repeat itself for ever,
and is reported as a fault at once.
-/

namespace Peg

variable {α : Type}

/-- What an action makes of the result it is given. -/
inductive ActionResult (α : Type) where
  | value (v : Value α)
  | raised (r : Raised)
  /-- The result of parsing the whole of `text` with `node`. -/
  | parse (node : Node α) (text : Text)

/-- What a grammar needs besides its nodes: the targets of the placeholders, and
the meaning of the actions. -/
structure Context (α : Type) where
  bindings : Bindings α
  perform : α → Value α → ActionResult α

/-- The placeholders that a match is inside of, with the positions they were
entered at. -/
abbrev Active := List (Nat × Int)

/-! ## Composite nodes

Each of these takes the match of a part as an argument. -/

/-- One node after the other. -/
def matchAll (step : Node α → Int → Match α) :
    List (Node α) → Int → Outcome (ParseError α) (List (Value α))
  | [], pos => .success [] pos
  | n :: ns, pos => (step n pos).andThen fun v stop => (matchAll step ns stop).map (v :: ·)

/-- The first of the nodes that does not fail, or all errors in order. -/
def matchFirst (step : Node α → Match α) :
    List (Node α) → Outcome (List (ParseError α)) (Value α)
  | [] => .failure []
  | n :: ns =>
    match step n with
    | .success v stop => .success v stop
    | .failure e => (matchFirst step ns).mapError (e :: ·)
    | .fault f => .fault f

/-- As many matches in a row as there are, each of which consumes something; no
more than `room`. -/
def matchMany (step : Int → Match α) :
    (room : Nat) → Int → Outcome (ParseError α) (List (Value α))
  | 0, pos => .success [] pos
  | room + 1, pos =>
    match step pos with
    | .success v stop =>
      if stop = pos then .success [] pos else (matchMany step room stop).map (v :: ·)
    | .failure _ => .success [] pos
    | .fault f => .fault f

/-! ## Errors of actions -/

/-- What an error raised by an action at `pos` amounts to: a fault of the grammar
stays one, and so does the end of the stack; anything else is a failure. The failure
holds the message of the error, so what is raised while the message is made is handed
on in place of a failure. -/
def settle (pos : Int) (r : Raised) : Match α :=
  if r.kind.isConfig || r.kind = .recursion then .fault (.ofRaised r)
  else
    match r.message with
    | .ok t => .failure (.leaf (.transform r.kind t) pos [])
    | .error cause => .fault (.ofRaised cause)

variable [Named α]

/-- What the end of a parse started by an action at `pos` amounts to. -/
def settleHalt (pos : Int) : Halt α → Match α
  | .fault f => if f.isConfig then .fault f else settle pos f.raised
  | .refused e text => settle pos (e.raised (some text))

/-! ## The match of a node -/

mutual

/-- Matches a node at a position. -/
def matchNode (ctx : Context α) :
    (limit : Nat) → Input → Active → Node α → (pos : Int) → Match α
  | 0, _, _, _, _ => .fault .tooDeep
  | limit + 1, input, active, node, pos =>
    let isBound := ctx.bindings.isBound
    match node with
    | .literal t => matchLiteral input t pos
    | .range low high => matchRange input low high pos
    | .sequence items => (matchAll (matchNode ctx limit input active) items pos).map .tuple
    | .choice alternatives =>
      (matchFirst (matchNode ctx limit input active · pos) alternatives).mapError
        (.exhausted · pos [])
    | .many item =>
      (matchMany (matchNode ctx limit input active item) (input.room pos) pos).map .list
    | .exclusion item forbidden =>
      (matchNode ctx limit input active item pos).andThen fun v stop =>
        match matchNode ctx limit input active forbidden pos with
        | .success .. => failShowing pos (forbidden.describe isBound Node.usualDepth) .excluded
        | .failure _ => .success v stop
        | .fault f => .fault f
    | .capture label item =>
      ((matchNode ctx limit input active item pos).map (.captured label)).mapError
        (·.addLabel label)
    | .placeholder id name =>
      match ctx.bindings.target? id with
      | none =>
        match (Node.placeholder id name).describe isBound 0 with
        | .ok t => .fault (.unresolved t)
        | .error f => .fault f
      | some target =>
        if (id, pos) ∈ active then
          match (Node.placeholder id name).describe isBound 0 with
          | .ok t => .fault (.leftRecursion t pos)
          | .error f => .fault f
        else matchNode ctx limit input ((id, pos) :: active) target pos
    | .action item act =>
      (matchNode ctx limit input active item pos).andThen fun v stop =>
        match ctx.perform act v with
        | .value w => .success w stop
        | .raised r => settle pos r
        | .parse inner text =>
          match parseInside ctx limit inner text with
          | .ok w => .success w stop
          | .error h => settleHalt pos h
    | .empty _ => .success .null pos
    | .bare => .fault (.kindless "Node")
    | .stray value => .fault (.notANode value.subject)
    | .looseLiteral text => matchLooseLiteral isBound input text pos
    | .looseRange low high => matchLooseRange input low high pos

/-- Parses a whole text from inside an action, which takes a level of its own. -/
def parseInside (ctx : Context α) :
    (limit : Nat) → Node α → Text → Except (Halt α) (Value α)
  | 0, _, _ => .error (.fault .tooDeep)
  | limit + 1, node, text => do
    let attempt ← (matchNode ctx limit (Input.ofText text) [] node 0).toAttempt text 0
    attempt.complete text

end

/-! ## Attempts, parses and validation -/

/-- The nesting limit of a run. -/
def defaultLimit : Nat := 1000

/-- Matches a node against a text from a position on; the text need not be consumed
completely. -/
def attempt (ctx : Context α) (limit : Nat) (node : Node α) (text : Text) (pos : Int) :
    Except (Halt α) (Attempt α) :=
  (matchNode ctx limit (Input.ofText text) [] node pos).toAttempt text pos

/-- Parses the whole of a text. -/
def parse (ctx : Context α) (limit : Nat) (node : Node α) (text : Text) :
    Except (Halt α) (Value α) := do
  let answer ← attempt ctx limit node text 0
  answer.complete text

/-- Whether a parse refuses its text. A fault is not an answer, unless it is an error of an
action that has itself the kind of a refusal. -/
def accepts : Except (Halt α) (Value α) → Except (Halt α) Bool
  | .ok _ => .ok true
  | .error (.refused ..) => .ok false
  | .error (.fault f) => if f.kind.isParse then .ok false else .error (.fault f)

/-- Whether a node parses the whole of a text. -/
def validate (ctx : Context α) (limit : Nat) (node : Node α) (text : Text) :
    Except (Halt α) Bool :=
  accepts (parse ctx limit node text)

end Peg
