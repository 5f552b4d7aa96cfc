import Peg.Builder
import Peg.Grammar
import Peg.Json.Action

/-!
# The JSON grammar

```text
value  = ws ( "true" | "false" | "null" | number | string | object | array ) ws
array  = "[" ( value ("," value)* | ws ) "]"
object = "{" ( pair ("," pair)* | ws ) "}"
pair   = ws string ws ":" value
```

The nodes are given for any type of actions that contains the actions of the
grammar, so that the grammar can be used within a larger one.
-/

namespace Peg.Json

variable {α : Type}

def whitespace : Node α := .many (.literals [" ", "\n", "\r", "\t"])

variable (act : Action → α)

/-- The code points from `low` to `high`. -/
def span (low high : Char) : Node α := .charRange (CodePoint.ofChar low) (CodePoint.ofChar high)

/-! ## Numbers -/

def nonzeroDigit : Node α := .action (span '1' '9') (act .digit)

def digit : Node α := .choice [.action (.literal "0") (act .digit), nonzeroDigit act]

/-- The sign, the integer part, the fraction and the exponent of a number. -/
def number : Node α :=
  .sequence [
    .optional (.literal "-"),
    .choice [.literal "0", .sequence [nonzeroDigit act, .many (digit act)]],
    .optional (.sequence [.literal ".", .oneOrMore (digit act)]),
    .optional (.sequence [
      .literals ["e", "E"],
      .optional (.literals ["+", "-"]),
      .oneOrMore (digit act)])]

def numberValue : Node α := .action (number act) (act .number)

/-! ## Strings -/

def hexDigit : Node α :=
  .choice [digit act, .action (span 'a' 'f') (act .lowerHexDigit),
    .action (span 'A' 'F') (act .upperHexDigit)]

/-- A code point that stands for itself in a string. -/
def plain : Node α :=
  .exclusion (.charRange CodePoint.space (Fin.last _)) (.literals ["\"", "\\"])

/-- The texts of the escapes of one code point. -/
def escapeTexts : List Text := escapes.map fun (c, _) => [CodePoint.ofChar c]

/-- A backslash and what it escapes. -/
def escape : Node α :=
  .sequence [
    .literal "\\",
    .choice [.literals escapeTexts, .sequence [.literal "u", (hexDigit act).exactly 4]]]

def string : Node α :=
  .sequence [.literal "\"", .many (.choice [plain, escape act]), .literal "\""]

def stringValue : Node α := .action (string act) (act .string)

/-! ## Values -/

def valueId : Nat := 0
def arrayId : Nat := 1
def objectId : Nat := 2

def valueRef : Node α := .placeholder valueId (.text "value")
def arrayRef : Node α := .placeholder arrayId (.text "array")
def objectRef : Node α := .placeholder objectId (.text "object")

def value : Node α :=
  .action
    (.sequence [
      whitespace,
      .choice [
        .literals ["true", "false", "null"],
        .capture (.text "number") (numberValue act),
        .capture (.text "string") (stringValue act),
        .capture (.text "object") objectRef,
        .capture (.text "array") arrayRef],
      whitespace])
    (act .value)

def array : Node α :=
  .action
    (.sequence [
      .literal "[",
      .choice [
        .capture (.text "items") (valueRef.alternating (.literal ",")),
        .capture (.text emptyLabel) whitespace],
      .literal "]"])
    (act .array)

def pair : Node α :=
  .sequence [whitespace, stringValue act, whitespace, .literal ":", valueRef]

def object : Node α :=
  .action
    (.sequence [
      .literal "\x7b",
      .choice [
        .capture (.text "pairs") ((pair act).alternating (.literal ",")),
        .capture (.text emptyLabel) whitespace],
      .literal "\x7d"])
    (act .object)

/-- The rules of the grammar that can be used on their own. -/
inductive Rule where
  | whitespace
  | nonzeroDigit
  | digit
  | number
  | numberValue
  | hexDigit
  | string
  | stringValue
  | valueRef
  | arrayRef
  | objectRef
  | value
  | array
  | pair
  | object
  deriving DecidableEq, Repr

/-- The node of a rule. -/
def Rule.node : Rule → Node α
  | .whitespace => Json.whitespace
  | .nonzeroDigit => Json.nonzeroDigit act
  | .digit => Json.digit act
  | .number => Json.number act
  | .numberValue => Json.numberValue act
  | .hexDigit => Json.hexDigit act
  | .string => Json.string act
  | .stringValue => Json.stringValue act
  | .valueRef => Json.valueRef
  | .arrayRef => Json.arrayRef
  | .objectRef => Json.objectRef
  | .value => Json.value act
  | .array => Json.array act
  | .pair => Json.pair act
  | .object => Json.object act

/-- The targets of the placeholders of the grammar, together with others. -/
def bindInto (b : Bindings α) : Bindings α :=
  ((b.bind valueId (value act)).bind arrayId (array act)).bind objectId (object act)

/-! ## Reading a JSON text -/

/-- The grammar on its own. -/
def context : Context Action where
  bindings := bindInto id .empty
  perform := Action.perform

def grammar {α : Type} : Grammar α := ⟨valueRef, .text "json"⟩

/-- The value that a JSON text denotes. The argument has to be a text. -/
def loads {β : Type} [Named β] (text : Value β) :
    List (Event Action) × Except (Error Action) (Value Action) :=
  grammar.parse context defaultLimit text

end Peg.Json
