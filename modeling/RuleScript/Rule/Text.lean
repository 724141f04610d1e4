import RuleScript.Decimal.Layout
import RuleScript.Rule.Basic
import RuleScript.Text.Escape

/-!
# The text of rules

Rules as the target reads them: a header that names the array of variables, and then one paragraph
per rule. Every line is indented by tabs.

## Main definitions

* `Value.text`: the text of a value
* `Action.lines`: the lines of an action
* `Rule.script`: the text of rules
-/

namespace RuleScript

/-- A line of text inside `depth` others. -/
structure Line where
  depth : Nat
  text : String
deriving DecidableEq, Repr

/-- The line with its indent and its end. -/
def Line.render (l : Line) : String :=
  String.ofList (List.replicate l.depth '\t') ++ l.text ++ "\n"

namespace Value

/-- Numbers are written without exponent, and zero without sign. -/
def numberText (x : Float) : String := if x == 0.0 then "0" else Decimal.plain.render x

/-- The text of an operation, given the texts of its operands. -/
def binaryText (ty : Ty) (op : BinOp) (l r : String) : String :=
  match op with
  | .add =>
    if ty = .string then "Custom String(\"\x7b0\x7d\x7b1\x7d\", " ++ l ++ ", " ++ r ++ ")"
    else "Add(" ++ l ++ ", " ++ r ++ ")"
  | .sub => "Subtract(" ++ l ++ ", " ++ r ++ ")"
  | .mul => "Multiply(" ++ l ++ ", " ++ r ++ ")"
  | .div => "Divide(" ++ l ++ ", " ++ r ++ ")"
  | .and => "And(" ++ l ++ ", " ++ r ++ ")"
  | .or => "Or(" ++ l ++ ", " ++ r ++ ")"
  | .eq | .ne | .lt | .le | .gt | .ge => "Compare(" ++ l ++ ", " ++ op.spelling ++ ", " ++ r ++ ")"

/-- The text of a call, given the texts of its arguments: without arguments it is the bare name. -/
def callText (name : String) : List String → String
  | [] => name
  | args => name ++ "(" ++ ", ".intercalate args ++ ")"

/-- The text of an array, given the texts of its items. -/
def arrayText : List String → String
  | [] => "Empty Array"
  | items => callText "Array" items

mutual

/-- The text of a value. -/
def text (store : String) : Value → String
  | binary ty op lhs rhs => binaryText ty op (lhs.text store) (rhs.text store)
  | not _ operand => "Not(" ++ operand.text store ++ ")"
  | index _ a i => "Value In Array(" ++ a.text store ++ ", " ++ i.text store ++ ")"
  | call _ name args => callText name (texts store args)
  | constant _ s => s
  | read _ slot => "Value In Array(Global." ++ store ++ ", " ++ slot.repr ++ ")"
  | number _ x => numberText x
  | string _ s => "Custom String(\"" ++ Text.escape s ++ "\")"
  | template _ s => "\"" ++ Text.escape s ++ "\""
  | boolean _ b => if b then "True" else "False"
  | array _ items => arrayText (texts store items)

/-- The texts of some values. -/
def texts (store : String) : List Value → List String
  | [] => []
  | v :: vs => v.text store :: texts store vs

end

end Value

namespace Action

/-- The line that stores a value in a slot. -/
def storeText (store : String) (slot : Slot) (value : Value) : String :=
  "Set Global Variable At Index(" ++ store ++ ", " ++ slot.repr ++ ", " ++ value.text store
    ++ ");"

mutual

/-- The lines of an action at a depth. -/
def lines (store : String) (depth : Nat) : Action → List Line
  | block body => linesAll store depth body
  | branch condition body =>
    ⟨depth, "If(" ++ condition.text store ++ ");"⟩ :: linesAll store (depth + 1) body
      ++ [⟨depth, "End;"⟩]
  | loop condition body =>
    ⟨depth, "While(" ++ condition.text store ++ ");"⟩ :: linesAll store (depth + 1) body
      ++ [⟨depth, "End;"⟩]
  | declare slot _ value => [⟨depth, storeText store slot value⟩]
  | assign slot value => [⟨depth, storeText store slot value⟩]
  | assignField object field value =>
    [⟨depth, "Set Player Variable(" ++ object.text store ++ ", " ++ field ++ ", "
      ++ value.text store ++ ");"⟩]
  | call name args => [⟨depth, Value.callText name (Value.texts store args) ++ ";"⟩]
  | stop => [⟨depth, "Break;"⟩]
  | next => [⟨depth, "Continue;"⟩]
  | noop => []

/-- The lines of some actions at a depth. -/
def linesAll (store : String) (depth : Nat) : List Action → List Line
  | [] => []
  | a :: as => lines store depth a ++ linesAll store depth as

end

end Action

namespace Rule

/-- The lines of a rule. -/
def lines (store : String) (r : Rule) : List Line :=
  [⟨0, "rule(\"" ++ Text.escape r.name ++ "\") \x7b"⟩,
   ⟨1, "event \x7b"⟩,
   ⟨2, r.trigger ++ ";"⟩,
   ⟨2, "All;"⟩,
   ⟨2, "All;"⟩,
   ⟨1, "\x7d"⟩,
   ⟨1, "actions \x7b"⟩]
  ++ Action.linesAll store 2 r.body
  ++ [⟨1, "\x7d"⟩, ⟨0, "\x7d"⟩]

/-- The lines that declare the array of variables. -/
def header (store : String) : List Line :=
  [⟨0, "variables \x7b"⟩, ⟨1, "global:"⟩, ⟨2, "0: " ++ store⟩, ⟨0, "\x7d"⟩]

/-- The text of lines. -/
def render (lines : List Line) : String := String.join (lines.map Line.render)

/-- The text of rules: the header, and each rule after an empty line. -/
def script (store : String) (rules : List Rule) : String :=
  render (header store) ++ String.join (rules.map fun r => "\n" ++ render (r.lines store))

end Rule

end RuleScript
