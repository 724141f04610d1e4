/-!
# Binary operators

The operators of the language, shared by the written expressions and by the values of rules.

## Main definitions

* `BinOp.level`: how tightly an operator binds; zero binds tightest
* `BinOp.spelling`: the operator as it is written
-/

namespace RuleScript

/-- The binary operators. -/
inductive BinOp
  | add
  | sub
  | mul
  | div
  | eq
  | ne
  | lt
  | le
  | gt
  | ge
  | and
  | or
deriving DecidableEq, Inhabited, Repr

namespace BinOp

/-- The operator as it is written. -/
def spelling : BinOp → String
  | add => "+"
  | sub => "-"
  | mul => "*"
  | div => "/"
  | eq => "=="
  | ne => "!="
  | lt => "<"
  | le => "<="
  | gt => ">"
  | ge => ">="
  | and => "&&"
  | or => "||"

/-- The name of the operator in data. -/
def name : BinOp → String
  | add => "Add"
  | sub => "Sub"
  | mul => "Mul"
  | div => "Div"
  | eq => "Eq"
  | ne => "Ne"
  | lt => "Lt"
  | le => "Le"
  | gt => "Gt"
  | ge => "Ge"
  | and => "And"
  | or => "Or"

/-- All operators. -/
def all : List BinOp := [add, sub, mul, div, eq, ne, lt, le, gt, ge, and, or]

/-- The operator of a name. -/
def ofName? (text : String) : Option BinOp := all.find? (·.name = text)

/-- How tightly an operator binds: products bind tightest, disjunctions weakest. -/
def level : BinOp → Nat
  | mul | div => 0
  | add | sub => 1
  | lt | le | gt | ge => 2
  | eq | ne => 3
  | and => 4
  | or => 5

/-- The number of levels. -/
def levels : Nat := 6

theorem level_lt_levels (op : BinOp) : op.level < levels := by
  cases op <;> decide

end BinOp

end RuleScript
