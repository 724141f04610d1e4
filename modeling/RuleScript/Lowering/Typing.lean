import RuleScript.Fault
import RuleScript.Rule.Basic

/-!
# Which values fit together

The rules that say when an operator, an argument or an item of an array has a suitable type. They
look at types only and are the same for every program.

## Main definitions

* `Ty.fits`: whether a value of one type may stand where another is wanted
* `BinOp.resultType`: the type of an operation
* `Value.checkArgument`: whether an argument suits its parameter
-/

namespace RuleScript

/-- Whether a value of type `candidate` may stand where `constraint` is wanted, and what the
generics stand for then. -/
def Ty.fitsWith (bindings : Bindings) (constraint candidate : Ty) (span : Span) :
    Except Error (Bool × Bindings) :=
  match (Solve.satisfies constraint candidate).run bindings with
  | .ok fits bindings => .ok (fits, bindings)
  | .error cause _ => .error ⟨.unsolved cause, span⟩

/-- Whether a value of type `candidate` may stand where `constraint` is wanted. -/
def Ty.fits (constraint candidate : Ty) (span : Span) : Except Error Bool := do
  return (← Ty.fitsWith .empty constraint candidate span).1

namespace BinOp

/-- The type of a sum: numbers add up and texts are joined. -/
def sumType (op : BinOp) (left right : Ty) (span : Span) : Except Error Ty :=
  if left ≠ right then .error ⟨.differingOperands op left right, span⟩
  else if left ≠ .number ∧ left ≠ .string then .error ⟨.unsuitedOperand op left, span⟩
  else .ok left

/-- The type of an operation that takes two operands of one given type and yields that type. -/
def uniformType (op : BinOp) (ty left right : Ty) (span : Span) : Except Error Ty :=
  if left ≠ ty ∨ right ≠ ty then .error ⟨.unsuitedOperands op left right, span⟩ else .ok ty

/-- The type of a comparison: each operand may stand where the other is wanted. -/
def comparisonType (op : BinOp) (left right : Ty) (span : Span) : Except Error Ty := do
  let (forth, bindings) ← Ty.fitsWith .empty left right span
  let (back, _) ← if forth then Ty.fitsWith bindings right left span else pure (false, bindings)
  if back then return .boolean
  throw ⟨.incomparable op left right, span⟩

/-- The type of an operation. -/
def resultType (op : BinOp) (left right : Ty) (span : Span) : Except Error Ty :=
  match op with
  | add => op.sumType left right span
  | sub | mul | div => op.uniformType .number left right span
  | and | or => op.uniformType .boolean left right span
  | eq | ne | lt | le | gt | ge => op.comparisonType left right span

end BinOp

namespace Value

/-- The operation on two operands. -/
def combine (op : BinOp) (lhs rhs : Value) (span : Span) : Except Error Value := do
  return .binary (← op.resultType lhs.ty rhs.ty span) op lhs rhs

/-- The negation of an operand. -/
def negated (operand : Value) (span : Span) : Except Error Value :=
  if operand.ty = .boolean then .ok operand.negate
  else .error ⟨.nonBooleanOperand operand.ty, span⟩

/-- Checks that the items of an array have a type. -/
def checkItems (item : Ty) (span : Span) (bindings : Bindings) : List Value → Except Error Unit
  | [] => .ok ()
  | v :: vs => do
    let (fits, bindings) ← Ty.fitsWith bindings item v.ty span
    if fits then checkItems item span bindings vs
    else throw ⟨.elementMismatch item v.ty, span⟩

/-- The item type of an array: the given one, or that of the first item. -/
def itemType (explicit : Option Ty) (items : List Value) (span : Span) : Except Error Ty :=
  match explicit, items with
  | some ty, _ => .ok ty
  | none, v :: _ => .ok v.ty
  | none, [] => .error ⟨.emptyArray, span⟩

/-- The array of some items. -/
def ofItems (explicit : Option Ty) (items : List Value) (span : Span) : Except Error Value := do
  let item ← itemType explicit items span
  checkItems item span .empty items
  return .array (.array item) items

/-- Checks that an argument suits its parameter, and says what the generics stand for then. -/
def checkArgument (function : String) (index : Nat) (wanted given : Ty) (span : Span)
    (bindings : Bindings) : Except Error Bindings := do
  let (fits, bindings) ← Ty.fitsWith bindings wanted given span
  if fits then return bindings
  throw ⟨.argumentMismatch function index wanted given, span⟩

end Value

end RuleScript
