import RuleScript.Rule.Basic

/-!
# Folding constants

Operations on literals are carried out ahead of time, and actions that do nothing are dropped.
Folding goes from the inside out, so what it leaves behind has nothing more to fold.

A division by zero and a result that is not finite are left to the target, and so is the joining of
texts.

## Main definitions

* `Value.fold`, `Action.fold`: folding one value and one action
* `Rule.foldAll`: folding rules
-/

namespace RuleScript

namespace BinOp

/-- The result of an operation on two numbers, if it is carried out ahead of time. -/
def onNumbers? (op : BinOp) (a b : Float) : Option Value :=
  let finite (x : Float) : Option Value := if x.isFinite then some (.ofNumber x) else none
  match op with
  | add => finite (a + b)
  | sub => finite (a - b)
  | mul => finite (a * b)
  -- Negative zero is equal to zero, so a division by it is left alone as well.
  | div => if b == 0.0 then none else finite (a / b)
  | eq => some (.ofBool (a == b))
  | ne => some (.ofBool (a != b))
  | lt => some (.ofBool (a < b))
  | le => some (.ofBool (a ≤ b))
  | gt => some (.ofBool (a > b))
  | ge => some (.ofBool (a ≥ b))
  | and | or => none

/-- The result of an operation on two truth values, if it is carried out ahead of time. -/
def onBooleans? (op : BinOp) (a b : Bool) : Option Value :=
  match op with
  | and => some (.ofBool (a && b))
  | or => some (.ofBool (a || b))
  | eq => some (.ofBool (a == b))
  | ne => some (.ofBool (a != b))
  | _ => none

/-- The result of an operation on two texts, if it is carried out ahead of time. -/
def onTexts? (op : BinOp) (a b : String) : Option Value :=
  match op with
  | eq => some (.ofBool (a == b))
  | ne => some (.ofBool (a != b))
  | _ => none

/-- The result of an operation on two literals, if it is carried out ahead of time. -/
def onLiterals? (op : BinOp) : Value → Value → Option Value
  | .number _ a, .number _ b => op.onNumbers? a b
  | .boolean _ a, .boolean _ b => op.onBooleans? a b
  | .string _ a, .string _ b => op.onTexts? a b
  | _, _ => none

end BinOp

namespace Value

/-- An operation on operands that are folded already. -/
def foldBinary (ty : Ty) (op : BinOp) (lhs rhs : Value) : Value :=
  (op.onLiterals? lhs rhs).getD (.binary ty op lhs rhs)

/-- The negation of an operand that is folded already. -/
def foldNot : Value → Value
  | .boolean _ b => .ofBool (!b)
  | v => v.negate

mutual

/-- Folds a value. -/
def fold : Value → Value
  | binary ty op lhs rhs => foldBinary ty op lhs.fold rhs.fold
  | not _ operand => foldNot operand.fold
  | index ty a i => index ty a.fold i.fold
  | call ty name args => call ty name (foldList args)
  | array ty items => array ty (foldList items)
  | constant ty text => constant ty text
  | read ty slot => read ty slot
  | number ty x => number ty x
  | string ty s => string ty s
  | template ty s => template ty s
  | boolean ty b => boolean ty b

/-- Folds some values. -/
def foldList : List Value → List Value
  | [] => []
  | v :: vs => v.fold :: foldList vs

end

end Value

namespace Action

/-- A block that is folded already; an empty one does nothing. -/
def ofBody : List Action → Action
  | [] => noop
  | body => block body

/-- Puts an action in front of others unless it does nothing. -/
def consUnlessNoop : Action → List Action → List Action
  | noop, as => as
  | a, as => a :: as

mutual

/-- Folds an action. -/
def fold : Action → Action
  | block body => ofBody (foldBody body)
  | branch condition body => branch condition.fold (foldBody body)
  | loop condition body => loop condition.fold (foldBody body)
  | declare slot ty value => declare slot ty value.fold
  | assign slot value => assign slot value.fold
  | assignField object field value => assignField object.fold field value.fold
  | call name args => call name (Value.foldList args)
  | stop => stop
  | next => next
  | noop => noop

/-- Folds a body and drops what does nothing. -/
def foldBody : List Action → List Action
  | [] => []
  | a :: as => consUnlessNoop a.fold (foldBody as)

end

end Action

/-- Folds the actions of a rule. -/
def Rule.fold (r : Rule) : Rule := { r with body := Action.foldBody r.body }

/-- Folds rules. -/
def Rule.foldAll (rules : List Rule) : List Rule := rules.map fold

end RuleScript
