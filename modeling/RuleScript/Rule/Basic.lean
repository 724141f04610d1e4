import RuleScript.Operator
import RuleScript.Ty.Basic

/-!
# Rules

What a program is lowered to. A rule waits for a trigger and then performs actions on values. All
variables of all rules live in one array, and a slot is a place in it.

## Main definitions

* `Value`: the values, each with its type
* `Action`: the actions
* `Rule`: a trigger and the actions it sets off
* `Action.total`: how many actions a body holds, those inside others included
* `Rule.alike`: equality of rules by the values of their numbers
-/

namespace RuleScript

/-- A place in the array of variables. -/
abbrev Slot := Nat

/-- A value of the target with the type the language gives it. -/
inductive Value
  | binary (ty : Ty) (op : BinOp) (lhs rhs : Value)
  | not (ty : Ty) (operand : Value)
  | index (ty : Ty) (array index : Value)
  /-- A call of a target value by its target name. -/
  | call (ty : Ty) (name : String) (args : List Value)
  /-- Text of the target that stands for itself. -/
  | constant (ty : Ty) (text : String)
  | read (ty : Ty) (slot : Slot)
  | number (ty : Ty) (value : Float)
  | string (ty : Ty) (value : String)
  /-- The format of a text with places for other values in it. -/
  | template (ty : Ty) (value : String)
  | boolean (ty : Ty) (value : Bool)
  | array (ty : Ty) (items : List Value)

instance : Inhabited Value := ⟨.boolean .boolean false⟩

namespace Value

/-- The type of a value. -/
def ty : Value → Ty
  | binary ty _ _ _ | not ty _ | index ty _ _ | call ty _ _ | constant ty _ | read ty _
  | number ty _ | string ty _ | template ty _ | boolean ty _ | array ty _ => ty

/-- A number literal. -/
def ofNumber (x : Float) : Value := number .number x

/-- A truth value literal. -/
def ofBool (b : Bool) : Value := boolean .boolean b

/-- A text literal. -/
def ofText (s : String) : Value := string .string s

/-- The negation of a truth value. -/
def negate (v : Value) : Value := not .boolean v

/-- Whether the value is a number, text or truth value literal. -/
def isLiteral : Value → Bool
  | number _ _ | string _ _ | boolean _ _ => true
  | _ => false

end Value

/-- An action of the target. -/
inductive Action
  | block (body : List Action)
  | branch (condition : Value) (body : List Action)
  | loop (condition : Value) (body : List Action)
  /-- The first value of a variable. -/
  | declare (slot : Slot) (ty : Ty) (value : Value)
  | assign (slot : Slot) (value : Value)
  | assignField (object : Value) (field : String) (value : Value)
  /-- A call of a target action by its target name. -/
  | call (name : String) (args : List Value)
  | stop
  | next
  | noop
deriving Inhabited

namespace Action

mutual

/-- The number of actions in an action, itself included. -/
def count : Action → Nat
  | block body => 1 + total body
  | branch _ body => 1 + total body
  | loop _ body => 1 + total body
  | declare _ _ _ | assign _ _ | assignField _ _ _ | call _ _ | stop | next | noop => 1

/-- The number of actions in a body, those inside others included. -/
def total : List Action → Nat
  | [] => 0
  | a :: as => count a + total as

end

end Action

/-- The actions that a trigger sets off. -/
structure Rule where
  name : String
  trigger : String
  body : List Action

/-! ## Equality by value

Numbers are compared as numbers: the two zeros are alike, and a number that is none is not like
itself. -/

namespace Value

mutual

/-- Equality of values. -/
def alike : Value → Value → Bool
  | binary t op l r, binary t' op' l' r' => t = t' && op = op' && alike l l' && alike r r'
  | not t v, not t' v' => t = t' && alike v v'
  | index t a i, index t' a' i' => t = t' && alike a a' && alike i i'
  | call t n args, call t' n' args' => t = t' && n == n' && alikeList args args'
  | constant t s, constant t' s' => t = t' && s == s'
  | read t n, read t' n' => t = t' && n == n'
  | number t x, number t' x' => t = t' && x == x'
  | string t s, string t' s' => t = t' && s == s'
  | template t s, template t' s' => t = t' && s == s'
  | boolean t b, boolean t' b' => t = t' && b == b'
  | array t vs, array t' vs' => t = t' && alikeList vs vs'
  | _, _ => false

/-- Equality of lists of values. -/
def alikeList : List Value → List Value → Bool
  | [], [] => true
  | v :: vs, w :: ws => alike v w && alikeList vs ws
  | _, _ => false

end

end Value

namespace Action

mutual

/-- Equality of actions. -/
def alike : Action → Action → Bool
  | block b, block b' => alikeList b b'
  | branch c b, branch c' b' => c.alike c' && alikeList b b'
  | loop c b, loop c' b' => c.alike c' && alikeList b b'
  | declare s t v, declare s' t' v' => s == s' && t = t' && v.alike v'
  | assign s v, assign s' v' => s == s' && v.alike v'
  | assignField o f v, assignField o' f' v' => o.alike o' && f == f' && v.alike v'
  | call n args, call n' args' => n == n' && Value.alikeList args args'
  | stop, stop => true
  | next, next => true
  | noop, noop => true
  | _, _ => false

/-- Equality of bodies. -/
def alikeList : List Action → List Action → Bool
  | [], [] => true
  | a :: as, b :: bs => alike a b && alikeList as bs
  | _, _ => false

end

end Action

/-- Equality of rules. -/
def Rule.alike (r s : Rule) : Bool :=
  r.name == s.name && r.trigger == s.trigger && Action.alikeList r.body s.body

/-- Equality of lists of rules. -/
def Rule.alikeList : List Rule → List Rule → Bool
  | [], [] => true
  | r :: rs, s :: ss => r.alike s && alikeList rs ss
  | _, _ => false

end RuleScript
