import RuleScript.Rule.Basic
import RuleScript.Ty.Json

/-!
# Rules as data

The JSON form of rules. A value is an object with its type and its kind.
-/

namespace RuleScript

/-- A value: its type and what it is. -/
def Json.typed (ty : Ty) (kind : Json) : Json := .obj [("ty", ty.toJson), ("kind", kind)]

namespace Value

mutual

/-- The JSON form of a value. -/
def toJson : Value → Json
  | binary ty op lhs rhs =>
    .typed ty (.tagged "Binary" (.obj [("op", .str op.name), ("lhs", lhs.toJson),
      ("rhs", rhs.toJson)]))
  | not ty operand => .typed ty (.tagged "Not" operand.toJson)
  | index ty a i => .typed ty (.tagged "Index" (.obj [("array", a.toJson), ("index", i.toJson)]))
  | call ty name args =>
    .typed ty (.tagged "Call" (.obj [("name", .str name), ("args", .arr (toJsonList args))]))
  | constant ty text => .typed ty (.tagged "Constant" (.str text))
  | read ty slot => .typed ty (.tagged "Variable" (.nat slot))
  | number ty x => .typed ty (.tagged "Number" (.number x))
  | string ty s => .typed ty (.tagged "String" (.str s))
  | template ty s => .typed ty (.tagged "Template" (.str s))
  | boolean ty b => .typed ty (.tagged "Boolean" (.bool b))
  | array ty items => .typed ty (.tagged "Array" (.arr (toJsonList items)))

/-- The JSON forms of some values. -/
def toJsonList : List Value → List Json
  | [] => []
  | v :: vs => v.toJson :: toJsonList vs

end

end Value

namespace Action

mutual

/-- The JSON form of an action. -/
def toJson : Action → Json
  | block body => .tagged "Block" (.arr (toJsonList body))
  | branch condition body =>
    .tagged "If" (.obj [("condition", condition.toJson), ("body", .arr (toJsonList body))])
  | loop condition body =>
    .tagged "While" (.obj [("condition", condition.toJson), ("body", .arr (toJsonList body))])
  | declare slot ty value =>
    .tagged "Let" (.obj [("slot", .nat slot), ("ty", ty.toJson), ("value", value.toJson)])
  | assign slot value => .tagged "Assign" (.obj [("slot", .nat slot), ("value", value.toJson)])
  | assignField object field value =>
    .tagged "IndexAssign" (.obj [("object", object.toJson), ("field", .str field),
      ("value", value.toJson)])
  | call name args =>
    .tagged "Call" (.obj [("name", .str name), ("args", .arr (Value.toJsonList args))])
  | stop => .str "Break"
  | next => .str "Continue"
  | noop => .str "Noop"

/-- The JSON forms of some actions. -/
def toJsonList : List Action → List Json
  | [] => []
  | a :: as => a.toJson :: toJsonList as

end

end Action

/-- The JSON form of a rule. -/
def Rule.toJson (r : Rule) : Json :=
  .obj [("name", .str r.name), ("trigger", .str r.trigger),
    ("body", .arr (Action.toJsonList r.body))]

/-- The JSON form of some rules. -/
def Rule.toJsonList (rules : List Rule) : Json := .arr (rules.map toJson)

end RuleScript
