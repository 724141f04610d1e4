import RuleScript.Json
import RuleScript.Syntax.Basic

/-!
# Syntax trees as data

The JSON form of a program. A node is an object with its kind and its span.
-/

namespace RuleScript

/-- The JSON form of a span. -/
def Span.toJson (s : Span) : Json := .obj [("start", .nat s.start), ("end", .nat s.stop)]

/-- A node: what it is and where it stands. -/
def Json.node (kind : Json) (span : Span) : Json := .obj [("kind", kind), ("span", span.toJson)]

namespace TypeExpr

mutual

/-- The JSON form of an annotation. -/
def toJson : TypeExpr → Json
  | named span name => .node (.tagged "Named" (.str name)) span
  | array span item => .node (.tagged "Array" item.toJson) span
  | function span params ret =>
    .node (.tagged "Function" (.obj [("params", .arr (toJsonList params)),
      ("ret", toJsonOption ret)])) span
  | variadic span inner => .node (.tagged "Variadic" inner.toJson) span
  | union span members => .node (.tagged "Union" (.arr (toJsonList members))) span

/-- The JSON forms of some annotations. -/
def toJsonList : List TypeExpr → List Json
  | [] => []
  | t :: ts => t.toJson :: toJsonList ts

/-- The JSON form of an annotation that may be missing. -/
def toJsonOption : Option TypeExpr → Json
  | none => .null
  | some t => t.toJson

end

end TypeExpr

namespace Expr

mutual

/-- The JSON form of an expression. -/
def toJson : Expr → Json
  | number span x => .node (.tagged "Number" (.number x)) span
  | string span s => .node (.tagged "String" (.str s)) span
  | boolean span b => .node (.tagged "Boolean" (.bool b)) span
  | ident span name => .node (.tagged "Ident" (.str name)) span
  | array span item items =>
    .node (.tagged "Array" (.obj [("item", TypeExpr.toJsonOption item),
      ("items", .arr (toJsonList items))])) span
  | binary span op left right =>
    .node (.tagged "Binary" (.obj [("op", .str op.name), ("left", left.toJson),
      ("right", right.toJson)])) span
  | not span operand => .node (.tagged "Not" operand.toJson) span
  | typeOf span operand => .node (.tagged "TypeOf" operand.toJson) span
  | index span object i =>
    .node (.tagged "Index" (.obj [("object", object.toJson), ("index", i.toJson)])) span
  | call span name args =>
    .node (.tagged "Call" (.obj [("name", .str name), ("args", .arr (toJsonList args))])) span

/-- The JSON forms of some expressions. -/
def toJsonList : List Expr → List Json
  | [] => []
  | e :: es => e.toJson :: toJsonList es

end

/-- The JSON form of an expression that may be missing. -/
def toJsonOption (e : Option Expr) : Json := .ofOption (e.map toJson)

end Expr

namespace Stmt

mutual

/-- The JSON form of a statement. -/
def toJson : Stmt → Json
  | block span body => .node (.tagged "Block" (.arr (toJsonList body))) span
  | declare span name ty value constant =>
    .node (.tagged "Let" (.obj [("name", .str name), ("ty", TypeExpr.toJsonOption ty),
      ("value", Expr.toJsonOption value), ("constant", .bool constant)])) span
  | assign span name value =>
    .node (.tagged "Assign" (.obj [("name", .str name), ("value", value.toJson)])) span
  | assignField span object field value =>
    .node (.tagged "IndexAssign" (.obj [("object", object.toJson), ("field", .str field),
      ("value", value.toJson)])) span
  | branch span condition body otherwise =>
    .node (.tagged "If" (.obj [("condition", condition.toJson), ("body", .arr (toJsonList body)),
      ("else_body", toJsonOption otherwise)])) span
  | loop span condition body =>
    .node (.tagged "While" (.obj [("condition", condition.toJson),
      ("body", .arr (toJsonList body))])) span
  | count span marker first limit body =>
    .node (.tagged "For" (.obj [("marker", .str marker), ("start", first.toJson),
      ("end", limit.toJson), ("body", .arr (toJsonList body))])) span
  | ret span value => .node (.tagged "Return" (Expr.toJsonOption value)) span
  | stop span => .node (.str "Break") span
  | next span => .node (.str "Continue") span
  | call span name args =>
    .node (.tagged "Call" (.obj [("name", .str name),
      ("args", .arr (Expr.toJsonList args))])) span

/-- The JSON forms of some statements. -/
def toJsonList : List Stmt → List Json
  | [] => []
  | s :: ss => s.toJson :: toJsonList ss

/-- The JSON form of a body that may be missing. -/
def toJsonOption : Option (List Stmt) → Json
  | none => .null
  | some body => .arr (toJsonList body)

end

end Stmt

/-- The JSON form of a generic. -/
def GenericParam.toJson (g : GenericParam) : Json :=
  .obj [("name", .str g.name), ("bound", TypeExpr.toJsonOption g.bound), ("span", g.span.toJson)]

/-- The JSON form of a parameter. -/
def Param.toJson (p : Param) : Json :=
  .obj [("name", .str p.name), ("ty", p.ty.toJson), ("span", p.span.toJson)]

/-- The JSON form of a function declaration. -/
def FunctionDecl.toJson (d : FunctionDecl) : Json :=
  .obj [("name", .str d.name), ("generics", .arr (d.generics.map GenericParam.toJson)),
    ("params", .arr (d.params.map Param.toJson)), ("ret", TypeExpr.toJsonOption d.ret),
    ("body", .arr (Stmt.toJsonList d.body)), ("span", d.span.toJson)]

/-- The JSON form of an event declaration. -/
def EventDecl.toJson (d : EventDecl) : Json :=
  .obj [("name", .str d.name), ("args", .arr (d.args.map .str)),
    ("body", .arr (Stmt.toJsonList d.body)), ("span", d.span.toJson)]

/-- The JSON form of an alias declaration. -/
def AliasDecl.toJson (d : AliasDecl) : Json :=
  .obj [("name", .str d.name), ("ty", d.ty.toJson), ("span", d.span.toJson)]

/-- The JSON form of a declaration. -/
def Item.toJson : Item → Json
  | function d => .tagged "Function" d.toJson
  | event d => .tagged "Event" d.toJson
  | typeAlias d => .tagged "Type" d.toJson

/-- The JSON form of a program. -/
def Program.toJson (p : Program) : Json := .obj [("items", .arr (p.items.map Item.toJson))]

end RuleScript
