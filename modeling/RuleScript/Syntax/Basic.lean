import RuleScript.Operator
import RuleScript.Text.Span

/-!
# Programs as written

The syntax trees of the language. Every node has the span of the source text it was read from.

## Main definitions

* `TypeExpr`, `Expr`, `Stmt`: type annotations, expressions and statements
* `FunctionDecl`, `EventDecl`, `AliasDecl`: the declarations
* `Program`: the declarations of a source text in their order
-/

namespace RuleScript

/-- A type annotation. Its names may be aliases or generics. -/
inductive TypeExpr
  | named (span : Span) (name : String)
  | array (span : Span) (item : TypeExpr)
  | function (span : Span) (params : List TypeExpr) (ret : Option TypeExpr)
  | variadic (span : Span) (inner : TypeExpr)
  | union (span : Span) (members : List TypeExpr)
deriving Inhabited

/-- The place of an annotation. -/
def TypeExpr.span : TypeExpr → Span
  | named span _ | array span _ | function span _ _ | variadic span _ | union span _ => span

/-- An expression. An array literal may name the type of its items. -/
inductive Expr
  | number (span : Span) (value : Float)
  | string (span : Span) (value : String)
  | boolean (span : Span) (value : Bool)
  | ident (span : Span) (name : String)
  | array (span : Span) (item : Option TypeExpr) (items : List Expr)
  | binary (span : Span) (op : BinOp) (left right : Expr)
  | not (span : Span) (operand : Expr)
  | typeOf (span : Span) (operand : Expr)
  | index (span : Span) (object index : Expr)
  | call (span : Span) (name : String) (args : List Expr)

instance : Inhabited Expr := ⟨.boolean Span.zero false⟩

/-- The place of an expression. -/
def Expr.span : Expr → Span
  | number span _ | string span _ | boolean span _ | ident span _ | array span _ _
  | binary span _ _ _ | not span _ | typeOf span _ | index span _ _ | call span _ _ => span

/-- An expression with an operator between two operands, from the start of the first to the end of
the second. -/
def Expr.join (op : BinOp) (left right : Expr) : Expr :=
  .binary (left.span.merge right.span) op left right

/-- A statement. -/
inductive Stmt
  | block (span : Span) (body : List Stmt)
  | declare (span : Span) (name : String) (ty : Option TypeExpr) (value : Option Expr)
      (constant : Bool)
  | assign (span : Span) (name : String) (value : Expr)
  | assignField (span : Span) (object : Expr) (field : String) (value : Expr)
  | branch (span : Span) (condition : Expr) (body : List Stmt) (otherwise : Option (List Stmt))
  | loop (span : Span) (condition : Expr) (body : List Stmt)
  | count (span : Span) (marker : String) (first limit : Expr) (body : List Stmt)
  | ret (span : Span) (value : Option Expr)
  | stop (span : Span)
  | next (span : Span)
  | call (span : Span) (name : String) (args : List Expr)
deriving Inhabited

/-- The place of a statement. -/
def Stmt.span : Stmt → Span
  | block span _ | declare span _ _ _ _ | assign span _ _ | assignField span _ _ _
  | branch span _ _ _ | loop span _ _ | count span _ _ _ _ | ret span _ | stop span | next span
  | call span _ _ => span

/-- A generic of a function with the bound that its types have to meet. -/
structure GenericParam where
  name : String
  bound : Option TypeExpr
  span : Span

/-- A parameter of a function. -/
structure Param where
  name : String
  ty : TypeExpr
  span : Span

/-- The declaration of a function. -/
structure FunctionDecl where
  name : String
  generics : List GenericParam
  params : List Param
  ret : Option TypeExpr
  body : List Stmt
  span : Span

/-- The declaration of what to do at an event. -/
structure EventDecl where
  name : String
  args : List String
  body : List Stmt
  span : Span

/-- The declaration of another name for a type. -/
structure AliasDecl where
  name : String
  ty : TypeExpr
  span : Span

/-- A declaration. -/
inductive Item
  | function (decl : FunctionDecl)
  | event (decl : EventDecl)
  | typeAlias (decl : AliasDecl)

/-- The declarations of a source text in their order. -/
structure Program where
  items : List Item

end RuleScript
