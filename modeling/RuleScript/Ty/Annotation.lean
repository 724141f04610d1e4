import RuleScript.Syntax.Parser

/-!
# Types from annotations

Where there are no aliases and no generics every name in an annotation is a native type.
-/

namespace RuleScript

namespace Ty

mutual

/-- The type that an annotation writes when every name is native. -/
def ofTypeExpr : TypeExpr → Ty
  | .named _ name => native name
  | .array _ item => array (ofTypeExpr item)
  | .function _ params ret => function (ofTypeExprs params) (ofTypeExpr? ret)
  | .variadic _ inner => variadic (ofTypeExpr inner)
  | .union _ members => union (ofTypeExprs members)

/-- The types that some annotations write. -/
def ofTypeExprs : List TypeExpr → List Ty
  | [] => []
  | t :: ts => ofTypeExpr t :: ofTypeExprs ts

/-- The type that an annotation writes, if there is one. -/
def ofTypeExpr? : Option TypeExpr → Option Ty
  | none => none
  | some t => some (ofTypeExpr t)

end

/-- The type that a text writes when every name is native. -/
def ofSource (source : String) : Except Error Ty := do
  return ofTypeExpr (← TypeExpr.ofSource source)

end Ty

end RuleScript
