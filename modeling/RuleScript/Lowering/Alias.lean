import RuleScript.Lowering.Env

/-!
# What annotations stand for

A name in an annotation is looked up among the types of the visible scopes first, then among the
aliases of the program, and is a native type otherwise. An alias is expanded where it is used, and
one that leads back to itself is an error at the place where the circle closes.

## Main definitions

* `TypeExpr.resolveWith`: the type of an annotation, given what its names stand for
* `Env.resolve`: the type of an annotation in an environment
-/

namespace RuleScript

namespace TypeExpr

mutual

/-- The type of an annotation, given what its names stand for. -/
def resolveWith (meaning : Span → String → Except Error Ty) : TypeExpr → Except Error Ty
  | named span name => meaning span name
  | array _ item => do return .array (← item.resolveWith meaning)
  | function _ params ret => do
    let params ← resolveList meaning params
    return .function params (← resolveOption meaning ret)
  | variadic _ inner => do return .variadic (← inner.resolveWith meaning)
  | union _ members => do return .union (← resolveList meaning members)

/-- The types of some annotations. -/
def resolveList (meaning : Span → String → Except Error Ty) : List TypeExpr → Except Error (List Ty)
  | [] => .ok []
  | t :: ts => do
    let ty ← t.resolveWith meaning
    return ty :: (← resolveList meaning ts)

/-- The type of an annotation that may be missing. -/
def resolveOption (meaning : Span → String → Except Error Ty) :
    Option TypeExpr → Except Error (Option Ty)
  | none => .ok none
  | some t => do return some (← t.resolveWith meaning)

end

end TypeExpr

/-- What a name stands for while the aliases `expanding` are being expanded, with `more` aliases
left to expand. When no alias is left, every alias is being expanded already. -/
def Scopes.meaning (scopes : Scopes) (aliases : Table AliasDecl) (more : Nat)
    (expanding : List String) (span : Span) (name : String) : Except Error Ty :=
  match scopes.type? name, aliases.get? name with
  -- A generic hides an alias of the same name.
  | some ty, _ => .ok ty
  | none, none => .ok (.native name)
  | none, some decl =>
    if expanding.contains name then .error ⟨.cyclicAlias name, span⟩
    else
      match more with
      | 0 => .error ⟨.cyclicAlias name, span⟩
      | more + 1 => decl.ty.resolveWith (scopes.meaning aliases more (name :: expanding))

namespace Env

/-- The type of an annotation where these scopes are open. -/
def resolveIn (env : Env) (scopes : Scopes) (ty : TypeExpr) : Except Error Ty :=
  let aliases := env.declarations.aliases
  ty.resolveWith (scopes.meaning aliases aliases.size [])

/-- The type of an annotation. -/
def resolve (env : Env) (ty : TypeExpr) : Except Error Ty := env.resolveIn env.scopes ty

/-- The type of an annotation that may be missing. -/
def resolve? (env : Env) : Option TypeExpr → Except Error (Option Ty)
  | none => .ok none
  | some ty => do return some (← env.resolve ty)

end Env

end RuleScript
