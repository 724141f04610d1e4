import RuleScript.Syntax.Basic
import RuleScript.Syntax.Cursor

/-!
# The grammar of type annotations

A type is one atom, or a union of several with bars between them. An atom is a name, a function
type, a variadic type or a type in parentheses, with any number of empty brackets after it.
-/

namespace RuleScript

namespace TypeExpr

/-- The array types that empty brackets after a type make. -/
def brackets (ty : TypeExpr) (last : Span) :
    (rest : List Lexeme) → Parsed TypeExpr (rest.length + 1)
  | ⟨.symbol .lbracket, _⟩ :: ⟨.symbol .rbracket, stop⟩ :: rest =>
    (brackets (.array (ty.span.merge stop) ty) stop rest).weaken
      (by simp only [List.length_cons]; omega)
  | rest => ⟨ty, ⟨last, rest⟩, Cursor.length_lt_succ rest⟩

/-- One atom or a union of several. -/
def ofMembers (first : TypeExpr) : List TypeExpr → TypeExpr
  | [] => first
  | others => .union (others.foldl (fun span t => span.merge t.span) first.span) (first :: others)

mutual

/-- Reads a type. -/
def parse (c : Cursor) : Parse TypeExpr c.size := do
  let ⟨first, c₁, h₁⟩ ← parseAtom c
  let ⟨others, c₂, h₂⟩ ← parseMembers c₁
  return ⟨ofMembers first others, c₂, Cursor.lt_of_lt_of_lt_succ h₁ h₂⟩
termination_by (c.size, 2)

/-- Reads the members of a union after the first, each behind a bar. -/
def parseMembers (c : Cursor) : Parse (List TypeExpr) (c.size + 1) := do
  match c.eat? (.symbol .pipe) with
  | none => return ⟨[], c, c.size_lt_succ⟩
  | some ⟨_, c₁, h₁⟩ =>
    let ⟨member, c₂, h₂⟩ ← parseAtom c₁
    let ⟨others, c₃, h₃⟩ ← parseMembers c₂
    return ⟨member :: others, c₃, Cursor.lt_succ_trans₃ h₁ h₂ h₃⟩
termination_by (c.size, 0)

/-- Reads an atom with the brackets after it. -/
def parseAtom (c : Cursor) : Parse TypeExpr c.size := do
  let ⟨ty, c₁, h₁⟩ ← parseStem c
  return (brackets ty c₁.last c₁.rest).weaken h₁
termination_by (c.size, 1)

/-- Reads an atom without the brackets after it. -/
def parseStem : (c : Cursor) → Parse TypeExpr c.size
  | ⟨_, ⟨.symbol .ellipsis, start⟩ :: rest⟩ => do
    let ⟨inner, c₁, h₁⟩ ← parseAtom ⟨start, rest⟩
    return ⟨.variadic (start.merge inner.span) inner, c₁, Nat.lt_succ_of_lt h₁⟩
  | ⟨_, ⟨.keyword .fn_, start⟩ :: rest⟩ => do
    let ⟨_, c₁, h₁⟩ ← Cursor.expect (.symbol .lparen) ⟨start, rest⟩
    let ⟨params, c₂, h₂⟩ ← c₁.listUntil rest.length .rparen (fun c' _ => parse c') h₁
    match c₂.eat? (.symbol .colon) with
    | none =>
      return ⟨.function (start.merge c₂.last) params none, c₂, by simp at *; omega⟩
    | some ⟨_, c₃, h₃⟩ =>
      let ⟨ret, c₄, h₄⟩ ← parse c₃
      return ⟨.function (start.merge c₄.last) params (some ret), c₄, by simp at *; omega⟩
  | ⟨_, ⟨.ident name, span⟩ :: rest⟩ =>
    .ok ⟨.named span name, ⟨span, rest⟩, Cursor.length_lt_succ rest⟩
  | ⟨_, ⟨.symbol .lparen, start⟩ :: rest⟩ => do
    let ⟨inner, c₁, h₁⟩ ← parse ⟨start, rest⟩
    let ⟨_, c₂, h₂⟩ ← c₁.expect (.symbol .rparen)
    return ⟨inner, c₂, by simp at *; omega⟩
  | c => c.fail .expectedType
termination_by c => (c.size, 0)
decreasing_by all_goals grind [Cursor.size_mk]

end

end TypeExpr

end RuleScript
