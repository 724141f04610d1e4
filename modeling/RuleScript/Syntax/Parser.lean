import RuleScript.Syntax.StmtParser
import RuleScript.Token.Lexer

/-!
# The grammar of programs

A program is a list of declarations of functions, events and types, with any number of semicolons
around them.

## Main definitions

* `Program.ofLexemes`: the program that a list of tokens writes
* `Program.ofSource`: the program that a source text writes
* `TypeExpr.ofSource`: the annotation that a text writes
-/

namespace RuleScript

/-- Reads the generics of a function up to and including the closing bracket. -/
def GenericParam.parseList (c : Cursor) : Parse (List GenericParam) c.size := do
  let ⟨(name, span), c₁, h₁⟩ ← c.ident
  let ⟨bound, c₂, h₂⟩ ← Stmt.optional .colon TypeExpr.parse c₁
  let g : GenericParam := ⟨name, bound, span.merge c₂.last⟩
  match c₂.eat? (.symbol .comma) with
  | some ⟨_, c₃, h₃⟩ =>
    let ⟨gs, c₄, h₄⟩ ← parseList c₃
    have h := Cursor.lt_trans_optional h₁ h₂ h₃
    return ⟨g :: gs, c₄, Cursor.lt_trans h h₄⟩
  | none =>
    let ⟨_, c₃, h₃⟩ ← c₂.expect (.symbol .gt)
    return ⟨[g], c₃, Cursor.lt_trans_optional h₁ h₂ h₃⟩
termination_by c.size

/-- Reads the generics of a function, if there are any. -/
def GenericParam.parseOptional (c : Cursor) : Parse (List GenericParam) (c.size + 1) := do
  match c.eat? (.symbol .lt) with
  | none => return ⟨[], c, c.size_lt_succ⟩
  | some ⟨_, c₁, h₁⟩ => return (← parseList c₁).weaken (Cursor.le_succ h₁)

/-- Reads a parameter. -/
def Param.parse (c : Cursor) : Parse Param c.size := do
  let ⟨(name, span), c₁, h₁⟩ ← c.ident
  let ⟨_, c₂, h₂⟩ ← c₁.expect (.symbol .colon)
  let ⟨ty, c₃, h₃⟩ ← TypeExpr.parse c₂
  return ⟨⟨name, ty, span.merge ty.span⟩, c₃, Cursor.lt_trans₃ h₁ h₂ h₃⟩

/-- Reads a list in parentheses. -/
def Cursor.parenthesised {α : Type} (item : (c : Cursor) → Parse α c.size) (c : Cursor) :
    Parse (List α) c.size := do
  let ⟨_, c₁, h₁⟩ ← c.expect (.symbol .lparen)
  return (← c₁.listUntil c.size .rparen (fun c' _ => item c') h₁).weaken (by omega)

/-- Reads a function declaration behind its first word. -/
def FunctionDecl.parse (start : Span) (c : Cursor) : Parse FunctionDecl c.size := do
  let ⟨(name, _), c₁, h₁⟩ ← c.ident
  let ⟨generics, c₂, h₂⟩ ← GenericParam.parseOptional c₁
  let ⟨params, c₃, h₃⟩ ← c₂.parenthesised Param.parse
  let ⟨ret, c₄, h₄⟩ ← Stmt.optional .colon TypeExpr.parse c₃
  let ⟨body, c₅, h₅⟩ ← Stmt.parseBlock c₄
  return ⟨⟨name, generics, params, ret, body, start.merge c₅.last⟩, c₅, by omega⟩

/-- Reads an event declaration behind its first word. -/
def EventDecl.parse (start : Span) (c : Cursor) : Parse EventDecl c.size := do
  let ⟨(name, _), c₁, h₁⟩ ← c.ident
  let ⟨args, c₂, h₂⟩ ← c₁.parenthesised fun c' => do return (← c'.ident).map (·.1)
  let ⟨body, c₃, h₃⟩ ← Stmt.parseBlock c₂
  return ⟨⟨name, args, body, start.merge c₃.last⟩, c₃, Cursor.lt_trans₃ h₁ h₂ h₃⟩

/-- Reads an alias declaration behind its first word. -/
def AliasDecl.parse (start : Span) (c : Cursor) : Parse AliasDecl c.size := do
  let ⟨(name, _), c₁, h₁⟩ ← c.ident
  let ⟨_, c₂, h₂⟩ ← c₁.expect (.symbol .eq)
  let ⟨ty, c₃, h₃⟩ ← TypeExpr.parse c₂
  return ⟨⟨name, ty, start.merge ty.span⟩, c₃, Cursor.lt_trans₃ h₁ h₂ h₃⟩

/-- Reads a declaration. -/
def Item.parse : (c : Cursor) → Parse Item c.size
  | ⟨_, ⟨.keyword .function_, start⟩ :: rest⟩ => do
    return ((← FunctionDecl.parse start ⟨start, rest⟩).map Item.function).weaken
      (Cursor.length_le_succ rest)
  | ⟨_, ⟨.keyword .event_, start⟩ :: rest⟩ => do
    return ((← EventDecl.parse start ⟨start, rest⟩).map Item.event).weaken
      (Cursor.length_le_succ rest)
  | ⟨_, ⟨.keyword .type_, start⟩ :: rest⟩ => do
    return ((← AliasDecl.parse start ⟨start, rest⟩).map Item.typeAlias).weaken
      (Cursor.length_le_succ rest)
  | c => c.fail .expectedDeclaration

namespace Program

/-- Reads declarations up to the end of the text. -/
def parseItems (c : Cursor) : Except Error (List Item) := do
  have _ := c.size_skip_le
  if c.skip.peek = .eof then return []
  let ⟨item, c₁, _⟩ ← Item.parse c.skip
  return item :: (← parseItems c₁)
termination_by c.size

/-- The program that a list of tokens writes. -/
def ofLexemes (tokens : List Lexeme) : Except Error Program := do
  return ⟨← parseItems (.start tokens)⟩

/-- The program that a source text writes. -/
def ofSource (source : String) : Except Error Program := do
  ofLexemes (← Lexeme.ofSource source)

end Program

namespace TypeExpr

/-- The annotation that a list of tokens writes. -/
def ofLexemes (tokens : List Lexeme) : Except Error TypeExpr := do
  let ⟨ty, c, _⟩ ← parse (.start tokens)
  if c.peek = .eof then return ty
  c.fail .tokenAfterType

/-- The annotation that a text writes. -/
def ofSource (source : String) : Except Error TypeExpr := do
  ofLexemes (← Lexeme.ofSource source)

end TypeExpr

end RuleScript
