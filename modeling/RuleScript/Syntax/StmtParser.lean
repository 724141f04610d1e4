import RuleScript.Syntax.ExprParser

/-!
# The grammar of statements

Statements stand between braces, with any number of semicolons around them. A statement that starts
with no word of its own is an assignment, an assignment to a field, or a call.

A compound assignment such as `x += e` is the assignment of `x + e`.
-/

namespace RuleScript

namespace Stmt

/-- What is read behind a mark, if the mark is next. -/
def optional {α : Type} (mark : Symbol) (read : (c : Cursor) → Parse α c.size) (c : Cursor) :
    Parse (Option α) (c.size + 1) := do
  match c.eat? (.symbol mark) with
  | none => return ⟨none, c, c.size_lt_succ⟩
  | some ⟨_, c₁, h₁⟩ =>
    let ⟨a, c₂, h₂⟩ ← read c₁
    return ⟨some a, c₂, Cursor.lt_trans_succ h₁ h₂⟩

/-- Reads a declaration behind its first word. -/
def parseDeclare (start : Span) (constant : Bool) (c : Cursor) : Parse Stmt c.size := do
  let ⟨(name, _), c₁, h₁⟩ ← c.ident
  let ⟨ty, c₂, h₂⟩ ← optional .colon TypeExpr.parse c₁
  let ⟨value, c₃, h₃⟩ ← optional .eq Expr.parse c₂
  return ⟨.declare (start.merge c₃.last) name ty value constant, c₃, by omega⟩

/-- Reads what follows the word `return`. -/
def parseReturn (start : Span) (c : Cursor) : Parse Stmt (c.size + 1) := do
  if c.peek = .symbol .semicolon ∨ c.peek = .symbol .rbrace then
    return ⟨.ret (start.merge c.last) none, c, c.size_lt_succ⟩
  let ⟨value, c₁, h₁⟩ ← Expr.parse c
  return ⟨.ret (start.merge c₁.last) (some value), c₁, Cursor.lt_succ h₁⟩

/-- How a value is assigned: as it is, or through an operator on the old value. -/
def assignment? : Token → Option (Option BinOp)
  | .symbol .eq => some none
  | .symbol s => s.compound?.map some
  | _ => none

/-- The value that an assignment gives to a variable. -/
def assigned (target : Span) (name : String) (rhs : Expr) : Option BinOp → Expr
  | none => rhs
  | some op => .join op (.ident target name) rhs

/-- Reads the value of an assignment behind its target. -/
def parseAssign (start : Span) (target : Expr) (op : Option BinOp) (c : Cursor) :
    Parse Stmt c.size := do
  match target with
  | .ident span name =>
    let ⟨rhs, c₁, h₁⟩ ← Expr.parse c
    return ⟨.assign (start.merge c₁.last) name (assigned span name rhs op), c₁, h₁⟩
  | target => .error ⟨.invalidTarget, target.span⟩

/-- Reads what follows the expression that starts a statement. -/
def parseBehind (start : Span) (target : Expr) : (c : Cursor) → Parse Stmt (c.size + 1)
  | ⟨_, ⟨.symbol .dot, span⟩ :: rest⟩ => do
    let ⟨(field, _), c₁, h₁⟩ ← Cursor.ident ⟨span, rest⟩
    let ⟨_, c₂, h₂⟩ ← c₁.expect (.symbol .eq)
    let ⟨value, c₃, h₃⟩ ← Expr.parse c₂
    return ⟨.assignField (start.merge c₃.last) target field value, c₃, by simp at *; omega⟩
  | ⟨last, l :: rest⟩ =>
    match assignment? l.token, target with
    | some op, target => do
      return (← parseAssign start target op ⟨l.span, rest⟩).weaken (by simp; omega)
    | none, .call _ name args =>
      .ok ⟨.call (start.merge last) name args, ⟨last, l :: rest⟩, Nat.lt_succ_self _⟩
    | none, target => .error ⟨.bareExpression, target.span⟩
  | ⟨last, []⟩ =>
    match target with
    | .call _ name args => .ok ⟨.call (start.merge last) name args, ⟨last, []⟩, Nat.lt_succ_self _⟩
    | target => .error ⟨.bareExpression, target.span⟩

/-- Reads a statement that starts with an expression. -/
def parseSimple (c : Cursor) : Parse Stmt c.size := do
  let ⟨target, c₁, h₁⟩ ← Expr.parse c
  return (← parseBehind c.span target c₁).weaken h₁

mutual

/-- Reads statements between braces. -/
def parseBlock (c : Cursor) : Parse (List Stmt) c.size := do
  let ⟨_, c₁, h₁⟩ ← c.expect (.symbol .lbrace)
  let ⟨body, c₂, h₂⟩ ← parseBody c₁
  return ⟨body, c₂, Cursor.lt_trans h₁ h₂⟩
termination_by (c.size, 1)

/-- Reads statements up to and including the closing brace. -/
def parseBody (c : Cursor) : Parse (List Stmt) c.size := do
  have h₀ := c.size_skip_le
  if c.skip.peek = .symbol .rbrace ∨ c.skip.peek = .eof then
    let ⟨_, c₁, h₁⟩ ← c.skip.expect (.symbol .rbrace)
    return ⟨[], c₁, by omega⟩
  let ⟨s, c₁, h₁⟩ ← parse c.skip
  let ⟨body, c₂, h₂⟩ ← parseBody c₁
  return ⟨s :: body, c₂, by omega⟩
termination_by (c.size, 3)
decreasing_by all_goals grind

/-- Reads one statement. -/
def parse : (c : Cursor) → Parse Stmt c.size
  | ⟨_, ⟨.keyword .let_, start⟩ :: rest⟩ => do
    return (← parseDeclare start false ⟨start, rest⟩).weaken (Cursor.length_le_succ rest)
  | ⟨_, ⟨.keyword .const_, start⟩ :: rest⟩ => do
    return (← parseDeclare start true ⟨start, rest⟩).weaken (Cursor.length_le_succ rest)
  | ⟨_, ⟨.keyword .if_, start⟩ :: rest⟩ => do
    return (← parseBranch start ⟨start, rest⟩).weaken (Cursor.length_le_succ rest)
  | ⟨_, ⟨.keyword .while_, start⟩ :: rest⟩ => do
    let ⟨condition, c₁, h₁⟩ ← Expr.parse ⟨start, rest⟩
    let ⟨body, c₂, h₂⟩ ← parseBlock c₁
    return ⟨.loop (start.merge c₂.last) condition body, c₂, by simp at *; omega⟩
  | ⟨_, ⟨.keyword .for_, start⟩ :: rest⟩ => do
    let ⟨(marker, _), c₁, h₁⟩ ← Cursor.ident ⟨start, rest⟩
    let ⟨_, c₂, h₂⟩ ← c₁.expect (.keyword .in_)
    let ⟨first, c₃, h₃⟩ ← Expr.parse c₂
    let ⟨_, c₄, h₄⟩ ← c₃.expect (.symbol .dotDot)
    let ⟨limit, c₅, h₅⟩ ← Expr.parse c₄
    let ⟨body, c₆, h₆⟩ ← parseBlock c₅
    return ⟨.count (start.merge c₆.last) marker first limit body, c₆, by simp at *; omega⟩
  | ⟨_, ⟨.keyword .return_, start⟩ :: rest⟩ => do
    return (← parseReturn start ⟨start, rest⟩).weaken (Cursor.length_lt_succ rest)
  | ⟨_, ⟨.keyword .break_, start⟩ :: rest⟩ =>
    .ok ⟨.stop start, ⟨start, rest⟩, Cursor.length_lt_succ rest⟩
  | ⟨_, ⟨.keyword .continue_, start⟩ :: rest⟩ =>
    .ok ⟨.next start, ⟨start, rest⟩, Cursor.length_lt_succ rest⟩
  | ⟨last, ⟨.symbol .lbrace, start⟩ :: rest⟩ => do
    let ⟨body, c₁, h₁⟩ ← parseBlock ⟨last, ⟨.symbol .lbrace, start⟩ :: rest⟩
    return ⟨.block (start.merge c₁.last) body, c₁, h₁⟩
  | c => parseSimple c
termination_by c => (c.size, 2)
decreasing_by all_goals grind [Cursor.size_mk]

/-- Reads what follows the word `if`. -/
def parseBranch (start : Span) (c : Cursor) : Parse Stmt c.size := do
  let ⟨condition, c₁, h₁⟩ ← Expr.parse c
  let ⟨body, c₂, h₂⟩ ← parseBlock c₁
  match c₂.eat? (.keyword .else_) with
  | none => return ⟨.branch (start.merge c₂.last) condition body none, c₂, by omega⟩
  | some ⟨_, c₃, h₃⟩ =>
    match c₃.eat? (.keyword .if_) with
    | some ⟨start', c₄, h₄⟩ =>
      let ⟨s, c₅, h₅⟩ ← parseBranch start' c₄
      return ⟨.branch (start.merge c₅.last) condition body (some [s]), c₅, by omega⟩
    | none =>
      let ⟨otherwise, c₄, h₄⟩ ← parseBlock c₃
      return ⟨.branch (start.merge c₄.last) condition body (some otherwise), c₄, by omega⟩
termination_by (c.size, 0)

end

end Stmt

end RuleScript
