import RuleScript.Syntax.TypeParser

/-!
# The grammar of expressions

Binary operators come in levels, and within a level they associate to the left. Below the levels are
the operators in front of an operand, and below those the primary expressions with what may follow
them: an index in brackets or a call with a point.

A minus in front of an operand is a subtraction from zero, and a call with a point passes the value
before the point as the first argument.
-/

namespace RuleScript

/-- Reads an operator of a level. -/
def Cursor.operator? (level : Nat) : (c : Cursor) → Option (Parsed BinOp c.size)
  | ⟨_, ⟨.symbol s, span⟩ :: rest⟩ =>
    match s.operator? with
    | some op => if op.level = level then some ⟨op, ⟨span, rest⟩, length_lt_succ rest⟩ else none
    | none => none
  | _ => none

namespace Expr

mutual

/-- Reads an expression whose operators outside of parentheses are of the levels below `levels`. -/
def parseLevels (levels : Nat) (c : Cursor) : Parse Expr c.size :=
  match levels with
  | 0 => parseUnary c
  | level + 1 => do
    let ⟨left, c₁, h₁⟩ ← parseLevels level c
    return (← parseOperators level left c₁).weaken h₁
termination_by (c.size, levels + 2)

/-- Reads the operators of a level and their operands behind a first operand. -/
def parseOperators (level : Nat) (left : Expr) (c : Cursor) : Parse Expr (c.size + 1) := do
  match c.operator? level with
  | none => return ⟨left, c, c.size_lt_succ⟩
  | some ⟨op, c₁, h₁⟩ =>
    let ⟨right, c₂, h₂⟩ ← parseLevels level c₁
    return (← parseOperators level (.join op left right) c₂).weaken (by omega)
termination_by (c.size, 0)

/-- Reads an operand with the operators in front of it. -/
def parseUnary : (c : Cursor) → Parse Expr c.size
  | ⟨_, ⟨.symbol .bang, start⟩ :: rest⟩ => do
    let ⟨operand, c₁, h₁⟩ ← parseUnary ⟨start, rest⟩
    return ⟨.not (start.merge operand.span) operand, c₁, Nat.lt_succ_of_lt h₁⟩
  | ⟨_, ⟨.keyword .typeOf, start⟩ :: rest⟩ => do
    let ⟨operand, c₁, h₁⟩ ← parseUnary ⟨start, rest⟩
    return ⟨.typeOf (start.merge operand.span) operand, c₁, Nat.lt_succ_of_lt h₁⟩
  | ⟨_, ⟨.symbol .minus, start⟩ :: rest⟩ => do
    let ⟨operand, c₁, h₁⟩ ← parseUnary ⟨start, rest⟩
    return ⟨.join .sub (.number start 0.0) operand, c₁, Nat.lt_succ_of_lt h₁⟩
  | c => do
    let ⟨e, c₁, h₁⟩ ← parsePrimary c
    return (← parsePostfix e c₁).weaken h₁
termination_by c => (c.size, 1)
decreasing_by all_goals grind [Cursor.size_mk]

/-- Reads the indices and calls behind an expression. A field that is assigned to is left for the
statement. -/
def parsePostfix (e : Expr) : (c : Cursor) → Parse Expr (c.size + 1)
  | ⟨_, ⟨.symbol .lbracket, start⟩ :: rest⟩ => do
    let ⟨i, c₁, h₁⟩ ← parseLevels BinOp.levels ⟨start, rest⟩
    let ⟨stop, c₂, h₂⟩ ← c₁.expect (.symbol .rbracket)
    return (← parsePostfix (.index (e.span.merge stop) e i) c₂).weaken (by simp at *; omega)
  | ⟨_, ⟨.symbol .dot, _⟩ :: ⟨.ident method, _⟩ :: ⟨.symbol .lparen, start⟩ :: rest⟩ => do
    let ⟨args, c₁, h₁⟩ ← Cursor.listUntil (rest.length + 1) .rparen
      (fun c' _ => parseLevels BinOp.levels c') ⟨start, rest⟩ (Nat.lt_succ_self _)
    return (← parsePostfix (.call (e.span.merge c₁.last) method (e :: args)) c₁).weaken
      (by simp at *; omega)
  | ⟨last, ⟨.symbol .dot, span⟩ :: ⟨.ident field, span₁⟩ :: ⟨.symbol .eq, span₂⟩ :: rest⟩ =>
    .ok ⟨e, ⟨last, ⟨.symbol .dot, span⟩ :: ⟨.ident field, span₁⟩ :: ⟨.symbol .eq, span₂⟩ :: rest⟩,
      Nat.lt_succ_self _⟩
  | ⟨_, ⟨.symbol .dot, span⟩ :: ⟨.ident field, _⟩ :: _⟩ => .error ⟨.fieldRead field, span⟩
  | ⟨_, ⟨.symbol .dot, span⟩ :: rest⟩ =>
    .error ⟨.expectedMember (Cursor.mk span rest).peek, span⟩
  | c => .ok ⟨e, c, c.size_lt_succ⟩
termination_by c => (c.size, 0)
decreasing_by all_goals grind [Cursor.size_mk]

/-- Reads a literal, a name, a call, an array or an expression in parentheses. -/
def parsePrimary : (c : Cursor) → Parse Expr c.size
  | ⟨_, ⟨.number x, span⟩ :: rest⟩ => .ok ⟨.number span x, ⟨span, rest⟩, Cursor.length_lt_succ rest⟩
  | ⟨_, ⟨.string s, span⟩ :: rest⟩ => .ok ⟨.string span s, ⟨span, rest⟩, Cursor.length_lt_succ rest⟩
  | ⟨_, ⟨.keyword .true_, span⟩ :: rest⟩ =>
    .ok ⟨.boolean span true, ⟨span, rest⟩, Cursor.length_lt_succ rest⟩
  | ⟨_, ⟨.keyword .false_, span⟩ :: rest⟩ =>
    .ok ⟨.boolean span false, ⟨span, rest⟩, Cursor.length_lt_succ rest⟩
  | ⟨_, ⟨.ident name, span⟩ :: ⟨.symbol .lparen, start⟩ :: rest⟩ => do
    let ⟨args, c₁, h₁⟩ ← Cursor.listUntil (rest.length + 1) .rparen
      (fun c' _ => parseLevels BinOp.levels c') ⟨start, rest⟩ (Nat.lt_succ_self _)
    return ⟨.call (span.merge c₁.last) name args, c₁, by simp at *; omega⟩
  | ⟨_, ⟨.ident name, span⟩ :: rest⟩ =>
    .ok ⟨.ident span name, ⟨span, rest⟩, Cursor.length_lt_succ rest⟩
  | ⟨_, ⟨.symbol .lparen, start⟩ :: rest⟩ => do
    let ⟨e, c₁, h₁⟩ ← parseLevels BinOp.levels ⟨start, rest⟩
    let ⟨_, c₂, h₂⟩ ← c₁.expect (.symbol .rparen)
    return ⟨e, c₂, by simp at *; omega⟩
  | ⟨_, ⟨.symbol .lbracket, start⟩ :: rest⟩ => do
    let ⟨items, c₁, h₁⟩ ← Cursor.listUntil (rest.length + 1) .rbracket
      (fun c' _ => parseLevels BinOp.levels c') ⟨start, rest⟩ (Nat.lt_succ_self _)
    return ⟨.array (start.merge c₁.last) none items, c₁, by simp at *; omega⟩
  | ⟨_, ⟨.symbol .lt, start⟩ :: rest⟩ => do
    let ⟨item, c₁, h₁⟩ ← TypeExpr.parse ⟨start, rest⟩
    let ⟨_, c₂, h₂⟩ ← c₁.expect (.symbol .gt)
    let ⟨_, c₃, h₃⟩ ← c₂.expect (.symbol .lbracket)
    let ⟨items, c₄, h₄⟩ ←
      c₃.listUntil rest.length .rbracket (fun c' _ => parseLevels BinOp.levels c')
        (by simp at *; omega)
    return ⟨.array (start.merge c₄.last) (some item) items, c₄, by simp at *; omega⟩
  | c => c.fail .unexpectedToken
termination_by c => (c.size, 0)
decreasing_by all_goals grind [Cursor.size_mk]

end

/-- Reads an expression. -/
def parse (c : Cursor) : Parse Expr c.size := parseLevels BinOp.levels c

end Expr

end RuleScript
