import RuleScript.Fault

/-!
# Reading tokens

A cursor stands between two tokens. Everything that reads gives back a value and the cursor behind
what it read, together with the proof that the new cursor has fewer tokens in front of it, so that
the recursion of the grammar ends.

## Main definitions

* `Cursor`: a place in a list of tokens
* `Parsed α n`: a value, and a cursor with fewer than `n` tokens in front of it
* `Cursor.expect`, `Cursor.eat?`: reading one given token
* `Cursor.listUntil`: reading values with commas between them up to a closing token
-/

namespace RuleScript

/-- A place in a list of tokens: the span of the token before it, and the tokens after it. -/
structure Cursor where
  last : Span
  rest : List Lexeme

/-- The number of tokens in front of a cursor. -/
def Cursor.size (c : Cursor) : Nat := c.rest.length

@[simp] theorem Cursor.size_mk (last : Span) (rest : List Lexeme) :
    (Cursor.mk last rest).size = rest.length := rfl

namespace Cursor

theorem length_lt_succ (rest : List Lexeme) : rest.length < rest.length + 1 :=
  Nat.lt_succ_self _

theorem length_le_succ (rest : List Lexeme) : rest.length ≤ rest.length + 1 :=
  Nat.le_succ _

theorem size_lt_succ (c : Cursor) : c.size < c.size + 1 := Nat.lt_succ_self _

theorem lt_succ {a b : Cursor} (h : b.size < a.size) : b.size < a.size + 1 := Nat.lt_succ_of_lt h

theorem le_succ {a b : Cursor} (h : b.size < a.size) : b.size ≤ a.size + 1 :=
  Nat.le_of_lt (lt_succ h)

theorem lt_trans {a b c : Cursor} (h₁ : b.size < a.size) (h₂ : c.size < b.size) :
    c.size < a.size :=
  Nat.lt_trans h₂ h₁

theorem lt_trans_succ {a b c : Cursor} (h₁ : b.size < a.size) (h₂ : c.size < b.size) :
    c.size < a.size + 1 :=
  lt_succ (lt_trans h₁ h₂)

theorem lt_of_lt_of_lt_succ {a b c : Cursor} (h₁ : b.size < a.size) (h₂ : c.size < b.size + 1) :
    c.size < a.size :=
  Nat.lt_of_lt_of_le h₂ h₁

theorem lt_trans₃ {a b c d : Cursor} (h₁ : b.size < a.size) (h₂ : c.size < b.size)
    (h₃ : d.size < c.size) : d.size < a.size :=
  lt_trans (lt_trans h₁ h₂) h₃

theorem lt_succ_trans₃ {a b c d : Cursor} (h₁ : b.size < a.size) (h₂ : c.size < b.size)
    (h₃ : d.size < c.size + 1) : d.size < a.size + 1 :=
  lt_succ (lt_of_lt_of_lt_succ (lt_trans h₁ h₂) h₃)

theorem lt_trans_optional {a b c d : Cursor} (h₁ : b.size < a.size) (h₂ : c.size < b.size + 1)
    (h₃ : d.size < c.size) : d.size < a.size :=
  lt_trans (lt_of_lt_of_lt_succ h₁ h₂) h₃

end Cursor

/-- A value that was read, and the place behind it. -/
structure Parsed (α : Type) (n : Nat) where
  value : α
  next : Cursor
  shorter : next.size < n

/-- What reading gives: a value, or the first error. -/
abbrev Parse (α : Type) (n : Nat) := Except Error (Parsed α n)

namespace Parsed

variable {α β : Type} {m n : Nat}

/-- The same value, read from further back. -/
def weaken (p : Parsed α m) (h : m ≤ n) : Parsed α n :=
  ⟨p.value, p.next, Nat.lt_of_lt_of_le p.shorter h⟩

/-- Another value at the same place. -/
def map (f : α → β) (p : Parsed α n) : Parsed β n := ⟨f p.value, p.next, p.shorter⟩

end Parsed

namespace Cursor

/-- The place before the first token. -/
def start (tokens : List Lexeme) : Cursor := ⟨Span.zero, tokens⟩

/-- The next token. -/
def peek (c : Cursor) : Token :=
  match c.rest with
  | [] => .eof
  | l :: _ => l.token

/-- The place of the next token. -/
def span (c : Cursor) : Span :=
  match c.rest with
  | [] => Span.zero
  | l :: _ => l.span

/-- The error that something is wrong with the next token. -/
def fail {α : Type} (c : Cursor) (fault : Token → Fault) : Except Error α :=
  .error ⟨fault c.peek, c.span⟩

/-- Reads a given token, if it is next. -/
def eat? (t : Token) : (c : Cursor) → Option (Parsed Span c.size)
  | ⟨_, []⟩ => none
  | ⟨_, l :: ls⟩ => if l.token = t then some ⟨l.span, ⟨l.span, ls⟩, length_lt_succ ls⟩ else none

/-- Reads a given token; it is an error if another is next. -/
def expect (t : Token) (c : Cursor) : Parse Span c.size :=
  match c.eat? t with
  | some p => .ok p
  | none => c.fail (.expectedToken t)

/-- Reads an identifier and gives its name and its place. -/
def ident : (c : Cursor) → Parse (String × Span) c.size
  | ⟨_, ⟨.ident name, span⟩ :: ls⟩ => .ok ⟨(name, span), ⟨span, ls⟩, length_lt_succ ls⟩
  | c => c.fail .expectedIdent

/-- Passes over semicolons. -/
def skipTerminators (last : Span) : List Lexeme → Cursor
  | ⟨.symbol .semicolon, span⟩ :: ls => skipTerminators span ls
  | ls => ⟨last, ls⟩

theorem size_skipTerminators_le (last : Span) (ls : List Lexeme) :
    (skipTerminators last ls).size ≤ ls.length := by
  fun_induction skipTerminators last ls with
  | case1 last span ls ih => exact Nat.le_succ_of_le ih
  | case2 => exact Nat.le_refl _

/-- The place behind any semicolons. -/
def skip (c : Cursor) : Cursor := skipTerminators c.last c.rest

theorem size_skip_le (c : Cursor) : c.skip.size ≤ c.size := size_skipTerminators_le c.last c.rest

/-- Reads values with commas between them up to and including the closing token. A comma may stand
after the last value. -/
def listUntil {α : Type} (n : Nat) (close : Symbol)
    (item : (c : Cursor) → c.size < n → Parse α c.size) (c : Cursor) (h : c.size < n) :
    Parse (List α) c.size := do
  if c.peek = .symbol close ∨ c.peek = .eof then
    return (← c.expect (.symbol close)).map fun _ => []
  let ⟨a, c₁, h₁⟩ ← item c h
  match c₁.eat? (.symbol .comma) with
  | none =>
    let ⟨_, c₂, h₂⟩ ← c₁.expect (.symbol close)
    return ⟨[a], c₂, lt_trans h₁ h₂⟩
  | some ⟨_, c₂, h₂⟩ =>
    let ⟨as, c₃, h₃⟩ ← listUntil n close item c₂ (by omega)
    return ⟨a :: as, c₃, by omega⟩
termination_by c.size

end Cursor

end RuleScript
