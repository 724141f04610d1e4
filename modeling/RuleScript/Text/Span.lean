/-!
# Places in a source text

A span is a half-open range of byte offsets into the UTF-8 form of a source text. A position is
what a reader of a message needs instead: a line and a column, both counted from one.

## Main definitions

* `Span.merge`: the least span that covers two spans
* `Position.ofOffset`: the position of a byte offset, found by walking the characters that start
  before it
-/

namespace RuleScript

/-- A half-open range of byte offsets. -/
structure Span where
  start : Nat
  stop : Nat
deriving DecidableEq, Inhabited, Repr

namespace Span

/-- The empty span at the start of the text. -/
def zero : Span := ⟨0, 0⟩

/-- The least span that covers both. -/
def merge (a b : Span) : Span := ⟨min a.start b.start, max a.stop b.stop⟩

@[simp] theorem start_merge (a b : Span) : (a.merge b).start = min a.start b.start := rfl

@[simp] theorem stop_merge (a b : Span) : (a.merge b).stop = max a.stop b.stop := rfl

end Span

/-- The number of bytes of a text in UTF-8. -/
def Text.width : List Char → Nat
  | [] => 0
  | c :: cs => c.utf8Size + Text.width cs

@[simp] theorem Text.width_nil : Text.width [] = 0 := rfl

@[simp] theorem Text.width_cons (c : Char) (cs : List Char) :
    Text.width (c :: cs) = c.utf8Size + Text.width cs := rfl

/-- A line and a column, both counted from one. -/
structure Position where
  line : Nat
  column : Nat
deriving DecidableEq, Inhabited, Repr

namespace Position

/-- Where every text begins. -/
def first : Position := ⟨1, 1⟩

/-- The position after a character: only a line feed ends a line, and every other character is one
column wide. -/
def after (p : Position) (c : Char) : Position :=
  if c = '\n' then ⟨p.line + 1, 1⟩ else ⟨p.line, p.column + 1⟩

/-- Walks the characters that start before `offset`; the first one starts at `here`. -/
def walk (offset : Nat) (here : Nat) (p : Position) : List Char → Position
  | [] => p
  | c :: cs => if offset ≤ here then p else walk offset (here + c.utf8Size) (p.after c) cs

/-- The position of a byte offset. An offset past the end is at the end, and one inside a character
is after that character. -/
def ofOffset (source : String) (offset : Nat) : Position :=
  walk offset 0 first source.toList

end Position

end RuleScript
