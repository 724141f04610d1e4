import RuleScript.Decimal.Reader
import RuleScript.Fault

/-!
# From text to tokens

The text is cut into pieces from the left. `scan` looks at the first character and what follows, and
says how many of the characters that follow belong to the same piece and what the piece is: a token,
a blank (white space or a comment), or a fault. Places in the text are worked out from the pieces,
so the rules of the single pieces do not deal with them.

## Main definitions

* `Piece`: what a piece is and how far it reaches
* `scan`: the first piece of a text
* `Lexeme.ofSource`: the tokens of a source text, the end of the text included
-/

namespace RuleScript

namespace Lexer

/-- The first piece of a text: what it is, and how many characters after the first belong to it. -/
structure Piece where
  /-- A token, nothing for a blank, or the fault that starts here. -/
  result : Except Fault (Option Token)
  /-- The number of characters after the first. -/
  extra : Nat

namespace Piece

/-- A piece that is a token. -/
def token (t : Token) (extra : Nat) : Piece := ⟨.ok (some t), extra⟩

/-- A piece that is a symbol. -/
def symbol (s : Symbol) (extra : Nat) : Piece := token (.symbol s) extra

/-- A piece that separates tokens. -/
def blank (extra : Nat) : Piece := ⟨.ok none, extra⟩

/-- A piece that cannot be read. -/
def fault (f : Fault) (extra : Nat) : Piece := ⟨.error f, extra⟩

end Piece

/-! ## Blanks -/

/-- White space. -/
def isBlank (c : Char) : Bool := c == ' ' || c == '\t' || c == '\n' || c == '\r'

/-- The number of characters up to the end of a comment, the closing mark included. -/
def commentLength? : List Char → Option Nat
  | [] => none
  | '*' :: '/' :: _ => some 2
  | _ :: cs => (commentLength? cs).map (· + 1)

/-! ## Words -/

/-- A letter that can start a word. -/
def isWordStart (c : Char) : Bool := c.isAlpha || c == '_'

/-- A letter or a digit inside a word. -/
def isWordChar (c : Char) : Bool := c.isAlphanum || c == '_'

/-- The token that a word writes. -/
def wordToken (word : String) : Token :=
  match Keyword.ofSpelling? word with
  | some k => .keyword k
  | none => .ident word

/-- The word that starts with `c`. -/
def scanWord (c : Char) (cs : List Char) : Piece :=
  let tail := cs.takeWhile isWordChar
  .token (wordToken (String.ofList (c :: tail))) tail.length

/-! ## Numbers -/

/-- The value of a number written in another base than ten; it has to fit into 64 bits. -/
def radixValue? (base : Nat) (digits : List Char) : Option Float :=
  ((Decimal.nat? base digits).filter (· < 0x10000000000000000)).map Float.ofNat

/-- A number in another base, after its mark: it reaches as far as letters and digits do. -/
def scanRadix (base : Nat) (mark : Char) (cs : List Char) : Piece :=
  let digits := cs.takeWhile Char.isAlphanum
  match radixValue? base digits with
  | some x => .token (.number x) (digits.length + 1)
  | none => .fault (.invalidNumber (String.ofList ('0' :: mark :: digits))) (digits.length + 1)

/-- The fraction after the whole part of a number: a point counts only if a digit follows it, so
that two points can mark a range. -/
def fraction : List Char → List Char
  | '.' :: cs => cs.takeWhile Char.isDigit
  | _ => []

/-- A decimal number that starts with the digit `c`. -/
def scanDecimal (c : Char) (cs : List Char) : Piece :=
  let whole := cs.takeWhile Char.isDigit
  let part := fraction (cs.dropWhile Char.isDigit)
  let extra := whole.length + if part.isEmpty then 0 else part.length + 1
  let x := Decimal.ofDigits (c :: whole) part
  -- Rounding may lead beyond the largest number.
  if x.isFinite then .token (.number x) extra else .fault .numberTooLarge extra

/-- A number that starts with the digit `c`. -/
def scanNumber (c : Char) (cs : List Char) : Piece :=
  match c, cs with
  | '0', 'x' :: ds => scanRadix 16 'x' ds
  | '0', 'X' :: ds => scanRadix 16 'X' ds
  | '0', 'b' :: ds => scanRadix 2 'b' ds
  | '0', 'B' :: ds => scanRadix 2 'B' ds
  | c, cs => scanDecimal c cs

/-! ## Strings -/

/-- What was read of a string after its opening quote. -/
structure StringBody where
  /-- The characters the string stands for. -/
  value : List Char
  /-- The number of characters read, the closing quote included. -/
  length : Nat
  /-- Whether there was a closing quote. -/
  closed : Bool

/-- Puts a character that was written with `length` characters in front. -/
def StringBody.push (b : StringBody) (c : Char) (length : Nat) : StringBody :=
  { b with value := c :: b.value, length := b.length + length }

/-- Reads up to the closing quote. Only a quote and a backslash can be escaped, a backslash before
anything else stands for itself, and a string does not go past the end of its line. -/
def stringBody : List Char → StringBody
  | [] => ⟨[], 0, false⟩
  | '"' :: _ => ⟨[], 1, true⟩
  | '\n' :: _ => ⟨[], 0, false⟩
  | '\\' :: '"' :: cs => (stringBody cs).push '"' 2
  | '\\' :: '\\' :: cs => (stringBody cs).push '\\' 2
  | c :: cs => (stringBody cs).push c 1

/-- The string after its opening quote. -/
def scanString (cs : List Char) : Piece :=
  let body := stringBody cs
  if body.closed then .token (.string (String.ofList body.value)) body.length
  else .fault .unterminatedString body.length

/-! ## Symbols -/

/-- A symbol, or the symbol that an equals sign after it makes. -/
def orWithEq (plain withEq : Symbol) : List Char → Piece
  | '=' :: _ => .symbol withEq 1
  | _ => .symbol plain 0

/-- One, two or three points. -/
def scanDots : List Char → Piece
  | '.' :: '.' :: _ => .symbol .ellipsis 2
  | '.' :: _ => .symbol .dotDot 1
  | _ => .symbol .dot 0

/-- A slash: a comment or an operator. -/
def scanSlash : List Char → Piece
  | '/' :: cs => .blank ((cs.takeWhile (· != '\n')).length + 1)
  | '*' :: cs =>
    match commentLength? cs with
    | some n => .blank (n + 1)
    | none => .fault .unterminatedComment (cs.length + 1)
  | cs => orWithEq .slash .slashEq cs

/-- The first piece of the text `c :: cs`. -/
def scan (c : Char) (cs : List Char) : Piece :=
  if isBlank c then .blank 0
  else if isWordStart c then scanWord c cs
  else if c.isDigit then scanNumber c cs
  else
    match c with
    | '"' => scanString cs
    | '(' => .symbol .lparen 0
    | ')' => .symbol .rparen 0
    | '\x7b' => .symbol .lbrace 0
    | '\x7d' => .symbol .rbrace 0
    | '[' => .symbol .lbracket 0
    | ']' => .symbol .rbracket 0
    | ',' => .symbol .comma 0
    | ';' => .symbol .semicolon 0
    | ':' => .symbol .colon 0
    | '.' => scanDots cs
    | '+' => orWithEq .plus .plusEq cs
    | '-' => orWithEq .minus .minusEq cs
    | '*' => orWithEq .star .starEq cs
    | '/' => scanSlash cs
    | '=' => orWithEq .eq .eqEq cs
    | '!' => orWithEq .bang .ne cs
    | '<' => orWithEq .lt .le cs
    | '>' => orWithEq .gt .ge cs
    | '|' => match cs with | '|' :: _ => .symbol .or 1 | _ => .symbol .pipe 0
    | '&' => match cs with | '&' :: _ => .symbol .and 1 | _ => .fault .loneAmpersand 0
    | c => .fault (.unexpectedChar c) 0

/-! ## The whole text -/

/-- The tokens of a text that starts at byte `start`. -/
def lexemes (start : Nat) : List Char → Except Error (List Lexeme)
  | [] => .ok [⟨.eof, ⟨start, start⟩⟩]
  | c :: cs =>
    let piece := scan c cs
    let stop := start + Text.width (c :: cs.take piece.extra)
    match piece.result with
    | .error fault => .error ⟨fault, ⟨start, stop⟩⟩
    | .ok none => lexemes stop (cs.drop piece.extra)
    | .ok (some t) => do return ⟨t, ⟨start, stop⟩⟩ :: (← lexemes stop (cs.drop piece.extra))
termination_by cs => cs.length
decreasing_by all_goals simp only [List.length_drop, List.length_cons]; omega

end Lexer

/-- The tokens of a source text, with the end of the text as the last one. -/
def Lexeme.ofSource (source : String) : Except Error (List Lexeme) :=
  Lexer.lexemes 0 source.toList

end RuleScript
