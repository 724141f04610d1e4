import RuleScript.Operator
import RuleScript.Text.Span

/-!
# Tokens

The words of the language. Keywords and symbols have one spelling each; numbers, strings and
identifiers carry what was written; the end of the text is a token of its own.

## Main definitions

* `Keyword`, `Symbol`: the tokens of fixed spelling
* `Token`: all tokens
* `Lexeme`: a token with its place in the source
-/

namespace RuleScript

/-- The reserved words. -/
inductive Keyword
  | let_
  | const_
  | function_
  | event_
  | type_
  | if_
  | else_
  | while_
  | for_
  | in_
  | return_
  | break_
  | continue_
  | typeOf
  | fn_
  | true_
  | false_
deriving DecidableEq, Repr

namespace Keyword

/-- All reserved words. -/
def all : List Keyword :=
  [let_, const_, function_, event_, type_, if_, else_, while_, for_, in_, return_, break_,
   continue_, typeOf, fn_, true_, false_]

/-- The word as it is written. -/
def spelling : Keyword → String
  | let_ => "let"
  | const_ => "const"
  | function_ => "function"
  | event_ => "event"
  | type_ => "type"
  | if_ => "if"
  | else_ => "else"
  | while_ => "while"
  | for_ => "for"
  | in_ => "in"
  | return_ => "return"
  | break_ => "break"
  | continue_ => "continue"
  | typeOf => "typeof"
  | fn_ => "fn"
  | true_ => "true"
  | false_ => "false"

/-- The name of the word in messages and data. -/
def name : Keyword → String
  | let_ => "Let"
  | const_ => "Const"
  | function_ => "Function"
  | event_ => "Event"
  | type_ => "Type"
  | if_ => "If"
  | else_ => "Else"
  | while_ => "While"
  | for_ => "For"
  | in_ => "In"
  | return_ => "Return"
  | break_ => "Break"
  | continue_ => "Continue"
  | typeOf => "TypeOf"
  | fn_ => "Fn"
  | true_ => "True"
  | false_ => "False"

/-- The reserved word of a spelling. -/
def ofSpelling? (word : String) : Option Keyword := all.find? (·.spelling = word)

end Keyword

/-- Punctuation and operators. -/
inductive Symbol
  | lparen
  | rparen
  | lbrace
  | rbrace
  | lbracket
  | rbracket
  | comma
  | semicolon
  | colon
  | dot
  | dotDot
  | ellipsis
  | eq
  | plusEq
  | minusEq
  | starEq
  | slashEq
  | plus
  | minus
  | star
  | slash
  | eqEq
  | ne
  | lt
  | le
  | gt
  | ge
  | and
  | or
  | bang
  | pipe
deriving DecidableEq, Repr

namespace Symbol

/-- The symbol as it is written. -/
def spelling : Symbol → String
  | lparen => "("
  | rparen => ")"
  | lbrace => "\x7b"
  | rbrace => "\x7d"
  | lbracket => "["
  | rbracket => "]"
  | comma => ","
  | semicolon => ";"
  | colon => ":"
  | dot => "."
  | dotDot => ".."
  | ellipsis => "..."
  | eq => "="
  | plusEq => "+="
  | minusEq => "-="
  | starEq => "*="
  | slashEq => "/="
  | plus => "+"
  | minus => "-"
  | star => "*"
  | slash => "/"
  | eqEq => "=="
  | ne => "!="
  | lt => "<"
  | le => "<="
  | gt => ">"
  | ge => ">="
  | and => "&&"
  | or => "||"
  | bang => "!"
  | pipe => "|"

/-- The name of the symbol in messages and data. -/
def name : Symbol → String
  | lparen => "LParen"
  | rparen => "RParen"
  | lbrace => "LBrace"
  | rbrace => "RBrace"
  | lbracket => "LBracket"
  | rbracket => "RBracket"
  | comma => "Comma"
  | semicolon => "Semicolon"
  | colon => "Colon"
  | dot => "Dot"
  | dotDot => "DotDot"
  | ellipsis => "Ellipsis"
  | eq => "Eq"
  | plusEq => "PlusEq"
  | minusEq => "MinusEq"
  | starEq => "StarEq"
  | slashEq => "SlashEq"
  | plus => "Plus"
  | minus => "Minus"
  | star => "Star"
  | slash => "Slash"
  | eqEq => "EqEq"
  | ne => "Ne"
  | lt => "Lt"
  | le => "Le"
  | gt => "Gt"
  | ge => "Ge"
  | and => "And"
  | or => "Or"
  | bang => "Bang"
  | pipe => "Pipe"

/-- The binary operator that a symbol writes. -/
def operator? : Symbol → Option BinOp
  | plus => some .add
  | minus => some .sub
  | star => some .mul
  | slash => some .div
  | eqEq => some .eq
  | ne => some .ne
  | lt => some .lt
  | le => some .le
  | gt => some .gt
  | ge => some .ge
  | and => some .and
  | or => some .or
  | _ => none

/-- The operator of a compound assignment such as `+=`. -/
def compound? : Symbol → Option BinOp
  | plusEq => some .add
  | minusEq => some .sub
  | starEq => some .mul
  | slashEq => some .div
  | _ => none

end Symbol

/-- The tokens of the language. -/
inductive Token
  | number (value : Float)
  | string (value : String)
  | ident (name : String)
  | keyword (word : Keyword)
  | symbol (mark : Symbol)
  | eof
deriving DecidableEq

namespace Token

/-- The name of the token's kind in data. -/
def kindName : Token → String
  | number _ => "Number"
  | string _ => "String"
  | ident _ => "Ident"
  | keyword k => k.name
  | symbol s => s.name
  | eof => "Eof"

end Token

/-- A token with its place in the source. -/
structure Lexeme where
  token : Token
  span : Span
deriving DecidableEq

end RuleScript
