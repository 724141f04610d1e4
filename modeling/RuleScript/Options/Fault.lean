import RuleScript.Text.Span

/-!
# What can be wrong with an options file

An options file is read from the left, and the first thing that is wrong decides. Its category says
whether the text ended early, is malformed, or is well formed but does not describe options.

## Main definitions

* `OptionsFault`: the causes
* `OptionsFault.category`, `OptionsFault.message`: their categories and their wording
* `OptionsError`: a fault with its place
-/

namespace RuleScript

/-- What kind of thing is wrong. -/
inductive OptionsCategory
  /-- The text is malformed. -/
  | malformed
  /-- The text ended early. -/
  | eof
  /-- The text is well formed so far but does not describe options. -/
  | data
deriving DecidableEq, Repr

/-- The name of a category. -/
def OptionsCategory.label : OptionsCategory → String
  | malformed => "syntax"
  | eof => "eof"
  | data => "data"

/-- The causes for which an options file is refused. -/
inductive OptionsFault
  | eofInList
  | eofInObject
  | eofInString
  | eofInValue
  | expectedColon
  | expectedListEnd
  | expectedObjectEnd
  | expectedIdent
  | expectedValue
  | invalidEscape
  | invalidNumber
  | numberOutOfRange
  | controlCharacter
  | keyNotString
  | loneSurrogate
  | trailingComma
  | trailingText
  | hexEscapeEnd
  | unknownField (name : String) (known : List String)
  | duplicateField (name : String)
  | wrongType (given wanted : String)
  | wrongValue (given wanted : String)
deriving DecidableEq, Repr

namespace OptionsFault

/-- The category of a fault. -/
def category : OptionsFault → OptionsCategory
  | eofInList | eofInObject | eofInString | eofInValue => .eof
  | unknownField _ _ | duplicateField _ | wrongType _ _ | wrongValue _ _ => .data
  | _ => .malformed

/-- A name as it stands in a message. -/
def named (name : String) : String := "`" ++ name ++ "`"

/-- The wording of a fault. -/
def message : OptionsFault → String
  | eofInList => "EOF while parsing a list"
  | eofInObject => "EOF while parsing an object"
  | eofInString => "EOF while parsing a string"
  | eofInValue => "EOF while parsing a value"
  | expectedColon => "expected `:`"
  | expectedListEnd => "expected `,` or `]`"
  | expectedObjectEnd => "expected `,` or `\x7d`"
  | expectedIdent => "expected ident"
  | expectedValue => "expected value"
  | invalidEscape => "invalid escape"
  | invalidNumber => "invalid number"
  | numberOutOfRange => "number out of range"
  | controlCharacter => "control character (\\u0000-\\u001F) found while parsing a string"
  | keyNotString => "key must be a string"
  | loneSurrogate => "lone leading surrogate in hex escape"
  | trailingComma => "trailing comma"
  | trailingText => "trailing characters"
  | hexEscapeEnd => "unexpected end of hex escape"
  | unknownField name known =>
    "unknown field " ++ named name ++ ", expected one of " ++ ", ".intercalate (known.map named)
  | duplicateField name => "duplicate field " ++ named name
  | wrongType given wanted => "invalid type: " ++ given ++ ", expected " ++ wanted
  | wrongValue given wanted => "invalid value: " ++ given ++ ", expected " ++ wanted

end OptionsFault

/-- A fault, and the part of the text that was not read when it was met. -/
structure OptionsError where
  fault : OptionsFault
  unread : List Char

namespace OptionsError

/-- The characters after the last line feed. -/
def lastLine (cs : List Char) : List Char := (cs.reverse.takeWhile (· != '\n')).reverse

/-- The wording of an error in a text, with its line and the number of bytes read of that line. -/
def message (e : OptionsError) (text : String) : String :=
  let cs := text.toList
  let read := cs.take (cs.length - e.unread.length)
  e.fault.message ++ " at line " ++ (read.count '\n' + 1).repr ++ " column "
    ++ (Text.width (lastLine read)).repr

end OptionsError

end RuleScript
