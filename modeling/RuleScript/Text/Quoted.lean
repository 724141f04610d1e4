import RuleScript.Text.Unprintable

/-!
# Quoted text in messages

A message shows a text between double quotes. The quote, the backslash and the usual controls get a
short escape, and a character that cannot be shown is given by its number in lower-case
hexadecimal between braces.
-/

namespace RuleScript

namespace Text

/-- The number of a character in lower-case hexadecimal, between braces. -/
def numbered (c : Char) : List Char :=
  "\\u\x7b".toList ++ Nat.toDigits 16 c.toNat ++ ['\x7d']

/-- The way a message shows one character. -/
def quoteChar (c : Char) : List Char :=
  match c with
  | '"' => ['\\', '"']
  | '\\' => ['\\', '\\']
  | '\n' => ['\\', 'n']
  | '\r' => ['\\', 'r']
  | '\t' => ['\\', 't']
  | '\x00' => ['\\', '0']
  | c => if isUnprintable c then numbered c else [c]

/-- A text as a message shows it, quotes included. -/
def quoted (text : String) : String :=
  String.ofList ('"' :: text.toList.flatMap quoteChar ++ ['"'])

end Text

end RuleScript
