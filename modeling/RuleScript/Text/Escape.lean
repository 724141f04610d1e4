/-!
# Quoted text in rules

Inside the quotes of a rule text a double quote and a backslash stand behind a backslash, and every
other character stands for itself.
-/

namespace RuleScript

namespace Text

/-- One character inside quotes. -/
def escapeChar (c : Char) : List Char :=
  if c = '\\' ∨ c = '"' then ['\\', c] else [c]

/-- The characters of a text as they stand inside quotes. -/
def escape (text : String) : String :=
  String.ofList (text.toList.flatMap escapeChar)

end Text

end RuleScript
