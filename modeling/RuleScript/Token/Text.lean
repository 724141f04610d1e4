import RuleScript.Decimal.Layout
import RuleScript.Text.Quoted
import RuleScript.Token.Basic

/-!
# Tokens in messages

A message names a token by its kind, with what was written in parentheses where there is a choice.
-/

namespace RuleScript

namespace Token

/-- Numbers in messages always have a point or an exponent; the exponent is for numbers below `1e-4`
and from `1e16` on. -/
def numberLayout : Decimal.Layout := ⟨.up, some (-4, 15), true, false⟩

/-- The token as a message shows it. -/
def shown : Token → String
  | number x => "Number(" ++ numberLayout.render x ++ ")"
  | string s => "String(" ++ Text.quoted s ++ ")"
  | ident s => "Ident(" ++ Text.quoted s ++ ")"
  | t => t.kindName

end Token

end RuleScript
