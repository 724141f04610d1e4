import RuleScript.Ty.Basic

/-!
# Types as text

A type is shown the way it is written: a union or a function type that is the item of an array
stands in parentheses. A generic, which has no written form of its own, stands between angle
brackets.
-/

namespace RuleScript

namespace Ty

/-- Whether the type needs parentheses as the item of an array. -/
def needsParens : Ty → Bool
  | function _ _ => true
  | union _ => true
  | _ => false

mutual

/-- The text of a type. -/
def text : Ty → String
  | native name => name
  | array item => if item.needsParens then "(" ++ text item ++ ")[]" else text item ++ "[]"
  | function params ret => "fn(" ++ textList ", " params ++ ")" ++ textRet ret
  | variadic inner => "..." ++ text inner
  | generic name bound => "<" ++ name ++ textRet bound ++ ">"
  | union members => textList " | " members

/-- The texts of some types with a separator between them. -/
def textList (sep : String) : List Ty → String
  | [] => ""
  | t :: ts => text t ++ textTail sep ts

/-- The texts of some types with a separator before each. -/
def textTail (sep : String) : List Ty → String
  | [] => ""
  | t :: ts => sep ++ text t ++ textTail sep ts

/-- What follows a colon: a return type or a bound. -/
def textRet : Option Ty → String
  | none => ""
  | some t => ": " ++ text t

end

instance : ToString Ty := ⟨text⟩

end Ty

end RuleScript
