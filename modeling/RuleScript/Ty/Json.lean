import RuleScript.Json
import RuleScript.Ty.Basic

/-!
# Types as data
-/

namespace RuleScript

namespace Ty

mutual

/-- The JSON form of a type. -/
def toJson : Ty → Json
  | native name => .tagged "Native" (.str name)
  | array item => .tagged "Array" item.toJson
  | function params ret =>
    .tagged "Function" (.obj [("params", .arr (toJsonList params)), ("ret", toJsonOption ret)])
  | variadic inner => .tagged "Variadic" inner.toJson
  | generic name bound =>
    .tagged "Generic" (.obj [("name", .str name), ("bound", toJsonOption bound)])
  | union members => .tagged "Union" (.arr (toJsonList members))

/-- The JSON forms of some types. -/
def toJsonList : List Ty → List Json
  | [] => []
  | t :: ts => t.toJson :: toJsonList ts

/-- The JSON form of a type that may be missing. -/
def toJsonOption : Option Ty → Json
  | none => .null
  | some t => t.toJson

end

end Ty

end RuleScript
