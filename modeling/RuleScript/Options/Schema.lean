import RuleScript.Json
import RuleScript.Options.Basic

/-!
# The schema of options files

The JSON schema that describes an options file.
-/

namespace RuleScript

namespace Options

/-- The schema of a count with a default. -/
def countSchema (description : String) (default : Nat) : Json :=
  .obj [("description", .str description), ("default", .nat default), ("type", .str "integer"),
    ("format", .str "uint"), ("minimum", .number 0.0)]

/-- The schema of an option of another type. -/
def plainSchema (description : String) (default : Json) (ty : String) : Json :=
  .obj [("description", .str description), ("default", default), ("type", .str ty)]

/-- The schema of an options file. -/
def schema : Json :=
  let defaults : Options := {}
  .obj [
    ("$schema", .str "http://json-schema.org/draft-07/schema#"),
    ("title", .str "Options"),
    ("description",
      .str "Compiler options, loaded from a JSON file or left at their defaults."),
    ("type", .str "object"),
    ("properties", .obj [
      ("max_inline_depth",
        countSchema "How deeply user function calls may be inlined into each other."
          defaults.maxInlineDepth),
      ("max_slots",
        countSchema "Number of storage slots available before compilation fails."
          defaults.maxSlots),
      ("optimize",
        plainSchema "Run constant folding before assembly." (.bool defaults.optimize) "boolean"),
      ("variable_array",
        plainSchema "Name of the global array every variable lives in."
          (.str defaults.variableArray) "string")]),
    ("additionalProperties", .bool false)]

end Options

end RuleScript
