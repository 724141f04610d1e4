/-!
# Options

What can be chosen when a program is compiled.
-/

namespace RuleScript

/-- The options of the compiler, with their defaults. -/
structure Options where
  /-- Whether constants are folded. -/
  optimize : Bool := true
  /-- The name of the array that all variables live in. -/
  variableArray : String := "Vars"
  /-- How many slots there are. -/
  maxSlots : Nat := 1000
  /-- How deeply calls may be inlined into each other. -/
  maxInlineDepth : Nat := 16
deriving DecidableEq, Inhabited, Repr

end RuleScript
