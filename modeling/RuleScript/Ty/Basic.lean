/-!
# Types

The types of the language. A native type has only a name: the primitive ones are `number`, `string`,
`boolean` and `any`, and every other name is a type of the target that the language knows nothing
about.

## Main definitions

* `Ty`: the types
* `Ty.hasGeneric`: whether a generic occurs outside the bound of another
* `Ty.generics`: the names of all generics in a type, those inside bounds included
-/

namespace RuleScript

/-- The types of the language. -/
inductive Ty
  | native (name : String)
  | array (item : Ty)
  | function (params : List Ty) (ret : Option Ty)
  | variadic (inner : Ty)
  | generic (name : String) (bound : Option Ty)
  | union (members : List Ty)
deriving Inhabited

namespace Ty

/-- The type that everything satisfies. -/
def any : Ty := native "any"

/-- The type of numbers. -/
def number : Ty := native "number"

/-- The type of texts. -/
def string : Ty := native "string"

/-- The type of truth values. -/
def boolean : Ty := native "boolean"

/-- The type of players, the only values that have fields. -/
def player : Ty := native "player"

/-! ## Equality -/

mutual

/-- Structural equality as a test. -/
def same : Ty → Ty → Bool
  | native a, native b => a == b
  | array a, array b => same a b
  | function ps r, function qs s => sameList ps qs && sameOption r s
  | variadic a, variadic b => same a b
  | generic n b, generic m c => n == m && sameOption b c
  | union ts, union us => sameList ts us
  | _, _ => false

/-- Structural equality of lists of types. -/
def sameList : List Ty → List Ty → Bool
  | [], [] => true
  | t :: ts, u :: us => same t u && sameList ts us
  | _, _ => false

/-- Structural equality of types that may be missing. -/
def sameOption : Option Ty → Option Ty → Bool
  | none, none => true
  | some t, some u => same t u
  | _, _ => false

end

mutual

theorem same_iff : ∀ a b : Ty, same a b = true ↔ a = b
  | native _, b => by cases b <;> simp [same]
  | array a, b => by cases b <;> simp [same, same_iff a]
  | function ps r, b => by cases b <;> simp [same, sameList_iff ps, sameOption_iff r]
  | variadic a, b => by cases b <;> simp [same, same_iff a]
  | generic _ b, c => by cases c <;> simp [same, sameOption_iff b]
  | union ts, b => by cases b <;> simp [same, sameList_iff ts]

theorem sameList_iff : ∀ ts us : List Ty, sameList ts us = true ↔ ts = us
  | [], us => by cases us <;> simp [sameList]
  | t :: ts, us => by cases us <;> simp [sameList, same_iff t, sameList_iff ts]

theorem sameOption_iff : ∀ a b : Option Ty, sameOption a b = true ↔ a = b
  | none, b => by cases b <;> simp [sameOption]
  | some t, b => by cases b <;> simp [sameOption, same_iff t]

end

instance : DecidableEq Ty := fun a b => decidable_of_iff _ (same_iff a b)

/-! ## Views -/

/-- The item type of an array type. -/
def item? : Ty → Option Ty
  | array item => some item
  | _ => none

/-- Whether the type is variadic. -/
def isVariadic : Ty → Bool
  | variadic _ => true
  | _ => false

mutual

/-- Whether a generic occurs in the type. The bound of a generic is not looked at, since the generic
itself already counts. -/
def hasGeneric : Ty → Bool
  | native _ => false
  | array t => hasGeneric t
  | function ps r => anyGeneric ps || optionGeneric r
  | variadic t => hasGeneric t
  | generic _ _ => true
  | union ts => anyGeneric ts

/-- Whether a generic occurs in one of the types. -/
def anyGeneric : List Ty → Bool
  | [] => false
  | t :: ts => hasGeneric t || anyGeneric ts

/-- Whether a generic occurs in a type that may be missing. -/
def optionGeneric : Option Ty → Bool
  | none => false
  | some t => hasGeneric t

end

mutual

/-- The names of all generics in the type, those inside bounds included. -/
def generics : Ty → List String
  | native _ => []
  | array t => generics t
  | function ps r => genericsList ps ++ genericsOption r
  | variadic t => generics t
  | generic n b => n :: genericsOption b
  | union ts => genericsList ts

/-- The names of all generics in the types. -/
def genericsList : List Ty → List String
  | [] => []
  | t :: ts => generics t ++ genericsList ts

/-- The names of all generics in a type that may be missing. -/
def genericsOption : Option Ty → List String
  | none => []
  | some t => generics t

end

mutual

/-- The number of constructors in the type. -/
def size : Ty → Nat
  | native _ => 1
  | array t => size t + 1
  | function ps r => sizeList ps + sizeOption r + 1
  | variadic t => size t + 1
  | generic _ b => sizeOption b + 1
  | union ts => sizeList ts + 1

/-- The number of constructors in the types. -/
def sizeList : List Ty → Nat
  | [] => 0
  | t :: ts => size t + sizeList ts

/-- The number of constructors in a type that may be missing. -/
def sizeOption : Option Ty → Nat
  | none => 0
  | some t => size t

end

end Ty

end RuleScript
