import RuleScript.Table
import RuleScript.Ty.Basic

/-!
# Type compatibility

`satisfies constraint candidate` asks whether a value of type `candidate` may stand where
`constraint` is wanted. A generic in the constraint takes the first candidate it meets as its
binding, and that binding then stands in for it.

A binding may mention the generic it belongs to, and then a comparison need not end. The comparison
therefore counts the steps it goes down, and gives up beyond what the sizes of the types at hand can
need.

## Main definitions

* `Bindings`: what the generics stand for so far
* `Solve.compare`: the comparison with a bound on its depth
* `Solve.satisfies`: the comparison with a bound taken from the sizes of the types
-/

namespace RuleScript

/-- What the generics stand for so far. -/
abbrev Bindings := Table Ty

/-- Why a comparison of types has no answer. -/
inductive SolveError
  /-- A generic was met on the candidate's side before it had a binding. -/
  | undefinedGeneric (name : String)
  /-- A binding leads back to itself. -/
  | endless
deriving DecidableEq

namespace SolveError

/-- The wording of the error. -/
def message : SolveError → String
  | undefinedGeneric name => "Undefined generic " ++ name ++ " while solving"
  | endless => "Comparing the types does not end"

end SolveError

/-- A comparison: it may bind generics, and what it has bound stays bound when it fails. -/
abbrev Solve := EStateM SolveError Bindings

namespace Solve

/-- Walks two lists together: every element of the first needs a partner in the second. -/
def eachWith {α β : Type} (check : α → β → Solve Bool) : List α → List β → Solve Bool
  | [], _ => pure true
  | _ :: _, [] => pure false
  | a :: as, b :: bs => do
    if ← check a b then eachWith check as bs else pure false

/-- Whether some element passes; the first that does ends the search. -/
def some? {α : Type} (check : α → Solve Bool) : List α → Solve Bool
  | [] => pure false
  | a :: as => do
    if ← check a then pure true else some? check as

/-- Whether every element passes; the first that does not ends the search. -/
def all? {α : Type} (check : α → Solve Bool) : List α → Solve Bool
  | [] => pure true
  | a :: as => do
    if ← check a then all? check as else pure false

/-- What a generic stands for; it is an error if it stands for nothing yet. -/
def bindingOf (name : String) : Solve Ty := do
  match (← get).get? name with
  | some ty => pure ty
  | none => throw (.undefinedGeneric name)

/-- Whether the binding of a generic meets a bound, if there is a bound. -/
def meetsBound (check : Ty → Ty → Solve Bool) (bound : Option Ty) (name : String) : Solve Bool :=
  match bound with
  | none => pure true
  | some bound => do check bound (← bindingOf name)

/-- Whether both types have the same outermost form. -/
def sameForm : Ty → Ty → Bool
  | .native _, .native _ => true
  | .array _, .array _ => true
  | .function _ _, .function _ _ => true
  | .variadic _, .variadic _ => true
  | .generic _ _, .generic _ _ => true
  | .union _, .union _ => true
  | _, _ => false

/-- One level of the comparison, given the comparison of the types inside. -/
def step (check : Ty → Ty → Solve Bool) (constraint candidate : Ty) : Solve Bool :=
  if constraint = .any then pure true
  else
    match constraint, candidate with
    | .function cs c, .function ks k => do
      -- Each list is walked along the other, so the lengths have to agree.
      if !(← eachWith check cs ks) then return false
      if !(← eachWith (fun k c => check c k) ks cs) then return false
      match c, k with
      | none, none => pure true
      | some c, some k => check c k
      | _, _ => pure false
    | .variadic inner, candidate => check inner candidate
    | .array c, .array k => check c k
    | .generic name bound, .generic other otherBound => do
      if name ≠ other then return false
      if !(← meetsBound check bound name) then return false
      meetsBound check otherBound name
    | .generic name bound, candidate => do
      match (← get).get? name with
      -- The first candidate is the binding, and all later ones are compared with it.
      | some ty => check ty candidate
      | none =>
        match bound with
        | none => pure ()
        | some bound => if !(← check bound candidate) then return false
        modify (·.insert name candidate)
        pure true
    -- Every member of the candidate has to find a place.
    | .union members, .union others => all? (fun k => some? (check · k) members) others
    | .union members, candidate => some? (check · candidate) members
    | .native c, .native k => pure (c == k)
    | constraint, candidate => pure (sameForm constraint candidate)

/-- The comparison down to a depth. -/
def compare : Nat → Ty → Ty → Solve Bool
  | 0, _, _ => throw .endless
  | depth + 1, constraint, candidate => step (compare depth) constraint candidate

/-- The sizes of all bindings together. -/
def bindingsSize (bindings : Bindings) : Nat :=
  bindings.entries.foldr (fun entry n => entry.2.size + n) 0

/-- A depth that no comparison of these types exceeds unless it comes back to a pair of types it has
met before with nothing bound in between. -/
def depthBound (bindings : Bindings) (constraint candidate : Ty) : Nat :=
  let n := constraint.size + candidate.size + bindingsSize bindings + 1
  n * n * n

/-- Whether a value of type `candidate` may stand where `constraint` is wanted. -/
def satisfies (constraint candidate : Ty) : Solve Bool := do
  compare (depthBound (← get) constraint candidate) constraint candidate

end Solve

end RuleScript
