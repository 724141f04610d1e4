import RuleScript.Rule.Basic
import RuleScript.Table

/-!
# Scopes

The open scopes at a place in a program, the innermost first. What is declared inside an inlined
function stays apart from its caller: looking up a name or a loop ends at the nearest function.

## Main definitions

* `Binding`: what a name stands for
* `ScopeKind`, `Scope`, `Scopes`: one scope, and all that are open
* `Scopes.binding?`, `Scopes.type?`: looking up names
* `Scopes.enclosingLoop?`, `Scopes.enclosingFunction?`: what can be left or returned from
-/

namespace RuleScript

/-- Where the return value of a call is stored. -/
structure ReturnSlot where
  slot : Slot
  ty : Ty

/-- What a scope was opened for. -/
inductive ScopeKind
  | block
  /-- The body of a loop, with the action that comes before each new round, if there is one. -/
  | loop (step : Option Action)
  /-- The body of an inlined function. -/
  | function (name : String) (ret : Option ReturnSlot)

/-- Whether the scope is the body of an inlined function. -/
def ScopeKind.isFunction : ScopeKind → Bool
  | function _ _ => true
  | _ => false

/-- Where the value of a name is. -/
inductive Storage
  | slot (slot : Slot)
  /-- Text of the target, for what a trigger provides. -/
  | constant (text : String)

/-- What a name stands for. -/
structure Binding where
  ty : Ty
  mutable : Bool
  value : Storage

/-- One scope. -/
structure Scope where
  kind : ScopeKind
  bindings : Table Binding := .empty
  types : Table Ty := .empty

/-- The open scopes, the innermost first. -/
structure Scopes where
  open_ : List Scope := []

namespace Scopes

/-- No scope is open. -/
def empty : Scopes := ⟨[]⟩

/-- Opens a scope. -/
def push (s : Scopes) (kind : ScopeKind) : Scopes := ⟨{ kind } :: s.open_⟩

/-- Closes the innermost scope. -/
def pop (s : Scopes) : Scopes := ⟨s.open_.tail⟩

/-- How many scopes are open. -/
def depth (s : Scopes) : Nat := s.open_.length

@[simp] theorem pop_push (s : Scopes) (kind : ScopeKind) : (s.push kind).pop = s := rfl

@[simp] theorem depth_push (s : Scopes) (kind : ScopeKind) :
    (s.push kind).depth = s.depth + 1 := rfl

/-- The innermost scope. -/
def current? (s : Scopes) : Option Scope := s.open_.head?

/-- Changes the innermost scope, if one is open. -/
def modifyCurrent (s : Scopes) (f : Scope → Scope) : Scopes :=
  match s.open_ with
  | [] => s
  | scope :: outer => ⟨f scope :: outer⟩

@[simp] theorem depth_modifyCurrent (s : Scopes) (f : Scope → Scope) :
    (s.modifyCurrent f).depth = s.depth := by
  unfold modifyCurrent depth
  split <;> simp_all

/-- Whether a variable is declared in the innermost scope. -/
def declaredHere (s : Scopes) (name : String) : Bool :=
  match s.current? with
  | none => false
  | some scope => scope.bindings.contains name

/-- Declares a variable in the innermost scope. -/
def declare (s : Scopes) (name : String) (binding : Binding) : Scopes :=
  s.modifyCurrent fun scope => { scope with bindings := scope.bindings.insert name binding }

/-- Declares a type in the innermost scope. -/
def declareType (s : Scopes) (name : String) (ty : Ty) : Scopes :=
  s.modifyCurrent fun scope => { scope with types := scope.types.insert name ty }

/-- Changes what the innermost scope is for. -/
def setKind (s : Scopes) (kind : ScopeKind) : Scopes :=
  s.modifyCurrent fun scope => { scope with kind }

/-- The scopes up to and including the nearest function. -/
def upToFunction : List Scope → List Scope
  | [] => []
  | scope :: outer => if scope.kind.isFunction then [scope] else scope :: upToFunction outer

/-- The scopes whose names can be seen, the innermost first. -/
def visible (s : Scopes) : List Scope := upToFunction s.open_

/-- The variable of a name. -/
def binding? (s : Scopes) (name : String) : Option Binding :=
  s.visible.findSome? (·.bindings.get? name)

/-- The type of a name. -/
def type? (s : Scopes) (name : String) : Option Ty :=
  s.visible.findSome? (·.types.get? name)

/-- The action before a new round of the nearest loop among the scopes, if there is a loop. -/
def loopAmong : List Scope → Option (Option Action)
  | [] => none
  | scope :: outer =>
    match scope.kind with
    | .loop step => some step
    -- The loops of the caller cannot be left from inside a function.
    | .function _ _ => none
    | .block => loopAmong outer

/-- The action before a new round of the nearest loop, if there is a loop on this side of the
nearest function. -/
def enclosingLoop? (s : Scopes) : Option (Option Action) := loopAmong s.open_

/-- The name and the return slot of the nearest function. -/
def enclosingFunction? (s : Scopes) : Option (String × Option ReturnSlot) :=
  s.open_.findSome? fun scope =>
    match scope.kind with
    | .function name ret => some (name, ret)
    | _ => none

end Scopes

end RuleScript
