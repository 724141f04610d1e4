import RuleScript.Fault
import RuleScript.Log
import RuleScript.Options.Basic
import RuleScript.Scope
import RuleScript.Slots
import RuleScript.Syntax.Basic

/-!
# What lowering knows and keeps

Lowering a program reads an environment: the declarations of the program, the limit on inlining, the
functions being inlined, and the open scopes. It keeps a state: the slots handed out, and the log. A
scope never outlives the statement it was opened for, so the scopes are not part of the state.

## Main definitions

* `Declarations.collect`: the functions and aliases of a program
* `Env`: what can be looked up at a place in a program
* `Lower`: the state and the errors of lowering
-/

namespace RuleScript

/-- The functions and aliases that a program declares. -/
structure Declarations where
  functions : Table FunctionDecl := .empty
  aliases : Table AliasDecl := .empty

namespace Declarations

/-- Adds a declaration; a name that is already taken is an error. -/
def add (d : Declarations) : Item → Except Error Declarations
  | .function f =>
    if d.functions.contains f.name then .error ⟨.functionRedeclared f.name, f.span⟩
    else .ok { d with functions := d.functions.insert f.name f }
  | .typeAlias a =>
    if d.aliases.contains a.name then .error ⟨.typeRedeclared a.name, a.span⟩
    else .ok { d with aliases := d.aliases.insert a.name a }
  | .event _ => .ok d

/-- The functions and aliases of a program. -/
def collect (program : Program) : Except Error Declarations := program.items.foldlM add {}

end Declarations

/-- What can be looked up at a place in a program. -/
structure Env where
  declarations : Declarations
  /-- How deeply calls may be inlined into each other. -/
  maxInlineDepth : Nat
  /-- The functions being inlined, the innermost first. -/
  inlining : List String := []
  scopes : Scopes := .empty

namespace Env

/-- The environment inside a new scope. -/
def push (env : Env) (kind : ScopeKind) : Env := { env with scopes := env.scopes.push kind }

end Env

/-- What lowering keeps. -/
structure LowerState where
  slots : Slots
  /-- The log, the latest entry first. -/
  log : List LogEntry := []

/-- Lowering: it may hand out slots, add to the log, and fail. -/
abbrev Lower := EStateM Error LowerState

namespace Lower

/-- Fails with a fault at a place. -/
def fail {α : Type} (fault : Fault) (span : Span) : Lower α := throw ⟨fault, span⟩

/-- What does not touch the state. -/
def ofExcept {α : Type} : Except Error α → Lower α
  | .ok a => pure a
  | .error e => throw e

/-- Adds an entry to the log. -/
def log (entry : LogEntry) : Lower Unit := modify fun s => { s with log := entry :: s.log }

/-- Takes a slot, and logs it if it is a new one. -/
def grant (take : Slots → Option Grant) (span : Span) : Lower Slot := do
  let slots := (← get).slots
  match take slots with
  | none => fail (.outOfSlots slots.limit) span
  | some c =>
    match c.new? with
    | some key => log (.allocated key.name key.depth c.slot)
    | none => pure ()
    modify fun s => { s with slots := c.slots }
    return c.slot

/-- The slot of a variable at a depth. -/
def intern (name : String) (depth : Nat) (span : Span) : Lower Slot :=
  grant (·.intern name depth) span

/-- A slot without a name. -/
def fresh (label : String) (span : Span) : Lower Slot := grant (·.fresh label) span

/-- Gives a variable its slot and declares it in the innermost scope. -/
def declareSlot (scopes : Scopes) (name : String) (ty : Ty) (mutable : Bool) (span : Span) :
    Lower (Slot × Scopes) := do
  let slot ← intern name scopes.depth span
  return (slot, scopes.declare name ⟨ty, mutable, .slot slot⟩)

end Lower

end RuleScript
