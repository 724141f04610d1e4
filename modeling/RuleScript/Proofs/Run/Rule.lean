import RuleScript.Proofs.Run.Target
import RuleScript.Rule.Basic

/-!
# Running rules

The values and actions of a rule run on one array of cells, which starts with arbitrary contents.
Types do not matter for what a rule does; they matter only to the guard of a run, which is asked at
every read whether the datum that was found suits the type of the read. The guard `fun _ _ => true`
refuses nothing.

Every loop takes at most `rounds` rounds, and a run in which a loop has none left says so. What is
proved about runs is proved for every bound, so it holds of rules that do not end as well.

## Main definitions

* `Cells`, `Memory`: the array of variables, alone and with the effects so far
* `Value.eval`: the datum of a value
* `Action.exec`, `Action.execBody`: running actions
* `Rule.run`: running a rule
-/

namespace RuleScript

/-- The array of variables; an element is missing as long as nothing was stored in it. -/
abbrev Cells (target : Target) := Slot → Option (Datum target.Thing)

/-- The array with a datum stored in a slot. -/
def Cells.set {target : Target} (cells : Cells target) (slot : Slot) (d : Datum target.Thing) :
    Cells target :=
  fun s => if s = slot then some d else cells s

/-- The array and the effects so far. -/
abbrev Memory (target : Target) := Running target (Cells target)

/-- Whether a datum may be read at a type. -/
abbrev Guard (target : Target) := Ty → Datum target.Thing → Bool

variable {target : Target}

/-- Reads an element of the array. -/
def load (guard : Guard target) (ty : Ty) (found : Option (Datum target.Thing)) :
    Computation target (Datum target.Thing) :=
  match found with
  | none => .ofOption target.unset
  | some d => if guard ty d then pure d else throw .misread

namespace Value

mutual

/-- The datum of a value. -/
def eval (guard : Guard target) (cells : Cells target) :
    Value → Computation target (Datum target.Thing)
  | binary _ op lhs rhs => do
    let a ← lhs.eval guard cells
    let b ← rhs.eval guard cells
    op.apply a b
  | not _ operand => do Computation.negate (← operand.eval guard cells)
  | index _ a i => do
    let a ← a.eval guard cells
    let i ← i.eval guard cells
    Computation.item a i
  | call _ name args => do Computation.value name (← evalList guard cells args)
  | constant _ text => Computation.constant text
  | read ty slot => load guard ty (cells slot)
  | number _ x => pure (.number x)
  | string _ s => pure (.text s)
  | template _ s => pure (.text s)
  | boolean _ b => pure (.truth b)
  | array _ items => do return .list (← evalList guard cells items)

/-- The data of some values, from left to right. -/
def evalList (guard : Guard target) (cells : Cells target) :
    List Value → Computation target (List (Datum target.Thing))
  | [] => return []
  | v :: vs => do
    let d ← v.eval guard cells
    return d :: (← evalList guard cells vs)

end

/-- The truth value of a value. -/
def truth (guard : Guard target) (cells : Cells target) (v : Value) : Computation target Bool := do
  Computation.truth (← v.eval guard cells)

end Value

namespace Action

open RuleScript.Computation (beside)

/-- Stores the datum of a value. -/
def store (guard : Guard target) (slot : Slot) (value : Value) :
    EStateM Halt (Memory target) Exit := do
  let d ← beside fun cells => value.eval guard cells
  modify fun m => { m with store := m.store.set slot d }
  return .normal

mutual

/-- Runs an action. -/
def exec (guard : Guard target) (rounds : Nat) : Action → EStateM Halt (Memory target) Exit
  | block body => execBody guard rounds body
  | branch condition body => do
    if ← beside fun cells => condition.truth guard cells then execBody guard rounds body
    else return .normal
  | loop condition body => do
    iterate
      (do
        if ← beside fun cells => condition.truth guard cells then
          return (← execBody guard rounds body).goesOn
        else return false)
      rounds
    return .normal
  | declare slot _ value => store guard slot value
  | assign slot value => store guard slot value
  | assignField object field value => do
    let o ← beside fun cells => object.eval guard cells
    let d ← beside fun cells => value.eval guard cells
    beside fun _ => Computation.assignField o field d
    return .normal
  | call name args => do
    let ds ← beside fun cells => Value.evalList guard cells args
    beside fun _ => Computation.action name ds
    return .normal
  | stop => return .stop
  | next => return .next
  | noop => return .normal

/-- Runs actions one after the other, up to the first that does not end normally. -/
def execBody (guard : Guard target) (rounds : Nat) :
    List Action → EStateM Halt (Memory target) Exit
  | [] => return .normal
  | a :: as => do
    match ← a.exec guard rounds with
    | .normal => execBody guard rounds as
    | exit => return exit

end

end Action

/-- Runs the actions of a rule. -/
def Rule.run (guard : Guard target) (rounds : Nat) (rule : Rule) :
    EStateM Halt (Memory target) Exit :=
  Action.execBody guard rounds rule.body

end RuleScript
