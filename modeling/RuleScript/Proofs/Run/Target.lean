import RuleScript.Operator
import RuleScript.Ty.Basic

/-!
# What rules run on

A rule runs against a target: a world that actions change, and the meaning of the texts and
operations that are left to the target. Nothing is assumed about a target, so a statement about all
targets is a statement about every way to read the texts.

A computation reads and changes the effects so far. It may also halt, and the effects up to then
stay.

## Main definitions

* `Datum`: what a value is when a rule runs
* `Target`: what the target makes of texts and operations
* `Effects`, `Halt`, `Computation`: what a run leaves behind, and why it may end early
* `BinOp.apply`: an operation on two data
* `iterate`: rounds of a loop, with a bound on their number
-/

namespace RuleScript

/-- What a value is when a rule runs. Players, vectors and the like are things of the target. -/
inductive Datum (Thing : Type)
  | number (x : Float)
  | text (s : String)
  | truth (b : Bool)
  | list (items : List (Datum Thing))
  | thing (t : Thing)

/-- What the target makes of texts and operations. Where it gives nothing, the run is stuck. -/
structure Target where
  World : Type
  Thing : Type
  constant : String → World → Option (Datum Thing)
  /-- A value may depend on the world and may change it. -/
  value : String → List (Datum Thing) → World → Option (Datum Thing × World)
  action : String → List (Datum Thing) → World → Option World
  assignField : Datum Thing → String → Datum Thing → World → Option World
  /-- The item of an array at a place. -/
  item : List (Datum Thing) → Float → Option (Datum Thing)
  /-- A division by zero, and an operation on numbers whose result is not finite. -/
  beyond : BinOp → Float → Float → Option (Datum Thing)
  /-- A comparison that is not between two numbers, nor an equality of texts or truth values. -/
  compare : BinOp → Datum Thing → Datum Thing → World → Option Bool
  /-- What is read where nothing was stored. -/
  unset : Option (Datum Thing)

/-- Something that a run does to the world. -/
inductive Effect (Thing : Type)
  | action (name : String) (args : List (Datum Thing))
  | assignField (object : Datum Thing) (field : String) (value : Datum Thing)

/-- What a run did so far: the world it led to, and the effects with the latest first. -/
structure Effects (target : Target) where
  world : target.World
  trace : List (Effect target.Thing)

/-- Why a run ends early. -/
inductive Halt
  /-- An operand has the wrong kind, or the target gives nothing. -/
  | stuck
  /-- A variable or a return value is read that was never stored. -/
  | undefined
  /-- A read finds what the guard of the run refuses. -/
  | misread
  /-- A loop takes more rounds, or a call goes deeper, than the run allows. -/
  | timeout
deriving DecidableEq, Repr

/-- A computation on the effects so far. -/
abbrev Computation (target : Target) := EStateM Halt (Effects target)

/-- A computation that also reads and changes a store. -/
structure Running (target : Target) (σ : Type) where
  store : σ
  effects : Effects target

namespace Computation

variable {target : Target} {α σ : Type}

/-- What may be missing; then the run is stuck. -/
def ofOption : Option α → Computation target α
  | some a => pure a
  | none => throw .stuck

/-- A truth value; the run is stuck on any other datum. -/
def truth : Datum target.Thing → Computation target Bool
  | .truth b => pure b
  | _ => throw .stuck

/-- A constant of the target. -/
def constant (text : String) : Computation target (Datum target.Thing) := do
  ofOption (target.constant text (← get).world)

/-- A value of the target. -/
def value (name : String) (args : List (Datum target.Thing)) :
    Computation target (Datum target.Thing) := do
  let (d, world) ← ofOption (target.value name args (← get).world)
  modify fun e => { e with world }
  return d

/-- An action of the target. -/
def action (name : String) (args : List (Datum target.Thing)) : Computation target Unit := do
  let world ← ofOption (target.action name args (← get).world)
  modify fun e => ⟨world, .action name args :: e.trace⟩

/-- An assignment to a field. -/
def assignField (object : Datum target.Thing) (field : String) (d : Datum target.Thing) :
    Computation target Unit := do
  let world ← ofOption (target.assignField object field d (← get).world)
  modify fun e => ⟨world, .assignField object field d :: e.trace⟩

/-- The item of an array at a place. -/
def item : Datum target.Thing → Datum target.Thing → Computation target (Datum target.Thing)
  | .list items, .number place => ofOption (target.item items place)
  | _, _ => throw .stuck

/-- The negation of a truth value. -/
def negate (d : Datum target.Thing) : Computation target (Datum target.Thing) := do
  return .truth (!(← truth d))

/-- Runs a computation beside a store, which it may read. -/
def beside (x : σ → Computation target α) : EStateM Halt (Running target σ) α := fun s =>
  match x s.store s.effects with
  | .ok a effects => .ok a ⟨s.store, effects⟩
  | .error halt effects => .error halt ⟨s.store, effects⟩

end Computation

namespace BinOp

variable {target : Target}

open RuleScript.Computation

/-- A result on numbers: the target decides on one that is not finite. -/
def settle (op : BinOp) (a b x : Float) : Computation target (Datum target.Thing) :=
  if x.isFinite then pure (.number x) else ofOption (target.beyond op a b)

/-- An operation on two numbers. -/
def applyNumbers (op : BinOp) (a b : Float) : Computation target (Datum target.Thing) :=
  match op with
  | add => op.settle a b (a + b)
  | sub => op.settle a b (a - b)
  | mul => op.settle a b (a * b)
  | div => if b == 0.0 then ofOption (target.beyond op a b) else op.settle a b (a / b)
  | eq => pure (.truth (a == b))
  | ne => pure (.truth (a != b))
  | lt => pure (.truth (a < b))
  | le => pure (.truth (a ≤ b))
  | gt => pure (.truth (a > b))
  | ge => pure (.truth (a ≥ b))
  | and | or => throw .stuck

/-- A comparison that is left to the target; every other operation is stuck. -/
def applyOther (op : BinOp) (a b : Datum target.Thing) :
    Computation target (Datum target.Thing) :=
  match op with
  | eq | ne | lt | le | gt | ge => do
    return .truth (← ofOption (target.compare op a b (← get).world))
  | add | sub | mul | div | and | or => throw .stuck

/-- An operation on two data. Both operands are known by then, so nothing is skipped. -/
def apply (op : BinOp) : Datum target.Thing → Datum target.Thing →
    Computation target (Datum target.Thing)
  | .number a, .number b => op.applyNumbers a b
  | .truth a, .truth b =>
    match op with
    | and => pure (.truth (a && b))
    | or => pure (.truth (a || b))
    | eq => pure (.truth (a == b))
    | ne => pure (.truth (a != b))
    | _ => op.applyOther (.truth a) (.truth b)
  | .text a, .text b =>
    match op with
    | add => pure (.text (a ++ b))
    | eq => pure (.truth (a == b))
    | ne => pure (.truth (a != b))
    | _ => op.applyOther (.text a) (.text b)
  | a, b => op.applyOther a b

end BinOp

/-- Rounds of a loop while they ask for another one. There is no round left when the bound is
reached. -/
def iterate {σ : Type} (round : EStateM Halt σ Bool) : Nat → EStateM Halt σ Unit
  | 0 => throw .timeout
  | rounds + 1 => do
    if ← round then iterate round rounds

/-- How an action or a statement ends. -/
inductive Exit
  | normal
  /-- The nearest loop is to be left. -/
  | stop
  /-- The nearest loop is to go on with its next round. -/
  | next
deriving DecidableEq, Repr

/-- Whether a loop goes on after its body ended so. -/
def Exit.goesOn : Exit → Bool
  | stop => false
  | normal | next => true

end RuleScript
