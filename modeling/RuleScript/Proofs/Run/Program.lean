import RuleScript.Lowering.Program
import RuleScript.Proofs.Run.Target
import RuleScript.Ty.Text

/-!
# Running programs directly

A program runs as it is written, without slots and without rules. A declaration makes a cell of its
own in the innermost frame, and a block, a round of a loop and a call each have a frame of their
own. A call sees only its own frames, which start with its arguments.

The calls of the program's own functions in a statement come first, from left to right, and what is
left of its expressions is evaluated after them. An expression is therefore *prepared*: that runs
its calls and leaves a computation behind, in which the results of the calls stand for the calls.

Reading a cell in which nothing was stored yet is undefined, and so is the use of a call that
returned nothing.

Types matter in one place only, the text of a `typeof`. Each cell has the type of its declaration,
and the type of an expression is read off these (`Expr.ty?`).

## Main definitions

* `Cell`, `Frames`: what names stand for
* `Signature`: the types of a call
* `Expr.ty?`: the type of an expression
* `Expr.prepare`: running the calls of an expression
* `Stmt.run`: running a statement
* `FunctionDecl.callWithin`: running calls down to a depth
* `EventDecl.run`: running an event
-/

namespace RuleScript

/-- What a name stands for. -/
inductive Cell (Thing : Type)
  /-- A variable, with what was last stored in it. -/
  | var (ty : Ty) (stored : Option (Datum Thing))
  /-- Text of the target, for what a trigger provides. -/
  | constant (ty : Ty) (text : String)

/-- The type of a cell. -/
def Cell.ty {Thing : Type} : Cell Thing → Ty
  | var ty _ | constant ty _ => ty

/-- What was last stored in a cell. -/
def Cell.stored? {Thing : Type} : Cell Thing → Option (Datum Thing)
  | var _ stored => stored
  | constant _ _ => none

/-- The frames that can be seen, the innermost first. -/
abbrev Frames (target : Target) := List (Table (Cell target.Thing))

namespace Frames

variable {target : Target}

/-- The cell of a name. -/
def find? (frames : Frames target) (name : String) : Option (Cell target.Thing) :=
  frames.findSome? (·.get? name)

/-- Makes a cell in the innermost frame. -/
def declare (frames : Frames target) (name : String) (cell : Cell target.Thing) : Frames target :=
  match frames with
  | [] => []
  | frame :: outer => frame.insert name cell :: outer

/-- Stores a datum in the nearest variable of a name. -/
def assign? (name : String) (d : Datum target.Thing) : Frames target → Option (Frames target)
  | [] => none
  | frame :: outer =>
    match frame.get? name with
    | some (.var ty _) => some (frame.insert name (.var ty (some d)) :: outer)
    | some (.constant _ _) => none
    | none => (assign? name d outer).map (frame :: ·)

/-- Records the result of the call that the frames belong to, in its outermost frame. -/
def return? (d : Datum target.Thing) : Frames target → Option (Frames target)
  | [] => none
  | [frame] =>
    match frame.get? returnLabel with
    | some (.var ty _) => some [frame.insert returnLabel (.var ty (some d))]
    | _ => none
  | frame :: outer => (return? d outer).map (frame :: ·)

/-- The result that was recorded. -/
def result? (frames : Frames target) : Option (Datum target.Thing) := do
  (← (← frames.getLast?).get? returnLabel).stored?

/-- Reads a name: a variable, or else a constant of the target. -/
def read (frames : Frames target) (name : String) : Computation target (Datum target.Thing) :=
  match frames.find? name with
  | some (.var _ (some d)) => pure d
  | some (.var _ none) => throw .undefined
  | some (.constant _ text) => Computation.constant text
  | none =>
    match ConstantDef.find? name with
    | some c => Computation.constant c.target
    | none => throw .stuck

end Frames

/-! ## Types -/

/-- The types of a call. -/
structure Signature where
  /-- What the generics of the function stand for. -/
  types : Table Ty
  params : List Ty
  ret : Option Ty

namespace Declarations

/-- The place in a program where these types have names. -/
def within (declarations : Declarations) (types : Table Ty) : Env :=
  { declarations, maxInlineDepth := 0, scopes := ⟨[{ kind := .block, types }]⟩ }

/-- The type of an annotation where these types have names. -/
def resolve? (declarations : Declarations) (types : Table Ty) (ty : TypeExpr) : Option Ty :=
  ((declarations.within types).resolve ty).toOption

end Declarations

/-- The types of a call with arguments of these types. -/
def FunctionDecl.signature? (declarations : Declarations) (decl : FunctionDecl) (args : List Ty) :
    Option Signature := Except.toOption do
  let env : Env := { declarations, maxInlineDepth := 0 }
  let scopes ← declareGenerics env (Scopes.empty.push (.function decl.name none)) decl.generics
  let bindings ←
    checkArguments { env with scopes } decl.name decl.span 0 .empty (decl.params.zip args)
  let inner := { env with scopes := bindGenerics bindings scopes decl.generics }
  let ret ← inner.resolve? decl.ret
  let params ← decl.params.mapM fun p => inner.resolve p.ty
  return ⟨(inner.scopes.current?.map (·.types)).getD .empty, params, ret⟩

namespace Expr

mutual

/-- The type of an expression, given the types of the variables. -/
def ty? (declarations : Declarations) (types : Table Ty) (vars : String → Option Ty) :
    Expr → Option Ty
  | .number _ _ => some .number
  | .string _ _ => some .string
  | .boolean _ _ => some .boolean
  | .ident _ name => (vars name).or ((ConstantDef.find? name).map (·.ty))
  | .array _ (some item) _ => (declarations.resolve? types item).map .array
  | .array _ none [] => none
  | .array _ none (e :: _) => (e.ty? declarations types vars).map .array
  | .binary _ op left _ =>
    match op with
    | .add => left.ty? declarations types vars
    | .sub | .mul | .div => some .number
    | .eq | .ne | .lt | .le | .gt | .ge | .and | .or => some .boolean
  | .not _ _ => some .boolean
  | .typeOf _ _ => some .string
  | .index _ object _ => do (← object.ty? declarations types vars).item?
  | .call _ name args =>
    match declarations.functions.get? name, FunctionDef.find? name with
    | some decl, _ => do
      (← decl.signature? declarations (← tyList? declarations types vars args)).ret
    | none, some f => f.ret
    | none, none => none

/-- The types of some expressions. -/
def tyList? (declarations : Declarations) (types : Table Ty) (vars : String → Option Ty) :
    List Expr → Option (List Ty)
  | [] => some []
  | e :: es => do
    let ty ← e.ty? declarations types vars
    return ty :: (← tyList? declarations types vars es)

end

end Expr

/-! ## Expressions -/

/-- What the statements of a body can look up besides their variables. -/
structure Context (target : Target) where
  declarations : Declarations
  types : Table Ty
  /-- Runs a call with arguments of these types, and gives what it returned. -/
  call : FunctionDecl → List Ty → List (Datum target.Thing) →
    Computation target (Option (Datum target.Thing))

namespace Context

variable {target : Target}

/-- The type of an expression. -/
def ty? (ctx : Context target) (frames : Frames target) (e : Expr) : Option Ty :=
  e.ty? ctx.declarations ctx.types fun name => (frames.find? name).map Cell.ty

/-- The types of some expressions. -/
def tyList? (ctx : Context target) (frames : Frames target) (es : List Expr) : Option (List Ty) :=
  Expr.tyList? ctx.declarations ctx.types (fun name => (frames.find? name).map Cell.ty) es

/-- Runs a call of one of the program's own functions. -/
def callWith (ctx : Context target) (frames : Frames target) (decl : FunctionDecl)
    (args : List Expr) (data : List (Datum target.Thing)) :
    Computation target (Option (Datum target.Thing)) := do
  ctx.call decl (← Computation.ofOption (ctx.tyList? frames args)) data

end Context

namespace Computation

variable {target : Target} {α : Type}

/-- Runs computations from left to right. -/
def runList : List (Computation target α) → Computation target (List α)
  | [] => return []
  | x :: xs => do
    let a ← x
    return a :: (← runList xs)

/-- The arguments of a target function: the given ones, and constants for those left out. -/
def arguments (f : FunctionDef) (given : List (Computation target (Datum target.Thing))) :
    Computation target (List (Datum target.Thing)) := do
  let ds ← runList given
  let texts := (f.params.drop given.length).filterMap (·.default?)
  return ds ++ (← runList (texts.map constant))

end Computation

namespace Expr

open RuleScript.Computation

variable {target : Target}

mutual

/-- Runs the calls of an expression, and gives what is left to evaluate. -/
def prepare (ctx : Context target) (frames : Frames target) :
    Expr → Computation target (Computation target (Datum target.Thing))
  | .number _ x => return pure (.number x)
  | .string _ s => return pure (.text s)
  | .boolean _ b => return pure (.truth b)
  | .ident _ name => return frames.read name
  | .array _ _ items => do
    let items ← prepareList ctx frames items
    return do return .list (← runList items)
  | .binary _ op left right => do
    let left ← left.prepare ctx frames
    let right ← right.prepare ctx frames
    return do
      let a ← left
      let b ← right
      op.apply a b
  | .not _ operand => do
    let operand ← operand.prepare ctx frames
    return do negate (← operand)
  | .typeOf _ operand => return do return .text (← ofOption (ctx.ty? frames operand)).text
  | .index _ object place => do
    let object ← object.prepare ctx frames
    let place ← place.prepare ctx frames
    return do
      let a ← object
      let i ← place
      item a i
  | .call _ name args => do
    let given ← prepareList ctx frames args
    match ctx.declarations.functions.get? name, FunctionDef.find? name with
    | some decl, _ =>
      let data ← runList given
      match ← ctx.callWith frames decl args data with
      | some d => return pure d
      | none => return throw .undefined
    | none, some f => return do value f.target (← arguments f given)
    | none, none => throw .stuck

/-- Runs the calls of some expressions from left to right. -/
def prepareList (ctx : Context target) (frames : Frames target) :
    List Expr → Computation target (List (Computation target (Datum target.Thing)))
  | [] => return []
  | e :: es => do
    let x ← e.prepare ctx frames
    return x :: (← prepareList ctx frames es)

end

/-- Runs an expression: its calls, and then what is left of it. -/
def run (ctx : Context target) (frames : Frames target) (e : Expr) :
    Computation target (Datum target.Thing) := do
  (← e.prepare ctx frames)

/-- Runs a condition. -/
def test (ctx : Context target) (frames : Frames target) (e : Expr) : Computation target Bool := do
  truth (← e.run ctx frames)

end Expr

/-! ## Statements -/

/-- The frames and the effects so far. -/
abbrev Store (target : Target) := Running target (Frames target)

namespace Stmt

open RuleScript.Computation

variable {target : Target}

/-- Changes the frames; the run is stuck where that is not possible. -/
def update (change : Frames target → Option (Frames target)) :
    EStateM Halt (Store target) Exit := do
  let frames ← beside fun frames => ofOption (change frames)
  modify fun s => { s with store := frames }
  return .normal

/-- Runs something in a frame of its own. -/
def inFrame {α : Type} (x : EStateM Halt (Store target) α) : EStateM Halt (Store target) α := do
  modify fun s => { s with store := .empty :: s.store }
  let a ← x
  modify fun s => { s with store := s.store.tail }
  return a

/-- The type of a declared variable: the annotated one, or else that of its value. -/
def cellType? (ctx : Context target) (frames : Frames target) (ty : Option TypeExpr)
    (value : Option Expr) : Option Ty :=
  match ty with
  | some ty => ctx.declarations.resolve? ctx.types ty
  | none => do ctx.ty? frames (← value)

/-- The datum that a declaration starts with, if there is one. -/
def initial (ctx : Context target) (frames : Frames target) :
    Option Expr → Computation target (Option (Datum target.Thing))
  | none => return none
  | some e => return some (← e.run ctx frames)

/-- Runs a call that stands as a statement. -/
def perform (ctx : Context target) (frames : Frames target) (name : String) (args : List Expr) :
    Computation target Unit := do
  let given ← Expr.prepareList ctx frames args
  match ctx.declarations.functions.get? name, FunctionDef.find? name with
  | some decl, _ =>
    let data ← runList given
    let _ ← ctx.callWith frames decl args data
  | none, some f => action f.target (← arguments f given)
  | none, none => throw .stuck

/-- Whether a counting loop takes another round. The limit does not see the marker, which is in the
innermost frame. -/
def counting (ctx : Context target) (marker : String) (limit : Expr) (frames : Frames target) :
    Computation target Bool := do
  let limit ← limit.prepare ctx frames.tail
  let a ← frames.read marker
  let b ← limit
  truth (← BinOp.lt.apply a b)

/-- Moves the marker of a counting loop on. -/
def advance (marker : String) : EStateM Halt (Store target) Exit := do
  let d ← beside fun frames => do BinOp.add.apply (← frames.read marker) (.number 1.0)
  update (Frames.assign? marker d)

mutual

/-- Runs a statement. -/
def run (ctx : Context target) (rounds : Nat) : Stmt → EStateM Halt (Store target) Exit
  | .block _ body => inFrame (runBody ctx rounds body)
  | .declare _ name ty value _ => do
    let stored ← beside fun frames => initial ctx frames value
    let ty ← beside fun frames => ofOption (cellType? ctx frames ty value)
    update fun frames => some (frames.declare name (.var ty stored))
  | .assign _ name value => do
    let d ← beside fun frames => value.run ctx frames
    update (Frames.assign? name d)
  | .assignField _ object field value => do
    beside fun frames => do
      let object ← object.prepare ctx frames
      let value ← value.prepare ctx frames
      let o ← object
      let d ← value
      Computation.assignField o field d
    return .normal
  | .branch _ condition body none => do
    if ← beside fun frames => condition.test ctx frames then inFrame (runBody ctx rounds body)
    else return .normal
  | .branch _ condition body (some otherwise) => do
    if ← beside fun frames => condition.test ctx frames then inFrame (runBody ctx rounds body)
    else inFrame (runBody ctx rounds otherwise)
  | .loop _ condition body => do
    iterate
      (do
        if ← beside fun frames => condition.test ctx frames then
          return (← inFrame (runBody ctx rounds body)).goesOn
        else return false)
      rounds
    return .normal
  | .count _ marker first limit body => do
    let d ← beside fun frames => first.run ctx frames
    inFrame do
      let _ ← update fun frames => some (frames.declare marker (.var .number (some d)))
      iterate
        (do
          if ← beside fun frames => counting ctx marker limit frames then
            match ← inFrame (runBody ctx rounds body) with
            | .stop => return false
            | .normal | .next => return (← advance marker).goesOn
          else return false)
        rounds
      return .normal
  | .ret _ none => return .normal
  | .ret _ (some value) => do
    let d ← beside fun frames => value.run ctx frames
    update (Frames.return? d)
  | .stop _ => return .stop
  | .next _ => return .next
  | .call _ name args => do
    beside fun frames => perform ctx frames name args
    return .normal

/-- Runs statements one after the other, up to the first that does not end normally. -/
def runBody (ctx : Context target) (rounds : Nat) : List Stmt → EStateM Halt (Store target) Exit
  | [] => return .normal
  | s :: body => do
    match ← s.run ctx rounds with
    | .normal => runBody ctx rounds body
    | exit => return exit

end

/-- Runs a body that has frames of its own, and gives the frames at its end. -/
def runIn (ctx : Context target) (rounds : Nat) (frames : Frames target) (body : List Stmt) :
    Computation target (Frames target) := fun effects =>
  match runBody ctx rounds body ⟨frames, effects⟩ with
  | .ok .normal s => .ok s.store s.effects
  | .ok _ s => .error .stuck s.effects
  | .error halt s => .error halt s.effects

end Stmt

/-! ## Calls and events -/

namespace FunctionDecl

open RuleScript.Computation

variable {target : Target}

/-- The frame that the body of a call starts with: a place for the result, and the arguments. -/
def frame (decl : FunctionDecl) (signature : Signature) (data : List (Datum target.Thing)) :
    Table (Cell target.Thing) :=
  let start : Table (Cell target.Thing) :=
    match signature.ret with
    | none => .empty
    | some ty => Table.empty.insert returnLabel (.var ty none)
  (decl.params.zip (signature.params.zip data)).foldl
    (fun frame (p, ty, d) => frame.insert p.name (.var ty (some d))) start

/-- Runs calls that are nested at most so deep; beyond that there is no answer. -/
def callWithin (declarations : Declarations) (rounds : Nat) : Nat → FunctionDecl → List Ty →
    List (Datum target.Thing) → Computation target (Option (Datum target.Thing))
  | 0, _, _, _ => throw .timeout
  | depth + 1, decl, tys, data => do
    let signature ← ofOption (decl.signature? declarations tys)
    let ctx : Context target :=
      { declarations, types := signature.types, call := callWithin declarations rounds depth }
    return (← Stmt.runIn ctx rounds [decl.frame signature data] decl.body).result?

end FunctionDecl

namespace EventDecl

open RuleScript.Computation

variable {target : Target}

/-- The frame that an event starts with: what its trigger provides. -/
def frame (event : EventDecl) (trigger : EventDef) : Table (Cell target.Thing) :=
  (event.args.zip trigger.args).foldl
    (fun frame (name, arg) => frame.insert name (.constant arg.ty arg.target)) .empty

/-- Runs an event, with calls that are nested at most so deep. -/
def run (declarations : Declarations) (depth rounds : Nat) (event : EventDecl) :
    Computation target Unit := do
  let trigger ← ofOption (EventDef.find? event.name)
  let ctx : Context target :=
    { declarations, types := .empty, call := FunctionDecl.callWithin declarations rounds depth }
  let _ ← Stmt.runIn ctx rounds [event.frame trigger] event.body

end EventDecl

end RuleScript
