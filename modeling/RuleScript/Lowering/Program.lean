import RuleScript.Lowering.Stmt
import RuleScript.Registry.Events

/-!
# Lowering programs

Each event of a program becomes a rule. A call of one of the program's own functions is replaced by
the function's body with its parameters in slots of their own; calls inside that body are replaced
in the same way, down to a limit.

## Main definitions

* `FunctionDecl.inline`: the body of a function for one call
* `spliceWithin`: inlining down to a depth
* `Program.lower`: the rules of a program
-/

namespace RuleScript

/-- The name under which the slot of a return value is kept. -/
def returnLabel : String := "__returnval__"

namespace FunctionDecl

/-- Declares the generics of a function with their bounds. -/
def declareGenerics (env : Env) (scopes : Scopes) : List GenericParam → Except Error Scopes
  | [] => .ok scopes
  | g :: gs => do
    let bound ←
      match g.bound with
      | none => pure none
      | some b => do pure (some (← env.resolveIn scopes b))
    declareGenerics env (scopes.declareType g.name (.generic g.name bound)) gs

/-- Checks the types of the arguments of a call against the parameters, and says what the generics
stand for. -/
def checkArguments (env : Env) (function : String) (span : Span) (index : Nat)
    (bindings : Bindings) : List (Param × Ty) → Except Error Bindings
  | [] => .ok bindings
  | (p, given) :: rest => do
    let ty ← env.resolve p.ty
    let bindings ← Value.checkArgument function index ty given span bindings
    checkArguments env function span (index + 1) bindings rest

/-- Lets the generics that stand for a type be names of that type. -/
def bindGenerics (bindings : Bindings) (scopes : Scopes) (generics : List GenericParam) : Scopes :=
  generics.foldl
    (fun scopes g =>
      match bindings.get? g.name with
      | some ty => scopes.declareType g.name ty
      | none => scopes)
    scopes

/-- The slot for the return value of a call; its type has to be known by now. -/
def reserveReturn (env : Env) (decl : FunctionDecl) (span : Span) : Lower (Option ReturnSlot) := do
  match ← Lower.ofExcept (env.resolve? decl.ret) with
  | none => return none
  | some ty =>
    -- A generic that no argument has bound is still a generic here.
    if ty.hasGeneric then Lower.fail (.returnNotInferred decl.name ty) span
    let slot ← Lower.fresh returnLabel span
    return some ⟨slot, ty⟩

/-- Declares the return value of a call where it can be seen by name. -/
def declareReturn (scopes : Scopes) (function : String) (ret : Option ReturnSlot) : Scopes :=
  let named :=
    match ret with
    | none => scopes
    | some r => scopes.declare returnLabel ⟨r.ty, false, .slot r.slot⟩
  named.setKind (.function function ret)

/-- Gives each parameter a slot that starts with the value of its argument. -/
def bindParams (env : Env) : List (Param × Value) → Lower (Scopes × List Action)
  | [] => return (env.scopes, [])
  | (p, v) :: rest => do
    if env.scopes.declaredHere p.name then Lower.fail (.variableRedeclared p.name) p.span
    let ty ← Lower.ofExcept (env.resolve p.ty)
    -- A parameter cannot be assigned to.
    let (slot, scopes) ← Lower.declareSlot env.scopes p.name ty false p.span
    let (scopes, actions) ← bindParams { env with scopes } rest
    return (scopes, .declare slot ty v :: actions)

/-- The body of a function for one call. It sees nothing of the scopes it is called from. -/
def inline (splice? : Option Splice) : Splice := fun env decl args span => do
  Lower.log (.inlining decl.name env.inlining.length)
  let entered := env.scopes.push (.function decl.name none)
  let scopes ← Lower.ofExcept (declareGenerics env entered decl.generics)
  let bindings ← Lower.ofExcept
    (checkArguments { env with scopes } decl.name span 0 .empty
      (decl.params.zip (args.map (·.ty))))
  -- From here on the generics are names of the types that the arguments gave them.
  let scopes := bindGenerics bindings scopes decl.generics
  let ret ← reserveReturn { env with scopes } decl span
  let scopes := declareReturn scopes decl.name ret
  -- The arguments are values of the caller's scopes; only the body is lowered in the new ones.
  let inner := { env with inlining := decl.name :: env.inlining, scopes }
  let (scopes, params) ← bindParams inner (decl.params.zip args)
  let body ← Stmt.lowerBody { inner with scopes } splice? decl.body
  return ⟨params ++ body, ret⟩

end FunctionDecl

/-- Inlining of calls down to a depth; at depth zero no call can be inlined. -/
def spliceWithin : Nat → Option Splice
  | 0 => none
  | depth + 1 => some fun env decl args span =>
    FunctionDecl.inline (spliceWithin depth) env decl args span

namespace EventDecl

/-- Declares the values that a trigger provides under the names the event gives them. -/
def declareArgs (span : Span) (scopes : Scopes) : List (String × EventArg) → Except Error Scopes
  | [] => .ok scopes
  | (name, arg) :: rest => do
    if scopes.declaredHere name then throw ⟨.variableRedeclared name, span⟩
    declareArgs span (scopes.declare name ⟨arg.ty, false, .constant arg.target⟩) rest

/-- Lowers an event to a rule. -/
def lower (declarations : Declarations) (maxInlineDepth : Nat) (event : EventDecl) :
    Lower Rule := do
  let some trigger := EventDef.find? event.name | Lower.fail (.unknownEvent event.name) event.span
  if event.args.length ≠ trigger.args.length then
    Lower.fail (.eventArity event.name trigger.args.length) event.span
  let scopes ← Lower.ofExcept
    (declareArgs event.span (Scopes.empty.push .block) (event.args.zip trigger.args))
  let env : Env := { declarations, maxInlineDepth, scopes }
  let body ← Stmt.lowerBody env (spliceWithin maxInlineDepth) event.body
  Lower.log (.analyzedEvent event.name (Action.total body))
  return ⟨event.name, trigger.target, body⟩

end EventDecl

namespace Program

/-- The events of a program in their order. -/
def events (program : Program) : List EventDecl :=
  program.items.filterMap fun
    | .event e => some e
    | _ => none

/-- Lowers events one after the other. -/
def lowerEvents (declarations : Declarations) (maxInlineDepth : Nat) :
    List EventDecl → Lower (List Rule)
  | [] => return []
  | e :: es => do
    let rule ← e.lower declarations maxInlineDepth
    return rule :: (← lowerEvents declarations maxInlineDepth es)

/-- Lowers a program. -/
def lowerAll (maxInlineDepth : Nat) (program : Program) : Lower (List Rule) := do
  let declarations ← Lower.ofExcept (Declarations.collect program)
  Lower.log (.collected declarations.functions.size declarations.aliases.size)
  let rules ← lowerEvents declarations maxInlineDepth program.events
  Lower.log (.analyzedProgram rules.length (← get).slots.size)
  return rules

/-- The outcome of lowering a program: its rules or the first error, and the state at the end. -/
def lower (options : Options) (program : Program) : EStateM.Result Error LowerState (List Rule) :=
  (lowerAll options.maxInlineDepth program).run { slots := .empty options.maxSlots }

end Program

end RuleScript
