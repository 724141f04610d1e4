import RuleScript.Lowering.Expr

/-!
# Lowering statements

A statement becomes one action. The actions that its expressions need first stand before it in a
block. A declaration also changes the innermost scope, and so what the statements after it see.

## Main definitions

* `Stmt.lower`: lowering a statement
* `Stmt.lowerBody`: lowering the statements of a body
-/

namespace RuleScript

namespace Action

/-- An action with others before it. -/
def behind (before : List Action) (action : Action) : Action :=
  if before.isEmpty then action else block (before ++ [action])

/-- A loop whose condition needs actions of its own: they run at the start of every round. -/
def loopWith (check : List Action) (condition : Value) (body : List Action) : Action :=
  if check.isEmpty then loop condition body
  else loop (.ofBool true) (check ++ branch condition.negate [stop] :: body)

end Action

namespace Stmt

/-- The label of slots that hold the condition of a branch. -/
def conditionLabel : String := "__condition__"

/-- Lowers a condition. -/
def lowerCondition (env : Env) (splice? : Option Splice) (statement : Conditional) (e : Expr) :
    Lower Lowered := do
  let v ← e.lower env splice?
  if v.value.ty ≠ .boolean then Lower.fail (.nonBooleanCondition statement v.value.ty) e.span
  return v

/-- Checks that a value may be stored where a type is wanted. -/
def checkFits (wanted : Ty) (value : Value) (fault : Fault) (span : Span) : Lower Unit := do
  unless ← Lower.ofExcept (wanted.fits value.ty span) do Lower.fail fault span

/-- Lowers an expression that may be missing. -/
def lowerOption (env : Env) (splice? : Option Splice) : Option Expr → Lower (Option Lowered)
  | none => return none
  | some e => return some (← e.lower env splice?)

/-- The type of a declared variable: the annotated one, which its value has to fit, or that of its
value. -/
def declaredType (span : Span) : Option Ty → Option Value → Except Error Ty
  | none, none => .error ⟨.declarationWithoutType, span⟩
  | none, some value => .ok value.ty
  | some ty, none => .ok ty
  | some ty, some value => do
    if ← ty.fits value.ty span then return ty
    throw ⟨.declarationMismatch ty value.ty, span⟩

/-- Lowers a declaration. -/
def lowerDeclare (env : Env) (splice? : Option Splice) (span : Span) (name : String)
    (ty : Option TypeExpr) (value : Option Expr) (constant : Bool) : Lower (Scopes × Action) := do
  if env.scopes.declaredHere name then Lower.fail (.variableRedeclared name) span
  if constant ∧ value.isNone then Lower.fail (.constantWithoutValue name) span
  let annotated ← Lower.ofExcept (env.resolve? ty)
  let lowered ← lowerOption env splice? value
  let ty ← Lower.ofExcept (declaredType span annotated (lowered.map (·.value)))
  let (slot, scopes) ← Lower.declareSlot env.scopes name ty (!constant) span
  match lowered with
  -- Without a value nothing is stored, and the slot keeps what it holds.
  | none => return (scopes, .noop)
  | some v => return (scopes, .behind v.before (.declare slot ty v.value))

/-- Lowers an assignment to a variable. -/
def lowerAssign (env : Env) (splice? : Option Splice) (span : Span) (name : String) (value : Expr) :
    Lower Action := do
  match env.scopes.binding? name with
  | none => Lower.fail (.unknownVariable name) span
  | some ⟨ty, true, .slot slot⟩ =>
    let v ← value.lower env splice?
    checkFits ty v.value (.assignMismatch name ty v.value.ty) span
    return .behind v.before (.assign slot v.value)
  | some _ => Lower.fail (.constantAssigned name) span

/-- Lowers an assignment to a field of a player. -/
def lowerAssignField (env : Env) (splice? : Option Splice) (span : Span) (object : Expr)
    (field : String) (value : Expr) : Lower Action := do
  let o ← object.lower env splice?
  checkFits .player o.value (.fieldOfNonPlayer field o.value.ty) span
  let v ← value.lower env splice?
  return .behind (o.before ++ v.before) (.assignField o.value field v.value)

/-- Lowers what a function returns: it is stored, and the function goes on. -/
def lowerReturn (env : Env) (splice? : Option Splice) (span : Span) (value : Option Expr) :
    Lower Action := do
  match env.scopes.enclosingFunction?, value with
  | none, _ => Lower.fail .returnOutsideFunction span
  | some _, none => return .noop
  | some (function, none), some _ => Lower.fail (.noReturnType function) span
  | some (function, some result), some value =>
    let v ← value.lower env splice?
    checkFits result.ty v.value (.returnMismatch function result.ty v.value.ty) span
    return .behind v.before (.assign result.slot v.value)

/-- Lowers the way out of a loop. -/
def lowerStop (env : Env) (span : Span) : Lower Action :=
  match env.scopes.enclosingLoop? with
  | some _ => return .stop
  | none => Lower.fail .breakOutsideLoop span

/-- Lowers the way to the next round of a loop. -/
def lowerNext (env : Env) (span : Span) : Lower Action :=
  match env.scopes.enclosingLoop? with
  -- The next round of a counting loop starts with the marker moved on.
  | some (some step) => return .block [step, .next]
  | some none => return .next
  | none => Lower.fail .continueOutsideLoop span

/-- Lowers a call that stands as a statement. -/
def lowerCall (env : Env) (splice? : Option Splice) (span : Span) (name : String)
    (args : List Expr) : Lower Action :=
  match env.declarations.functions.get? name, FunctionDef.find? name with
  | some decl, _ => do
    let splice ← Lower.ofExcept (env.checkCall splice? decl args.length false span)
    let ⟨before, values⟩ ← Expr.lowerList env splice? args
    let ⟨body, _⟩ ← splice env decl values span
    -- The value of the call is not used, so only its actions are kept.
    return .behind (before ++ [.block body]) .noop
  | none, some f => do
    let ⟨before, values⟩ ← Expr.lowerArgs env splice? f args.length span 0 f.params .empty args
    return .behind before (.call f.target values)
  | none, none => do
    let ⟨_, values⟩ ← Expr.lowerList env splice? args
    Expr.unknownFunction span name values

/-- The condition that both branches test, and the action that saves it. A literal needs no
saving. -/
def saveCondition (condition : Value) (span : Span) : Lower (List Action × Value) := do
  if condition.isLiteral then return ([], condition)
  let slot ← Lower.fresh conditionLabel span
  return ([.declare slot .boolean condition], .read .boolean slot)

/-- Checks that a bound of a counting loop is a number. -/
def checkBound (bound : Value) (span : Span) : Lower Unit := do
  if bound.ty ≠ .number then Lower.fail (.nonNumberBound bound.ty) span

/-- The action that moves the marker of a counting loop on. -/
def countStep (slot : Slot) : Action :=
  .assign slot (.binary .number .add (.read .number slot) (.ofNumber 1.0))

mutual

/-- Lowers a statement, and gives the scopes for the statements after it. -/
def lower (env : Env) (splice? : Option Splice) : Stmt → Lower (Scopes × Action)
  | .block _ body => do
    return (env.scopes, .block (← lowerBody (env.push .block) splice? body))
  | .declare span name ty value constant => lowerDeclare env splice? span name ty value constant
  | .assign span name value => do
    return (env.scopes, ← lowerAssign env splice? span name value)
  | .assignField span object field value => do
    return (env.scopes, ← lowerAssignField env splice? span object field value)
  | .branch _ condition body none => do
    let v ← lowerCondition env splice? .if_ condition
    let body ← lowerBody (env.push .block) splice? body
    return (env.scopes, .behind v.before (.branch v.value body))
  | .branch span condition body (some otherwise) => do
    let v ← lowerCondition env splice? .if_ condition
    -- The condition is saved, so that the first branch cannot change which way the second goes.
    let (save, saved) ← saveCondition v.value span
    let body ← lowerBody (env.push .block) splice? body
    let otherwise ← lowerBody (env.push .block) splice? otherwise
    let branches := [.branch saved body, .branch saved.negate otherwise]
    return (env.scopes, .behind v.before (.block (save ++ branches)))
  | .loop _ condition body => do
    let v ← lowerCondition env splice? .while_ condition
    let body ← lowerBody (env.push (.loop none)) splice? body
    return (env.scopes, .loopWith v.before v.value body)
  | .count span marker first limit body => do
    -- Neither the first value nor the limit sees the marker.
    let outer := env.push .block
    let first ← first.lower outer splice?
    let limit ← limit.lower outer splice?
    checkBound first.value span
    checkBound limit.value span
    let (slot, scopes) ← Lower.declareSlot outer.scopes marker .number true span
    let step := countStep slot
    -- The body has a scope of its own inside that of the marker, so it may reuse the name.
    let inner := { outer with scopes }.push (.loop (some step))
    let body ← lowerBody inner splice? body
    let condition : Value := .binary .boolean .lt (.read .number slot) limit.value
    let counting :=
      [.declare slot .number first.value, .loopWith limit.before condition (body ++ [step])]
    return (env.scopes, .behind first.before (.block counting))
  | .ret span value => do return (env.scopes, ← lowerReturn env splice? span value)
  | .stop span => do return (env.scopes, ← lowerStop env span)
  | .next span => do return (env.scopes, ← lowerNext env span)
  | .call span name args => do return (env.scopes, ← lowerCall env splice? span name args)

/-- Lowers the statements of a body. -/
def lowerBody (env : Env) (splice? : Option Splice) : List Stmt → Lower (List Action)
  | [] => return []
  | s :: body => do
    let (scopes, action) ← s.lower env splice?
    return action :: (← lowerBody { env with scopes } splice? body)

end

end Stmt

end RuleScript
