import RuleScript.Lowering.Alias
import RuleScript.Lowering.Typing
import RuleScript.Registry.Constants
import RuleScript.Registry.Functions

/-!
# Lowering expressions

An expression becomes a value, and the calls of the program's own functions in it become actions
that have to run before the value is used. Those actions come in the order of the calls, the calls
inside the arguments of a call before the call itself.

The bodies of called functions are lowered elsewhere: lowering an expression is given a way to
splice them in, or none if calls are nested too deeply already.

## Main definitions

* `Lowered`: the actions before a value, and the value
* `Splice`: a way to lower the body of a function for a call
* `Expr.lower`: lowering an expression
-/

namespace RuleScript

/-- A value and the actions that have to run before it. -/
structure Lowered where
  before : List Action
  value : Value

/-- Values and the actions that have to run before them. -/
structure LoweredList where
  before : List Action
  values : List Value

/-- What a call leaves behind: the actions of its body, and where its value is. -/
structure Spliced where
  body : List Action
  ret : Option ReturnSlot

/-- A way to lower the body of a function for a call with these arguments at this place. -/
abbrev Splice := Env → FunctionDecl → List Value → Span → Lower Spliced

namespace Env

/-- Checks that a function may be called here with so many arguments, for a value or for its actions
only, and gives the way to lower its body. -/
def checkCall (env : Env) (splice? : Option Splice) (decl : FunctionDecl) (given : Nat)
    (wantsValue : Bool) (span : Span) : Except Error Splice := do
  if env.inlining.contains decl.name then throw ⟨.recursiveCall decl.name, span⟩
  let some splice := splice? | throw ⟨.inlinedTooDeep decl.name env.maxInlineDepth, span⟩
  if wantsValue ∧ decl.ret.isNone then throw ⟨.noReturnValue decl.name, span⟩
  if given ≠ decl.params.length then throw ⟨.arity decl.name decl.params.length given, span⟩
  return splice

/-- The value of a name. -/
def ident (env : Env) (span : Span) (name : String) : Except Error Value :=
  match env.scopes.binding? name with
  | some ⟨ty, _, .slot slot⟩ => .ok (.read ty slot)
  | some ⟨ty, _, .constant text⟩ => .ok (.constant ty text)
  | none =>
    match ConstantDef.find? name with
    | some c => .ok (.constant c.ty c.target)
    | none => .error ⟨.unknownIdent name, span⟩

end Env

namespace Value

/-- A text literal. The target would read a brace as a place for another value. -/
def literalText (s : String) (span : Span) : Except Error Value :=
  if s.toList.any (fun c => c == '\x7b' || c == '\x7d') then .error ⟨.bracesInString s, span⟩
  else .ok (.ofText s)

/-- The template that an argument writes: it has to be a text literal, and keeps its braces. -/
def ofTemplate (function : String) (index : Nat) : Expr → Except Error Value
  | .string _ s => .ok (.template .string s)
  | e => .error ⟨.templateWanted function index, e.span⟩

/-- The values of the parameters whose arguments are left out; there are none if a parameter needs
its argument. A variadic parameter needs none. -/
def defaults? : List ParamDef → Option (List Value)
  | [] => some []
  | p :: ps =>
    if p.ty.isVariadic then some []
    else
      match p.default? with
      | none => none
      | some text => (defaults? ps).map (.constant p.ty text :: ·)

end Value

namespace Expr

/-- The error that no function has this name, once the types of the arguments are known. -/
def unknownFunction {α : Type} (span : Span) (name : String) (args : List Value) : Lower α :=
  Lower.fail (.unknownFunction name (args.map (·.ty))) span

mutual

/-- Lowers an expression. -/
def lower (env : Env) (splice? : Option Splice) : Expr → Lower Lowered
  | .number _ x => return ⟨[], .ofNumber x⟩
  | .string span s => return ⟨[], ← Lower.ofExcept (Value.literalText s span)⟩
  | .boolean _ b => return ⟨[], .ofBool b⟩
  | .ident span name => return ⟨[], ← Lower.ofExcept (env.ident span name)⟩
  | .array span item items => do
    let explicit ← Lower.ofExcept (env.resolve? item)
    let ⟨before, values⟩ ← lowerList env splice? items
    return ⟨before, ← Lower.ofExcept (Value.ofItems explicit values span)⟩
  | .binary span op left right => do
    let lhs ← left.lower env splice?
    let rhs ← right.lower env splice?
    let value ← Lower.ofExcept (Value.combine op lhs.value rhs.value span)
    return ⟨lhs.before ++ rhs.before, value⟩
  | .not span operand => do
    let v ← operand.lower env splice?
    return ⟨v.before, ← Lower.ofExcept (v.value.negated span)⟩
  | .typeOf _ operand => do
    -- Only the type counts, so nothing that the operand would run is kept.
    let v ← operand.lower env splice?
    return ⟨[], .ofText v.value.ty.text⟩
  | .index span object place => do
    let a ← object.lower env splice?
    let some item := a.value.ty.item? | Lower.fail (.indexedNonArray a.value.ty) span
    let i ← place.lower env splice?
    if i.value.ty ≠ .number then Lower.fail .nonNumberIndex span
    return ⟨a.before ++ i.before, .index item a.value i.value⟩
  | .call span name args =>
    match env.declarations.functions.get? name, FunctionDef.find? name with
    -- A function of the program hides one of the target.
    | some decl, _ => do
      let splice ← Lower.ofExcept (env.checkCall splice? decl args.length true span)
      let ⟨before, values⟩ ← lowerList env splice? args
      let ⟨body, ret⟩ ← splice env decl values span
      match ret with
      | some r => return ⟨before ++ [.block body], .read r.ty r.slot⟩
      | none => Lower.fail (.noReturnValue name) span
    | none, some f => do
      let ⟨before, values⟩ ← lowerArgs env splice? f args.length span 0 f.params .empty args
      match f.ret with
      | some ty => return ⟨before, .call ty f.target values⟩
      | none => Lower.fail (.noReturnValue name) span
    | none, none => do
      let ⟨_, values⟩ ← lowerList env splice? args
      unknownFunction span name values

/-- Lowers some expressions from left to right. -/
def lowerList (env : Env) (splice? : Option Splice) : List Expr → Lower LoweredList
  | [] => return ⟨[], []⟩
  | e :: es => do
    let v ← e.lower env splice?
    let ⟨before, values⟩ ← lowerList env splice? es
    return ⟨v.before ++ before, v.value :: values⟩

/-- Lowers the arguments of a target function and checks each against its parameter. A variadic
parameter takes all arguments that are left. -/
def lowerArgs (env : Env) (splice? : Option Splice) (f : FunctionDef) (given : Nat) (span : Span)
    (index : Nat) (params : List ParamDef) (bindings : Bindings) : List Expr → Lower LoweredList
  | [] =>
    match Value.defaults? params with
    | some values => return ⟨[], values⟩
    | none => Lower.fail (.arity f.name f.params.length given) span
  | e :: es =>
    match params with
    | [] => Lower.fail (.arity f.name f.params.length given) span
    | p :: ps =>
      if p.template then do
        let template ← Lower.ofExcept (Value.ofTemplate f.name index e)
        let ⟨before, values⟩ ← lowerArgs env splice? f given span (index + 1) ps bindings es
        return ⟨before, template :: values⟩
      else do
        let v ← e.lower env splice?
        let bindings ←
          Lower.ofExcept (Value.checkArgument f.name index p.ty v.value.ty span bindings)
        -- The bindings of the arguments so far go on to the next ones.
        let ⟨before, values⟩ ←
          if p.ty.isVariadic then lowerArgs env splice? f given span index (p :: ps) bindings es
          else lowerArgs env splice? f given span (index + 1) ps bindings es
        return ⟨v.before ++ before, v.value :: values⟩

end

end Expr

end RuleScript
