import RuleScript.Proofs.Lowering.Footprint

/-!
# Every point of lowering

Lowering a program is one long recursion, and a *point* of it is something that is being lowered
together with the environment and the state at that moment. One step leads from a point to a point
that lowering comes to on its way, so that a statement about all reached points is a statement about
the whole of lowering, inside inlined functions too.

## Main definitions

* `Task`, `Point`: what is being lowered, and where
* `Point.Step`: from a point to the next ones on the way
* `Program.Reached`: the points of lowering a program
* `Scopes.Distinct`, `Scopes.Spares`: the bindings of the open scopes have slots of their own, and a
  slot is none that has to be left alone

## Main results

* `Program.Reached.succeeds`: what is lowered at a point is lowered without an error
* `Program.exists_loweredAt`: every rule is what is lowered at some point
* `Point.Step.sound`: what holds at a point holds at the next ones
* `Program.Reached.sound`: the open scopes of every point have slots of their own, and the code of
  every statement leaves alone what is not its own
-/

namespace RuleScript

/-- Something that is being lowered. -/
inductive Task
  | expr (e : Expr)
  | exprs (es : List Expr)
  /-- The arguments of a target function from some parameter on. -/
  | args (f : FunctionDef) (given : Nat) (span : Span) (index : Nat) (params : List ParamDef)
      (bindings : Bindings) (es : List Expr)
  | stmt (s : Stmt)
  | body (body : List Stmt)
  /-- The body of a function for a call with these arguments. -/
  | call (decl : FunctionDecl) (args : List Value) (span : Span)
  /-- The parameters of a call from some parameter on, with their arguments. -/
  | params (params : List (Param × Value))

/-- Something that is being lowered, with the environment and the state it is lowered in. -/
structure Point where
  task : Task
  env : Env
  /-- How deeply calls may still be inlined. -/
  depth : Nat
  state : LowerState

/-- The call that an expression or a statement is. -/
def Task.call? : Task → Option (Span × String × List Expr)
  | expr (.call span name es) => some (span, name, es)
  | stmt (.call span name es) => some (span, name, es)
  | _ => none

/-- The expressions that are lowered for an expression, from left to right. -/
def Expr.parts : Expr → List Expr
  | .array _ _ items => items
  | .binary _ _ left right => [left, right]
  | .not _ operand => [operand]
  | .typeOf _ operand => [operand]
  | .index _ object place => [object, place]
  | .number _ _ | .string _ _ | .boolean _ _ | .ident _ _ | .call _ _ _ => []

/-- The expressions that are lowered first for a statement, from left to right. -/
def Stmt.parts : Stmt → List Expr
  | .declare _ _ _ value _ => value.toList
  | .assign _ _ value => [value]
  | .assignField _ object _ value => [object, value]
  | .branch _ condition _ _ => [condition]
  | .loop _ condition _ => [condition]
  | .ret _ value => value.toList
  | .block _ _ | .count _ _ _ _ _ | .stop _ | .next _ | .call _ _ _ => []

namespace Point

open RuleScript.Expr (lowerList lowerArgs)

/-- From a point to a point that lowering comes to on its way. What comes before it on the way has
been lowered. -/
inductive Step : Point → Point → Prop
  | exprParts {e env n st} : Step ⟨.expr e, env, n, st⟩ ⟨.exprs e.parts, env, n, st⟩
  | stmtParts {s env n st} : Step ⟨.stmt s, env, n, st⟩ ⟨.exprs s.parts, env, n, st⟩
  | exprsHead {e es env n st} : Step ⟨.exprs (e :: es), env, n, st⟩ ⟨.expr e, env, n, st⟩
  | exprsTail {e es env n st v t} (hv : e.lower env (spliceWithin n) st = .ok v t) :
    Step ⟨.exprs (e :: es), env, n, st⟩ ⟨.exprs es, env, n, t⟩
  -- Calls, as an expression and as a statement.
  | ownArgs {task span name args decl env n st} (hcall : task.call? = some (span, name, args))
    (hdecl : env.declarations.functions.get? name = some decl) :
    Step ⟨task, env, n, st⟩ ⟨.exprs args, env, n, st⟩
  | callee {task span name args decl env n st vs t}
    (hcall : task.call? = some (span, name, args))
    (hdecl : env.declarations.functions.get? name = some decl)
    (hvs : lowerList env (spliceWithin (n + 1)) args st = .ok vs t) :
    Step ⟨task, env, n + 1, st⟩ ⟨.call decl vs.values span, env, n, t⟩
  | targetArgs {task span name args f env n st} (hcall : task.call? = some (span, name, args))
    (hdecl : env.declarations.functions.get? name = none) (hf : FunctionDef.find? name = some f) :
    Step ⟨task, env, n, st⟩ ⟨.args f args.length span 0 f.params .empty args, env, n, st⟩
  | argsTemplate {f given span index p ps bindings e es env n st} (hp : p.template = true) :
    Step ⟨.args f given span index (p :: ps) bindings (e :: es), env, n, st⟩
      ⟨.args f given span (index + 1) ps bindings es, env, n, st⟩
  | argsHead {f given span index p ps bindings e es env n st} (hp : p.template = false) :
    Step ⟨.args f given span index (p :: ps) bindings (e :: es), env, n, st⟩ ⟨.expr e, env, n, st⟩
  | argsTail {f given span index p ps bindings bindings' e es env n st v t}
    (hp : p.template = false) (hv : e.lower env (spliceWithin n) st = .ok v t)
    (hfits : Value.checkArgument f.name index p.ty v.value.ty span bindings = .ok bindings') :
    Step ⟨.args f given span index (p :: ps) bindings (e :: es), env, n, st⟩
      ⟨.args f given span (if p.ty.isVariadic then index else index + 1)
        (if p.ty.isVariadic then p :: ps else ps) bindings' es, env, n, t⟩
  -- Statements inside statements.
  | block {span body env n st} :
    Step ⟨.stmt (.block span body), env, n, st⟩ ⟨.body body, env.push .block, n, st⟩
  | branch {span condition body env n st v t}
    (hv : condition.lower env (spliceWithin n) st = .ok v t) :
    Step ⟨.stmt (.branch span condition body none), env, n, st⟩ ⟨.body body, env.push .block, n, t⟩
  | branchThen {span condition body otherwise env n st v t saved t₁}
    (hv : condition.lower env (spliceWithin n) st = .ok v t)
    (hsave : Stmt.saveCondition v.value span t = .ok saved t₁) :
    Step ⟨.stmt (.branch span condition body (some otherwise)), env, n, st⟩
      ⟨.body body, env.push .block, n, t₁⟩
  | branchElse {span condition body otherwise env n st v t saved t₁ actions t₂}
    (hv : condition.lower env (spliceWithin n) st = .ok v t)
    (hsave : Stmt.saveCondition v.value span t = .ok saved t₁)
    (hbody : Stmt.lowerBody (env.push .block) (spliceWithin n) body t₁ = .ok actions t₂) :
    Step ⟨.stmt (.branch span condition body (some otherwise)), env, n, st⟩
      ⟨.body otherwise, env.push .block, n, t₂⟩
  | loop {span condition body env n st v t}
    (hv : condition.lower env (spliceWithin n) st = .ok v t) :
    Step ⟨.stmt (.loop span condition body), env, n, st⟩
      ⟨.body body, env.push (.loop none), n, t⟩
  | bounds {span marker first limit body env n st} :
    Step ⟨.stmt (.count span marker first limit body), env, n, st⟩
      ⟨.exprs [first, limit], env.push .block, n, st⟩
  | count {span marker first limit body env n st vs t slot t₁}
    (hvs : lowerList (env.push .block) (spliceWithin n) [first, limit] st = .ok vs t)
    (hslot : Lower.intern marker (env.scopes.depth + 1) span t = .ok slot t₁) :
    Step ⟨.stmt (.count span marker first limit body), env, n, st⟩
      ⟨.body body, { env with scopes := Stmt.countScopes env.scopes marker slot }, n, t₁⟩
  | bodyHead {s body env n st} : Step ⟨.body (s :: body), env, n, st⟩ ⟨.stmt s, env, n, st⟩
  | bodyTail {s body env n st scopes action t}
    (hs : s.lower env (spliceWithin n) st = .ok (scopes, action) t) :
    Step ⟨.body (s :: body), env, n, st⟩ ⟨.body body, { env with scopes }, n, t⟩
  -- Inside an inlined function.
  | params {decl args span env n st generics bindings ret t}
    (hgenerics : FunctionDecl.declareGenerics env (env.scopes.push (.function decl.name none))
      decl.generics = .ok generics)
    (hbindings : FunctionDecl.checkArguments { env with scopes := generics } decl.name span 0
      .empty (decl.params.zip (args.map (·.ty))) = .ok bindings)
    (hret : FunctionDecl.reserveReturn
      { env with scopes := FunctionDecl.bindGenerics bindings generics decl.generics } decl span
      { st with log := .inlining decl.name env.inlining.length :: st.log } = .ok ret t) :
    Step ⟨.call decl args span, env, n, st⟩
      ⟨.params (decl.params.zip args), FunctionDecl.entered env decl
        (FunctionDecl.bindGenerics bindings generics decl.generics) ret, n, t⟩
  | paramsTail {p v rest env n st ty slot t} (hty : env.resolve p.ty = .ok ty)
    (hslot : Lower.intern p.name env.scopes.depth p.span st = .ok slot t) :
    Step ⟨.params ((p, v) :: rest), env, n, st⟩
      ⟨.params rest, { env with scopes := env.scopes.declare p.name ⟨ty, false, .slot slot⟩ }, n, t⟩
  | callBody {decl args span env n st generics bindings ret t scopes actions t₁}
    (hgenerics : FunctionDecl.declareGenerics env (env.scopes.push (.function decl.name none))
      decl.generics = .ok generics)
    (hbindings : FunctionDecl.checkArguments { env with scopes := generics } decl.name span 0
      .empty (decl.params.zip (args.map (·.ty))) = .ok bindings)
    (hret : FunctionDecl.reserveReturn
      { env with scopes := FunctionDecl.bindGenerics bindings generics decl.generics } decl span
      { st with log := .inlining decl.name env.inlining.length :: st.log } = .ok ret t)
    (hparams : FunctionDecl.bindParams (FunctionDecl.entered env decl
      (FunctionDecl.bindGenerics bindings generics decl.generics) ret) (decl.params.zip args) t =
        .ok (scopes, actions) t₁) :
    Step ⟨.call decl args span, env, n, st⟩
      ⟨.body decl.body, { FunctionDecl.entered env decl
        (FunctionDecl.bindGenerics bindings generics decl.generics) ret with scopes }, n, t₁⟩

end Point

/-- The points of lowering a program: the bodies of its events, each after the events before it, and
every point on the way from there. -/
inductive Program.Reached (options : Options) (program : Program) : Point → Prop
  | event {declarations before event after rules trigger scopes t}
    (hcollect : Declarations.collect program = .ok declarations)
    (hevents : program.events = before ++ event :: after)
    (hbefore : lowerEvents declarations options.maxInlineDepth before
      (start options declarations) = .ok rules t)
    (htrigger : EventDef.find? event.name = some trigger)
    (hscopes : EventDecl.declareArgs event.span (Scopes.empty.push .block)
      (event.args.zip trigger.args) = .ok scopes) :
    Reached options program ⟨.body event.body,
      { declarations, maxInlineDepth := options.maxInlineDepth, scopes }, options.maxInlineDepth, t⟩
  | step {p q} (hp : Reached options program p) (hstep : p.Step q) : Reached options program q

/-! ## What holds at every point -/

/-- How many scopes something opens, without those of the calls in it. -/
def Task.nesting : Task → Nat
  | stmt s => s.nesting
  | body b => Stmt.nestingBody b
  | expr _ | exprs _ | args .. | call .. | params _ => 0

namespace Point

/-- What is being lowered is lowered without an error, and a function that is entered is declared
and is not being inlined already. -/
def Succeeds : Point → Prop
  | ⟨.expr e, env, n, st⟩ => ∃ v t, e.lower env (spliceWithin n) st = .ok v t
  | ⟨.exprs es, env, n, st⟩ => ∃ vs t, Expr.lowerList env (spliceWithin n) es st = .ok vs t
  | ⟨.args f given span index params bindings es, env, n, st⟩ =>
    ∃ vs t, Expr.lowerArgs env (spliceWithin n) f given span index params bindings es st = .ok vs t
  | ⟨.stmt s, env, n, st⟩ => ∃ out t, s.lower env (spliceWithin n) st = .ok out t
  | ⟨.body body, env, n, st⟩ =>
    ∃ actions t, Stmt.lowerBody env (spliceWithin n) body st = .ok actions t
  | ⟨.call decl args span, env, n, st⟩ =>
    (∃ out t, FunctionDecl.inline (spliceWithin n) env decl args span st = .ok out t) ∧
      (∃ name, env.declarations.functions.get? name = some decl) ∧ decl.name ∉ env.inlining
  | ⟨.params params, env, _, st⟩ => ∃ out t, FunctionDecl.bindParams env params st = .ok out t

/-- What holds at every point of lowering a program without an error. -/
structure Sound (p : Point) : Prop where
  ready : p.env.Ready p.state.slots p.task.nesting
  succeeds : p.Succeeds

section

variable {env : Env} {n : Nat} {st : LowerState}

theorem succeeds_cons {e : Expr} {es : List Expr} {v : Lowered} {t : LowerState}
    (hv : e.lower env (spliceWithin n) st = .ok v t) (hes : Succeeds ⟨.exprs es, env, n, t⟩) :
    Succeeds ⟨.exprs (e :: es), env, n, st⟩ := by
  obtain ⟨vs, t', hvs⟩ := hes
  refine ⟨⟨v.before ++ vs.before, v.value :: vs.values⟩, t', ?_⟩
  simp only [Expr.lowerList, Lower.bind_ok, Lower.pure_ok]
  exact ⟨v, t, hv, vs, t', hvs, rfl, rfl⟩

theorem succeeds_nil : Succeeds ⟨.exprs [], env, n, st⟩ := ⟨_, _, rfl⟩

/-- The parts of an expression are lowered one after the other. -/
theorem succeeds_parts {e : Expr} (h : Succeeds ⟨.expr e, env, n, st⟩) :
    Succeeds ⟨.exprs e.parts, env, n, st⟩ := by
  obtain ⟨v, t, h⟩ := h
  cases e with
  | number | string | boolean | ident | call => exact succeeds_nil
  | array span item items =>
    obtain ⟨explicit, vs, v, -, hvs, -⟩ := Expr.lower_array_ok h
    exact ⟨vs, _, hvs⟩
  | binary span op left right =>
    obtain ⟨lhs, t', rhs, v, hlhs, hrhs, -⟩ := Expr.lower_binary_ok h
    exact succeeds_cons hlhs (succeeds_cons hrhs succeeds_nil)
  | not span operand =>
    obtain ⟨o, ho, -⟩ := Expr.lower_not_ok h
    exact succeeds_cons ho succeeds_nil
  | typeOf span operand =>
    obtain ⟨o, ho, -⟩ := Expr.lower_typeOf_ok h
    exact succeeds_cons ho succeeds_nil
  | index span object place =>
    obtain ⟨a, t', i, item, ha, hi, -⟩ := Expr.lower_index_ok h
    exact succeeds_cons ha (succeeds_cons hi succeeds_nil)

/-- The parts of a statement are lowered one after the other. -/
theorem succeeds_stmtParts {s : Stmt} (h : Succeeds ⟨.stmt s, env, n, st⟩) :
    Succeeds ⟨.exprs s.parts, env, n, st⟩ := by
  obtain ⟨⟨scopes, action⟩, t, h⟩ := h
  cases s with
  | block | count | stop | next | call => exact succeeds_nil
  | declare span name ty value constant =>
    obtain ⟨-, annotated, lowered, t', ty', slot, -, hlowered, -⟩ := Stmt.lower_declare_ok h
    rcases Stmt.lowerOption_ok hlowered with ⟨rfl, -⟩ | ⟨e, v, rfl, hv, -⟩
    · exact succeeds_nil
    · exact succeeds_cons hv succeeds_nil
  | assign span name value =>
    obtain ⟨ty, slot, v, -, hv, -⟩ := Stmt.lower_assign_ok h
    exact succeeds_cons hv succeeds_nil
  | assignField span object field value =>
    obtain ⟨o, t', v, ho, hv, -⟩ := Stmt.lower_assignField_ok h
    exact succeeds_cons ho (succeeds_cons hv succeeds_nil)
  | branch span condition body otherwise =>
    cases otherwise with
    | none =>
      obtain ⟨v, t', actions, hv, -⟩ := Stmt.lower_branch_ok h
      exact succeeds_cons hv succeeds_nil
    | some otherwise =>
      obtain ⟨v, t', save, saved, t₁, actions, t₂, actions', hv, -⟩ := Stmt.lower_branchElse_ok h
      exact succeeds_cons hv succeeds_nil
  | loop span condition body =>
    obtain ⟨v, t', actions, hv, -⟩ := Stmt.lower_loop_ok h
    exact succeeds_cons hv succeeds_nil
  | ret span value =>
    obtain ⟨-, ⟨rfl, -⟩ | ⟨function, r, e, v, rfl, -, hv, -⟩⟩ := Stmt.lower_ret_ok h
    · exact succeeds_nil
    · exact succeeds_cons hv succeeds_nil

/-- What a call of one of the program's own functions consists of. -/
theorem succeeds_own {task : Task} {span : Span} {name : String} {args : List Expr}
    {decl : FunctionDecl} (hcall : task.call? = some (span, name, args))
    (hdecl : env.declarations.functions.get? name = some decl)
    (h : Succeeds ⟨task, env, n, st⟩) : ∃ splice vs t out u,
      env.MayCall (spliceWithin n) decl args.length splice ∧
      Expr.lowerList env (spliceWithin n) args st = .ok vs t ∧
      splice env decl vs.values span t = .ok out u := by
  cases task with
  | expr e =>
    cases e with
    | call span' name' es =>
      cases hcall
      obtain ⟨v, t, h⟩ := h
      rcases Expr.lower_call_ok h with
        ⟨decl', splice, vs, u, body, r, hdecl', hmay, hvs, hout, -⟩ | ⟨f, vs, ty, hnone, -⟩
      · rw [hdecl] at hdecl'
        cases hdecl'
        exact ⟨splice, vs, u, _, t, hmay, hvs, hout⟩
      · rw [hdecl] at hnone
        cases hnone
    | _ => cases hcall
  | stmt s =>
    cases s with
    | call span' name' es =>
      cases hcall
      obtain ⟨⟨scopes, action⟩, t, h⟩ := h
      obtain ⟨-, ⟨decl', splice, vs, u, out, hdecl', hmay, hvs, hout, -⟩ | ⟨f, vs, hnone, -⟩⟩ :=
        Stmt.lower_call_ok h
      · rw [hdecl] at hdecl'
        cases hdecl'
        exact ⟨splice, vs, u, out, t, hmay, hvs, hout⟩
      · rw [hdecl] at hnone
        cases hnone
    | _ => cases hcall
  | _ => cases hcall

/-- The arguments of a target function are lowered. -/
theorem succeeds_target {task : Task} {span : Span} {name : String} {args : List Expr}
    {f : FunctionDef} (hcall : task.call? = some (span, name, args))
    (hdecl : env.declarations.functions.get? name = none) (hf : FunctionDef.find? name = some f)
    (h : Succeeds ⟨task, env, n, st⟩) :
    Succeeds ⟨.args f args.length span 0 f.params .empty args, env, n, st⟩ := by
  cases task with
  | expr e =>
    cases e with
    | call span' name' es =>
      cases hcall
      obtain ⟨v, t, h⟩ := h
      rcases Expr.lower_call_ok h with
        ⟨decl', splice, vs, u, body, r, hdecl', -⟩ | ⟨f', vs, ty, -, hf', hvs, -⟩
      · rw [hdecl] at hdecl'
        cases hdecl'
      · rw [hf] at hf'
        cases hf'
        exact ⟨vs, t, hvs⟩
    | _ => cases hcall
  | stmt s =>
    cases s with
    | call span' name' es =>
      cases hcall
      obtain ⟨⟨scopes, action⟩, t, h⟩ := h
      obtain ⟨-, ⟨decl', splice, vs, u, out, hdecl', -⟩ | ⟨f', vs, -, hf', hvs, -⟩⟩ :=
        Stmt.lower_call_ok h
      · rw [hdecl] at hdecl'
        cases hdecl'
      · rw [hf] at hf'
        cases hf'
        exact ⟨vs, t, hvs⟩
    | _ => cases hcall
  | _ => cases hcall

end

/-- **Where a point succeeds, the next ones do.** -/
theorem Step.succeeds {p q : Point} (hp : p.Succeeds) (h : p.Step q) : q.Succeeds := by
  -- A step says what was lowered on the way. Lowering the whole task has lowered the same before,
  -- so the step ends in a state that the whole task has gone through.
  cases h with
  | exprParts => exact succeeds_parts hp
  | stmtParts => exact succeeds_stmtParts hp
  | exprsHead =>
    obtain ⟨vs, u, h⟩ := hp
    obtain ⟨v, t, rest, hv, -⟩ := Expr.lowerList_cons_ok h
    exact ⟨v, t, hv⟩
  | exprsTail hv =>
    obtain ⟨vs, u, h⟩ := hp
    obtain ⟨v', t', rest, hv', hrest, -⟩ := Expr.lowerList_cons_ok h
    obtain ⟨rfl, rfl⟩ := Lower.ok_unique hv hv'
    exact ⟨rest, u, hrest⟩
  | ownArgs hcall hdecl =>
    obtain ⟨splice, vs, t, out, u, -, hvs, -⟩ := succeeds_own hcall hdecl hp
    exact ⟨vs, t, hvs⟩
  | callee hcall hdecl hvs =>
    obtain ⟨splice, vs', t', out, u, hmay, hvs', hout⟩ := succeeds_own hcall hdecl hp
    obtain ⟨rfl, rfl⟩ := Lower.ok_unique hvs hvs'
    have hsplice := hmay.splice
    cases hsplice
    exact ⟨⟨out, u, hout⟩, ⟨_, hdecl⟩, hmay.not_inlining⟩
  | targetArgs hcall hdecl hf => exact succeeds_target hcall hdecl hf hp
  | argsTemplate htemplate =>
    obtain ⟨vs, u, h⟩ := hp
    obtain ⟨p, ps, hparams, ⟨-, s, text, rest, -, hrest, -⟩ | ⟨hplain, -⟩⟩ :=
      Expr.lowerArgs_cons_ok h
    · cases hparams
      exact ⟨rest, u, hrest⟩
    · cases hparams
      rw [htemplate] at hplain
      cases hplain
  | argsHead hplain =>
    obtain ⟨vs, u, h⟩ := hp
    obtain ⟨p, ps, hparams, ⟨htemplate, -⟩ | ⟨-, v, t, bindings', rest, hv, -⟩⟩ :=
      Expr.lowerArgs_cons_ok h
    · cases hparams
      rw [htemplate] at hplain
      cases hplain
    · exact ⟨v, t, hv⟩
  | argsTail hplain hv hfits =>
    obtain ⟨vs, u, h⟩ := hp
    obtain ⟨p, ps, hparams, ⟨htemplate, -⟩ | ⟨-, v', t', bindings', rest, hv', hfits', hrest, -⟩⟩ :=
      Expr.lowerArgs_cons_ok h
    · cases hparams
      rw [htemplate] at hplain
      cases hplain
    · cases hparams
      obtain ⟨rfl, rfl⟩ := Lower.ok_unique hv hv'
      obtain rfl := Except.ok.inj (hfits.symm.trans hfits')
      exact ⟨rest, u, hrest⟩
  | block =>
    obtain ⟨⟨scopes, action⟩, u, h⟩ := hp
    obtain ⟨actions, hbody, -⟩ := Stmt.lower_block_ok h
    exact ⟨actions, u, hbody⟩
  | branch hv =>
    obtain ⟨⟨scopes, action⟩, u, h⟩ := hp
    obtain ⟨v', t', actions, hv', -, hbody, -⟩ := Stmt.lower_branch_ok h
    obtain ⟨rfl, rfl⟩ := Lower.ok_unique hv hv'
    exact ⟨actions, u, hbody⟩
  | branchThen hv hsave =>
    obtain ⟨⟨scopes, action⟩, u, h⟩ := hp
    obtain ⟨v', t', save, saved', t₁', actions, t₂, actions', hv', -, hsave', hbody, -⟩ :=
      Stmt.lower_branchElse_ok h
    obtain ⟨rfl, rfl⟩ := Lower.ok_unique hv hv'
    obtain ⟨rfl, rfl⟩ := Lower.ok_unique hsave hsave'
    exact ⟨actions, t₂, hbody⟩
  | branchElse hv hsave hbody =>
    obtain ⟨⟨scopes, action⟩, u, h⟩ := hp
    obtain ⟨v', t', save, saved', t₁', actions', t₂', actions'', hv', -, hsave', hbody', hother,
      -⟩ := Stmt.lower_branchElse_ok h
    obtain ⟨rfl, rfl⟩ := Lower.ok_unique hv hv'
    obtain ⟨rfl, rfl⟩ := Lower.ok_unique hsave hsave'
    obtain ⟨rfl, rfl⟩ := Lower.ok_unique hbody hbody'
    exact ⟨actions'', u, hother⟩
  | loop hv =>
    obtain ⟨⟨scopes, action⟩, u, h⟩ := hp
    obtain ⟨v', t', actions, hv', -, hbody, -⟩ := Stmt.lower_loop_ok h
    obtain ⟨rfl, rfl⟩ := Lower.ok_unique hv hv'
    exact ⟨actions, u, hbody⟩
  | bounds =>
    obtain ⟨⟨scopes, action⟩, u, h⟩ := hp
    obtain ⟨a, t₁, b, t₂, slot, t₃, actions, ha, hb, -⟩ := Stmt.lower_count_ok h
    exact succeeds_cons ha (succeeds_cons hb succeeds_nil)
  | count hvs hslot =>
    obtain ⟨⟨scopes, action⟩, u, h⟩ := hp
    obtain ⟨a, t₁, b, t₂, slot', t₃, actions, ha, hb, -, -, hslot', hbody, -⟩ :=
      Stmt.lower_count_ok h
    obtain ⟨a', t₁', rest, ha', hrest, rfl⟩ := Expr.lowerList_cons_ok hvs
    obtain ⟨rfl, rfl⟩ := Lower.ok_unique ha ha'
    obtain ⟨b', t₂', rest', hb', hrest', rfl⟩ := Expr.lowerList_cons_ok hrest
    obtain ⟨rfl, rfl⟩ := Lower.ok_unique hb hb'
    obtain ⟨-, rfl⟩ := Expr.lowerList_nil_ok hrest'
    obtain ⟨rfl, rfl⟩ := Lower.ok_unique hslot hslot'
    exact ⟨actions, u, hbody⟩
  | bodyHead =>
    obtain ⟨actions, u, h⟩ := hp
    obtain ⟨scopes, action, t, rest, hs, -⟩ := Stmt.lowerBody_cons_ok h
    exact ⟨_, t, hs⟩
  | bodyTail hs =>
    obtain ⟨actions, u, h⟩ := hp
    obtain ⟨scopes', action', t', rest, hs', hrest, -⟩ := Stmt.lowerBody_cons_ok h
    obtain ⟨heq, rfl⟩ := Lower.ok_unique hs hs'
    cases heq
    exact ⟨rest, u, hrest⟩
  | params hgenerics hbindings hret =>
    obtain ⟨⟨out, u, h⟩, -, -⟩ := hp
    obtain ⟨generics', bindings', ret', scopes, params, body, t₁, t₂, hgenerics', hbindings', hret',
      hparams, -⟩ := FunctionDecl.inline_ok h
    obtain rfl := Except.ok.inj (hgenerics.symm.trans hgenerics')
    obtain rfl := Except.ok.inj (hbindings.symm.trans hbindings')
    obtain ⟨rfl, rfl⟩ := Lower.ok_unique hret hret'
    exact ⟨_, t₂, hparams⟩
  | paramsTail hty hslot =>
    obtain ⟨⟨scopes, actions⟩, u, h⟩ := hp
    obtain ⟨hhere, ty', slot', t', actions', hty', hslot', hrest, -⟩ :=
      FunctionDecl.bindParams_cons_ok h
    obtain rfl := Except.ok.inj (hty.symm.trans hty')
    obtain ⟨rfl, rfl⟩ := Lower.ok_unique hslot hslot'
    exact ⟨_, u, hrest⟩
  | callBody hgenerics hbindings hret hparams =>
    obtain ⟨⟨out, u, h⟩, -, -⟩ := hp
    obtain ⟨generics', bindings', ret', scopes', params', body, t₁', t₂', hgenerics', hbindings',
      hret', hparams', hbody, -⟩ := FunctionDecl.inline_ok h
    obtain rfl := Except.ok.inj (hgenerics.symm.trans hgenerics')
    obtain rfl := Except.ok.inj (hbindings.symm.trans hbindings')
    obtain ⟨rfl, rfl⟩ := Lower.ok_unique hret hret'
    obtain ⟨heq, rfl⟩ := Lower.ok_unique hparams hparams'
    cases heq
    exact ⟨body, u, hbody⟩

/-- The place of both branches of a condition. -/
theorem ready_branch {env : Env} {n nesting : Nat} {st t t₁ : LowerState} {condition : Expr}
    {v : Lowered} {span : Span} {saved : List Action × Value}
    (h : env.Ready st.slots (nesting + 1))
    (hv : condition.lower env (spliceWithin n) st = .ok v t)
    (hsave : Stmt.saveCondition v.value span t = .ok saved t₁) :
    (env.push .block).Ready t₁.slots nesting := by
  have hg := Expr.lower_grown (spliceWithin_grows n) (h.le (Nat.zero_le _)) hv
  have hg' : Grown env.scopes.depth t.slots t₁.slots saved.1 :=
    Stmt.saveCondition_kept hg.valid hsave
  exact ((h.grown hg).grown hg').push (.inl rfl)

/-- The place at the start of a call. -/
theorem ready_call {env : Env} {st t : LowerState} {name : String} {decl : FunctionDecl}
    {span : Span} {generics : Scopes} {bindings : Bindings} {ret : Option ReturnSlot}
    (henv : env.Ready st.slots 0) (hdecl : env.declarations.functions.get? name = some decl)
    (hnew : decl.name ∉ env.inlining)
    (hgenerics : FunctionDecl.declareGenerics env (env.scopes.push (.function decl.name none))
      decl.generics = .ok generics)
    (hret : FunctionDecl.reserveReturn
      { env with scopes := FunctionDecl.bindGenerics bindings generics decl.generics } decl span
      { st with log := .inlining decl.name env.inlining.length :: st.log } = .ok ret t) :
    (FunctionDecl.entered env decl (FunctionDecl.bindGenerics bindings generics decl.generics)
      ret).Ready t.slots (Stmt.nestingBody decl.body) := by
  obtain ⟨types, htypes⟩ := FunctionDecl.entered_eq bindings ret hgenerics
  obtain ⟨hvalid, hextend, hnext⟩ := FunctionDecl.reserveReturn_grown (by exact henv.valid) hret
  rw [htypes]
  exact FunctionDecl.ready_entered types henv hdecl hnew hvalid hextend hnext

/-- The place of the body of a counting loop. -/
theorem ready_count {env : Env} {n nesting : Nat} {st t t₁ : LowerState} {es : List Expr}
    {vs : LoweredList} {marker : String} {span : Span} {slot : Slot}
    (h : env.Ready st.slots (nesting + 2))
    (hvs : Expr.lowerList (env.push .block) (spliceWithin n) es st = .ok vs t)
    (hslot : Lower.intern marker (env.scopes.depth + 1) span t = .ok slot t₁) :
    ({ env with scopes := Stmt.countScopes env.scopes marker slot } : Env).Ready t₁.slots
      nesting := by
  have houter := (h.push (.inl rfl)).le (Nat.zero_le _)
  have hready := h.grown (Expr.lowerList_grown (spliceWithin_grows n) houter hvs)
  have hgrant := Lower.intern_granted hready.valid hready.inner_lt hslot
  have hready' : env.Ready t₁.slots (nesting + 2) :=
    ⟨hgrant.valid, hready.stored.extend hgrant.extend, hready.room⟩
  exact hready'.count hgrant.get?

/-- What a step has lowered on its way leaves room and keeps the slots in order. -/
theorem Step.ready {p q : Point} (hp : p.Sound) (h : p.Step q) :
    q.env.Ready q.state.slots q.task.nesting := by
  have hready₀ := hp.ready.le (Nat.zero_le _)
  cases h with
  | exprParts | stmtParts | exprsHead | ownArgs | targetArgs | argsTemplate | argsHead =>
    exact hready₀
  | exprsTail hv => exact hp.ready.grown (Expr.lower_grown (spliceWithin_grows _) hp.ready hv)
  | argsTail _ hv => exact hp.ready.grown (Expr.lower_grown (spliceWithin_grows _) hp.ready hv)
  | callee _ _ hvs =>
    exact hready₀.grown (Expr.lowerList_grown (spliceWithin_grows _) hready₀ hvs)
  | block => exact hp.ready.push (.inl rfl)
  | branch hv =>
    exact (hp.ready.grown (Expr.lower_grown (spliceWithin_grows _) hready₀ hv)).push (.inl rfl)
  | branchThen hv hsave => exact (ready_branch hp.ready hv hsave).le (Nat.le_max_left _ _)
  | branchElse hv hsave hbody =>
    have hready := ready_branch hp.ready hv hsave
    have hk := Stmt.lowerBody_kept (spliceWithin_grows _) (hready.le (Nat.le_max_left _ _)) hbody
    exact (hready.kept hk).le (Nat.le_max_right _ _)
  | loop hv =>
    exact (hp.ready.grown (Expr.lower_grown (spliceWithin_grows _) hready₀ hv)).push (.inr rfl)
  | bounds => exact (hp.ready.push (.inl rfl)).le (Nat.zero_le _)
  | count hvs hslot => exact ready_count hp.ready hvs hslot
  | bodyHead => exact hp.ready.le (Nat.le_max_left _ _)
  | bodyTail hs =>
    obtain ⟨hk, hd⟩ :=
      Stmt.lower_kept (spliceWithin_grows _) (hp.ready.le (Nat.le_max_left _ _)) hs
    exact ((hp.ready.kept hk).le (Nat.le_max_right _ _)).declares hd
  | params hgenerics _ hret =>
    obtain ⟨-, ⟨name, hdecl⟩, hnew⟩ := hp.succeeds
    exact (ready_call hp.ready hdecl hnew hgenerics hret).le (Nat.zero_le _)
  | paramsTail hty hslot =>
    obtain ⟨⟨scopes, actions⟩, u, h⟩ := hp.succeeds
    obtain ⟨hhere, -⟩ := FunctionDecl.bindParams_cons_ok h
    have hgrant := Lower.intern_granted hp.ready.valid hp.ready.depth_lt hslot
    have hready : Env.Ready _ _ _ :=
      ⟨hgrant.valid, hp.ready.stored.extend hgrant.extend, hp.ready.room⟩
    exact hready.declares (.declare .refl hhere rfl hgrant.get?)
  | callBody hgenerics _ hret hparams =>
    obtain ⟨-, ⟨name, hdecl⟩, hnew⟩ := hp.succeeds
    have hready := ready_call hp.ready hdecl hnew hgenerics hret
    obtain ⟨hk, hd⟩ := FunctionDecl.bindParams_kept (hready.le (Nat.zero_le _)) hparams
    exact (hready.kept hk).declares hd

/-- **What holds at a point holds at the next ones.** -/
theorem Step.sound {p q : Point} (hp : p.Sound) (h : p.Step q) : q.Sound :=
  ⟨h.ready hp, h.succeeds hp.succeeds⟩

end Point

/-! ## The points of a program -/

namespace EventDecl

/-- What a trigger provides has no slots. -/
theorem declareArgs_stored {span : Span} {args : List (String × EventArg)} {s scopes : Scopes}
    {slots : Slots} (hs : Scopes.Stored slots s.open_) (h : declareArgs span s args = .ok scopes) :
    Scopes.Stored slots scopes.open_ ∧ scopes.depth = s.depth := by
  induction args generalizing s with
  | nil =>
    cases h
    exact ⟨hs, rfl⟩
  | cons arg rest ih =>
    obtain ⟨hhere, hrest⟩ := declareArgs_cons_ok h
    have hs' := hs.declare (b := ⟨arg.2.ty, false, .constant arg.2.target⟩) hhere
      fun slot hslot => by cases hslot
    obtain ⟨hstored, hdepth⟩ := ih hs' hrest
    exact ⟨hstored, hdepth.trans Scopes.depth_declare⟩

/-- The place at the start of an event. -/
theorem ready {declarations : Declarations} (maxInlineDepth : Nat) {event : EventDecl}
    {span : Span} {args : List (String × EventArg)} {scopes : Scopes} {slots : Slots}
    (hs : slots.Valid) (hscopes : declareArgs span (Scopes.empty.push .block) args = .ok scopes)
    (hroom : Stmt.nestingBody event.body + 1 +
      Declarations.callNesting [] declarations.functions.entries < Slots.hiddenDepth) :
    ({ declarations, maxInlineDepth, scopes } : Env).Ready slots
      (Stmt.nestingBody event.body) := by
  have hempty : Scopes.Stored slots (Scopes.empty.push .block).open_ :=
    Scopes.Stored.push (l := []) trivial (.inl rfl)
  obtain ⟨hstored, hdepth⟩ := declareArgs_stored hempty hscopes
  refine ⟨hs, hstored, ?_⟩
  show scopes.depth + _ + Declarations.callNesting [] declarations.functions.entries < _
  rw [hdepth]
  show 0 + 1 + _ + _ < _
  omega

end EventDecl

namespace Program

/-- Lowering events keeps the slots valid, and hands out more of them. -/
theorem lowerEvents_kept {declarations : Declarations} {maxInlineDepth : Nat}
    {events : List EventDecl} {rules : List Rule} {st st' : LowerState}
    (hroom : ∀ event ∈ events, Stmt.nestingBody event.body + 1 +
      Declarations.callNesting [] declarations.functions.entries < Slots.hiddenDepth)
    (hs : st.slots.Valid) (h : lowerEvents declarations maxInlineDepth events st = .ok rules st') :
    st'.slots.Valid ∧ st.slots.Extends st'.slots := by
  induction events generalizing st rules with
  | nil =>
    obtain ⟨-, rfl⟩ := lowerEvents_nil_ok h
    exact ⟨hs, .refl _⟩
  | cons event events ih =>
    obtain ⟨rule, t, rest, hevent, hrest, -⟩ := lowerEvents_cons_ok h
    obtain ⟨trigger, scopes, body, t', -, hscopes, hbody, hslots, -⟩ := EventDecl.lower_ok hevent
    have hready := EventDecl.ready maxInlineDepth hs hscopes (hroom event List.mem_cons_self)
    have hk := Stmt.lowerBody_kept (spliceWithin_grows _) hready hbody
    obtain ⟨hvalid, hextend⟩ :=
      ih (fun e he => hroom e (List.mem_cons_of_mem _ he)) (by rw [hslots]; exact hk.valid) hrest
    rw [hslots] at hextend
    exact ⟨hvalid, hk.extend.trans hextend⟩

variable {options : Options} {program : Program} {rules : List Rule} {st : LowerState} {p : Point}

/-- What an event is lowered from, in a program that is lowered without an error. -/
theorem event_ok {declarations : Declarations} {before after : List EventDecl} {event : EventDecl}
    {trigger : EventDef} {scopes : Scopes} {rules' : List Rule} {t : LowerState}
    (h : program.lower options = .ok rules st)
    (hcollect : Declarations.collect program = .ok declarations)
    (hevents : program.events = before ++ event :: after)
    (hbefore : lowerEvents declarations options.maxInlineDepth before
      (start options declarations) = .ok rules' t)
    (htrigger : EventDef.find? event.name = some trigger)
    (hscopes : EventDecl.declareArgs event.span (Scopes.empty.push .block)
      (event.args.zip trigger.args) = .ok scopes) :
    ∃ body t', Stmt.lowerBody { declarations, maxInlineDepth := options.maxInlineDepth, scopes }
      (spliceWithin options.maxInlineDepth) event.body t = .ok body t' := by
  obtain ⟨declarations', u, hcollect', hlower⟩ := lower_ok h
  rw [hcollect] at hcollect'
  cases hcollect'
  rw [hevents] at hlower
  obtain ⟨rules₁, t₁, rules₂, hbefore', hrest, -⟩ := lowerEvents_append_ok hlower
  rw [hbefore] at hbefore'
  cases hbefore'
  obtain ⟨rule, t₂, rest, hevent, -⟩ := lowerEvents_cons_ok hrest
  obtain ⟨trigger', scopes', body, t₃, htrigger', hscopes', hbody, -⟩ := EventDecl.lower_ok hevent
  rw [htrigger] at htrigger'
  cases htrigger'
  rw [hscopes] at hscopes'
  cases hscopes'
  exact ⟨body, t₃, hbody⟩

/-- **Every point of lowering a program without an error succeeds.** -/
theorem Reached.succeeds (h : program.lower options = .ok rules st)
    (hp : Reached options program p) : p.Succeeds := by
  induction hp with
  | step _ hstep ih => exact hstep.succeeds ih
  | event hcollect hevents hbefore htrigger hscopes =>
    exact event_ok h hcollect hevents hbefore htrigger hscopes

/-- The declarations at every point are those of the program. -/
theorem Reached.collect (hp : Reached options program p) :
    Declarations.collect program = .ok p.env.declarations := by
  induction hp with
  | event hcollect => exact hcollect
  | step _ hstep ih => cases hstep <;> exact ih

theorem lowerEvents_append {declarations : Declarations} {maxInlineDepth : Nat}
    {es es' : List EventDecl} {rules rules' : List Rule} {st t st' : LowerState}
    (h : lowerEvents declarations maxInlineDepth es st = .ok rules t)
    (h' : lowerEvents declarations maxInlineDepth es' t = .ok rules' st') :
    lowerEvents declarations maxInlineDepth (es ++ es') st = .ok (rules ++ rules') st' := by
  induction es generalizing st rules with
  | nil =>
    obtain ⟨rfl, rfl⟩ := lowerEvents_nil_ok h
    exact h'
  | cons e es ih =>
    obtain ⟨rule, u, rest, he, hrest, rfl⟩ := lowerEvents_cons_ok h
    simp only [List.cons_append, lowerEvents, Lower.bind_ok, Lower.pure_ok]
    exact ⟨rule, u, he, rest ++ rules', st', ih hrest, rfl, rfl⟩

/-- A rule is what the body of an event is lowered to at a point of lowering the program. -/
structure LoweredAt (options : Options) (program : Program) (rule : Rule) (event : EventDecl)
    (trigger : EventDef) (env : Env) (st st' : LowerState) : Prop where
  find? : EventDef.find? event.name = some trigger
  scopes : EventDecl.declareArgs event.span (Scopes.empty.push .block)
    (event.args.zip trigger.args) = .ok env.scopes
  reached : Reached options program ⟨.body event.body, env, options.maxInlineDepth, st⟩
  body : Stmt.lowerBody env (spliceWithin options.maxInlineDepth) event.body st =
    .ok rule.body st'

/-- **Every rule of a program is lowered at some point.** -/
theorem exists_loweredAt {rule : Rule} (h : program.lower options = .ok rules st)
    (hrule : rule ∈ rules) : ∃ event trigger env st st',
      LoweredAt options program rule event trigger env st st' := by
  obtain ⟨declarations, u, hcollect, hlower⟩ := lower_ok h
  -- The events that are left, after those that have been lowered already.
  suffices hleft : ∀ (events before : List EventDecl) (rules rules' : List Rule) (t : LowerState),
      program.events = before ++ events →
      lowerEvents declarations options.maxInlineDepth before (start options declarations) =
        .ok rules' t →
      lowerEvents declarations options.maxInlineDepth events t = .ok rules u → rule ∈ rules →
      ∃ event trigger env st st', LoweredAt options program rule event trigger env st st' from
    hleft program.events [] rules [] _ rfl rfl hlower hrule
  intro events
  induction events with
  | nil =>
    intro before rules rules' t _ _ hevents hmem
    obtain ⟨rfl, -⟩ := lowerEvents_nil_ok hevents
    cases hmem
  | cons event events ih =>
    intro before rules rules' t hsplit hbefore hevents hmem
    obtain ⟨first, t', rest, hevent, hrest, rfl⟩ := lowerEvents_cons_ok hevents
    rcases List.mem_cons.mp hmem with rfl | hmem
    · obtain ⟨trigger, scopes, body, t'', htrigger, hscopes, hbody, -, rfl⟩ :=
        EventDecl.lower_ok hevent
      exact ⟨event, trigger, _, t, t'', htrigger, hscopes,
        .event hcollect hsplit hbefore htrigger hscopes, hbody⟩
    · have hone : lowerEvents declarations options.maxInlineDepth [event] t = .ok [first] t' := by
        simp only [lowerEvents, Lower.bind_ok, Lower.pure_ok]
        exact ⟨first, t', hevent, [], t', ⟨rfl, rfl⟩, rfl, rfl⟩
      exact ih (before ++ [event]) rest (rules' ++ [first]) t' (by simp [hsplit])
        (lowerEvents_append hbefore hone) hrest hmem

/-- **What holds at the start of an event holds at every point of lowering it.** -/
theorem Reached.sound (h : program.lower options = .ok rules st)
    (hnesting : program.nesting < Slots.hiddenDepth) (hp : Reached options program p) :
    p.Sound := by
  induction hp with
  | step _ hstep ih => exact hstep.sound ih
  | @event declarations before event after rules' trigger scopes t hcollect hevents hbefore htrigger
      hscopes =>
    have hroom := hevents ▸ events_room hcollect hnesting
    have hkept := lowerEvents_kept (fun e he => hroom e (List.mem_append_left _ he))
      (Slots.valid_empty _) hbefore
    exact ⟨EventDecl.ready _ hkept.1 hscopes (hroom event (by simp)),
      event_ok h hcollect hevents hbefore htrigger hscopes⟩

end Program

end RuleScript
