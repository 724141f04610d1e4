import RuleScript.Proofs.Lowering.Footprint
import RuleScript.Proofs.Meaning.Frames
import RuleScript.Proofs.Meaning.Types

/-!
# The meaning of expressions

Preparing an expression runs the calls in it and leaves a computation behind. Lowering it gives the
actions of the calls and leaves a value behind. Running the actions answers the preparation, and the
value answers what is left, however much deeper code runs in between: the value reads variables of
its place and results of calls before it, and deeper code stores to neither.

## Main definitions

* `Env.Reads`: names stand for the same at a place and in a run
* `Answered`: a value answers what is left of an expression
* `Context.Calls`: the code for a call answers the call

## Main results

* `Expr.prepare_performs`: code for an expression answers the expression
* `Expr.run_then`, `Expr.test_then`: the same for an expression and what is done with its datum
-/

namespace RuleScript

open RuleScript.Computation
open RuleScript.Action (execBody)

variable {target : Target} {guard : Guard target} {concrete : Ty → Prop} {rounds : Nat}

/-! ## The types that variables start with -/

namespace Action

mutual

/-- The types of the values that the variables of an action start with. -/
def initials : Action → List Ty
  | block body => initialsBody body
  | branch _ body => initialsBody body
  | loop _ body => initialsBody body
  | declare _ _ value => [value.ty]
  | assign _ _ | assignField _ _ _ | call _ _ | stop | next | noop => []

/-- The types of the values that the variables of a body start with. -/
def initialsBody : List Action → List Ty
  | [] => []
  | a :: as => initials a ++ initialsBody as

end

theorem initialsBody_append (as bs : List Action) :
    initialsBody (as ++ bs) = initialsBody as ++ initialsBody bs := by
  induction as with
  | nil => rfl
  | cons a as ih => simp only [List.cons_append, initialsBody, ih, List.append_assoc]

/-- Everything that a variable starts with has a type of some sort. -/
def Concrete (concrete : Ty → Prop) (body : List Action) : Prop :=
  ∀ ty ∈ initialsBody body, concrete ty

theorem concrete_append {as bs : List Action} :
    Concrete concrete (as ++ bs) ↔ Concrete concrete as ∧ Concrete concrete bs := by
  simp only [Concrete, initialsBody_append, List.forall_mem_append]

theorem concrete_cons {a : Action} {as : List Action} :
    Concrete concrete (a :: as) ↔ Concrete concrete [a] ∧ Concrete concrete as := by
  rw [← List.singleton_append, concrete_append]

theorem concrete_block {body : List Action} :
    Concrete concrete [.block body] ↔ Concrete concrete body := by
  simp [Concrete, initialsBody, initials]

theorem concrete_branch {condition : Value} {body : List Action} :
    Concrete concrete [.branch condition body] ↔ Concrete concrete body := by
  simp [Concrete, initialsBody, initials]

theorem concrete_loopWith {check : List Action} {condition : Value} {body : List Action} :
    Concrete concrete [loopWith check condition body] ↔
      Concrete concrete check ∧ Concrete concrete body := by
  unfold loopWith
  split
  case isTrue h =>
    rw [List.isEmpty_iff.mp h]
    simp [Concrete, initialsBody, initials]
  case isFalse =>
    simp [Concrete, initialsBody, initials, initialsBody_append, or_imp, forall_and]

theorem concrete_behind {before : List Action} {action : Action} :
    Concrete concrete [behind before action] ↔
      Concrete concrete before ∧ Concrete concrete [action] := by
  unfold behind
  split
  case isTrue h =>
    rw [List.isEmpty_iff.mp h]
    simp [Concrete, initialsBody]
  case isFalse => rw [concrete_block, concrete_append]

end Action

/-! ## Names -/

/-- Names stand for the same at a place and in a run. -/
structure Env.Reads (guard : Guard target) (env : Env) (ctx : Context target)
    (cells : Cells target) (frames : Frames target) : Prop where
  declarations_eq : env.declarations = ctx.declarations
  type?_eq : ∀ name, env.scopes.type? name = ctx.types.get? name
  cells : ∀ name, Cell.Matches guard cells (env.scopes.binding? name) (frames.find? name)

section

variable {env : Env} {ctx : Context target} {cells cells' : Cells target} {frames : Frames target}
  {s t : Slots}

theorem Env.Reads.sees (h : env.Reads guard ctx cells frames) :
    env.Sees ctx.declarations ctx.types fun name => (frames.find? name).map Cell.ty :=
  ⟨h.declarations_eq, h.type?_eq, fun name => (h.cells name).ty_eq⟩

/-- Names stand for the same after deeper code has run. -/
theorem Env.Reads.agree {nesting : Nat} (h : env.Reads guard ctx cells frames)
    (henv : env.Ready s nesting) (hagree : Cells.Agree env.scopes.depth s cells cells') :
    env.Reads guard ctx cells' frames := by
  refine ⟨h.declarations_eq, h.type?_eq, fun name => ?_⟩
  refine (h.cells name).agree fun ty mutable slot hb => ?_
  obtain ⟨scope, hscope, hname⟩ := List.exists_of_findSome?_eq_some hb
  obtain ⟨i, hi⟩ := List.getElem?_of_mem hscope
  obtain ⟨key, hkey, hdepth⟩ :=
    henv.not_deeper (Scopes.boundIn_eq_some.mpr ⟨scope, hi, hname⟩) rfl
  exact hagree key slot hkey hdepth

/-- An empty scope adds no names. -/
theorem Env.Reads.push (h : env.Reads guard ctx cells frames) {kind : ScopeKind}
    (hkind : kind.isFunction = false) : (env.push kind).Reads guard ctx cells frames := by
  refine ⟨h.declarations_eq, fun name => (Scopes.type?_push hkind).trans (h.type?_eq name),
    fun name => ?_⟩
  show Cell.Matches guard cells ((env.scopes.push kind).binding? name) _
  rw [Scopes.binding?, Scopes.visible_push hkind]
  exact h.cells name

/-- Reading a name is answered by its value. -/
theorem Env.Reads.ident (h : env.Reads guard ctx cells frames) (hguard : guard.Sound concrete)
    {span : Span} {name : String} {v : Value} (hv : env.ident span name = .ok v) :
    Simulates (fun d d' => d = d' ∧ guard v.ty d' = true) (frames.read name)
      (v.eval guard cells) := by
  have hcell := h.cells name
  unfold Env.ident at hv
  unfold Frames.read
  generalize hb : env.scopes.binding? name = b at hcell hv
  generalize hc : frames.find? name = c at hcell
  cases hcell with
  | @var ty mutable slot stored hstored =>
    cases hv
    cases stored with
    -- Nothing was stored since the declaration: the run is undefined, whatever the slot holds.
    | none => exact .undefined (Value.eval_growing guard cells _)
    | some d =>
      obtain ⟨hcells, hd⟩ := hstored d rfl
      have hload : (Value.read ty slot).eval guard cells = pure d := by
        rw [Value.eval, hcells, load, if_pos hd]
      rw [hload]
      exact Simulates.pure ⟨rfl, hd⟩
  | constant hconstant =>
    cases hv
    exact (Simulates.refl (.constant _)).ensures hconstant
  | none =>
    cases hfind : ConstantDef.find? name with
    | none => simp only [hfind] at hv; cases hv
    | some c =>
      simp only [hfind] at hv ⊢
      cases hv
      exact (Simulates.refl (.constant _)).ensures (hguard.constant hfind)

/-! ## Values -/

/-- A value answers what is left of an expression, however much deeper code runs in between. -/
def Answered (guard : Guard target) (depth : Nat) (slots : Slots) (cells : Cells target)
    (x : Computation target (Datum target.Thing)) (v : Value) : Prop :=
  ∀ cells', Cells.Agree depth slots cells cells' →
    Simulates (fun d d' => d = d' ∧ guard v.ty d' = true) x (v.eval guard cells')

/-- Deeper code runs in between. -/
theorem Answered.later {depth : Nat} {x : Computation target (Datum target.Thing)} {v : Value}
    (h : Answered guard depth s cells x v) (hs : s.Extends t)
    (hagree : Cells.Agree depth s cells cells') : Answered guard depth t cells' x v :=
  fun cells'' h' => h cells'' (hagree.trans (h'.mono hs (Nat.le_refl _)))

/-- What a literal stands for. -/
theorem Answered.of_eval {depth : Nat} {v : Value} {d : Datum target.Thing}
    (h : ∀ cells', v.eval guard cells' = pure d) (hd : guard v.ty d = true) :
    Answered guard depth s cells (pure d) v := by
  intro cells' _
  rw [h]
  exact Simulates.pure ⟨rfl, hd⟩

/-- Values answer what is left of some expressions. -/
abbrev AnsweredList (guard : Guard target) (depth : Nat) (slots : Slots) (cells : Cells target) :
    List (Computation target (Datum target.Thing)) → List Value → Prop :=
  List.Forall₂ (Answered guard depth slots cells)

theorem AnsweredList.later {depth : Nat} {xs : List (Computation target (Datum target.Thing))}
    {vs : List Value} (h : AnsweredList guard depth s cells xs vs) (hs : s.Extends t)
    (hagree : Cells.Agree depth s cells cells') : AnsweredList guard depth t cells' xs vs :=
  h.imp fun _ _ hv => hv.later hs hagree

/-- The data of some values, from left to right. -/
theorem AnsweredList.runList {depth : Nat} {xs : List (Computation target (Datum target.Thing))}
    {vs : List Value} (h : AnsweredList guard depth s cells xs vs) :
    Simulates (fun ds ds' => ds = ds' ∧ List.Forall₂ (fun v d => guard v.ty d = true) vs ds')
      (runList xs) (Value.evalList guard cells vs) := by
  induction h with
  | nil => exact Simulates.pure ⟨rfl, .nil⟩
  | cons hv _ ih =>
    refine (hv cells .refl).bind ?_ fun d =>
      (Value.evalList_growing guard cells _).bind fun _ => .pure _
    rintro d _ ⟨rfl, hd⟩
    refine ih.bind ?_ fun _ => .pure _
    rintro ds _ ⟨rfl, hds⟩
    exact Simulates.pure ⟨rfl, .cons hd hds⟩

/-- The items of an array suit its type. -/
theorem Value.checkItems_ok {item : Ty} {span : Span} {bindings : Bindings} {vs : List Value}
    (h : checkItems item span bindings vs = .ok ()) :
    ∀ v ∈ vs, ∃ b b', Ty.fitsWith b item v.ty span = .ok (true, b') := by
  induction vs generalizing bindings with
  | nil =>
    intro v hv
    cases hv
  | cons first vs ih =>
    rw [checkItems, Except.bind_eq_ok] at h
    obtain ⟨⟨fits, bindings'⟩, hfits, h⟩ := h
    cases fits with
    | false => cases h
    | true =>
      intro v hv
      rcases List.mem_cons.mp hv with rfl | hv
      · exact ⟨_, _, hfits⟩
      · exact ih h v hv

/-- The data of an array literal suit its type. -/
theorem Guard.Sound.items (hguard : guard.Sound concrete) {item : Ty} {span : Span}
    {vs : List Value} {ds : List (Datum target.Thing)}
    (h : Value.checkItems item span .empty vs = .ok ())
    (hds : List.Forall₂ (fun v d => guard v.ty d = true) vs ds) :
    guard (.array item) (.list ds) = true := by
  refine hguard.list fun d hd => ?_
  obtain ⟨i, hi⟩ := List.getElem?_of_mem hd
  obtain ⟨hlt, rfl⟩ := List.getElem?_eq_some_iff.mp hi
  have hlt' : i < vs.length := hds.length_eq ▸ hlt
  obtain ⟨b, b', hfits⟩ := Value.checkItems_ok h vs[i] (List.getElem_mem hlt')
  exact hguard.fits hfits (hds.get hlt' hlt)

/-! ## Arguments that are left out -/

namespace ParamDef

/-- A variadic parameter comes last, and there is no text for it. -/
def variadicLast : List ParamDef → Bool
  | [] => true
  | p :: ps => if p.ty.isVariadic then p.default?.isNone && ps.isEmpty else variadicLast ps

theorem variadicLast_tail {p : ParamDef} {ps : List ParamDef}
    (h : variadicLast (p :: ps) = true) : variadicLast ps = true := by
  rw [variadicLast] at h
  split at h
  · simp only [Bool.and_eq_true, List.isEmpty_iff] at h
    rw [h.2]
    rfl
  · exact h

/-- The values of parameters whose arguments are left out. -/
def defaults (ps : List ParamDef) : List Value :=
  ps.filterMap fun p => p.default?.map (.constant p.ty)

theorem defaults_eq {ps : List ParamDef} {values : List Value} (h : variadicLast ps = true)
    (hvalues : Value.defaults? ps = some values) : values = defaults ps := by
  induction ps generalizing values with
  | nil =>
    cases hvalues
    rfl
  | cons p ps ih =>
    rw [Value.defaults?] at hvalues
    rw [variadicLast] at h
    split at hvalues
    case isTrue hvariadic =>
      simp only [hvariadic, if_true, Bool.and_eq_true, Option.isNone_iff_eq_none,
        List.isEmpty_iff] at h
      obtain ⟨hdefault, rfl⟩ := h
      cases hvalues
      simp [defaults, hdefault]
    case isFalse hvariadic =>
      rw [if_neg hvariadic] at h
      cases hdefault : p.default? with
      | none =>
        simp only [hdefault] at hvalues
        cases hvalues
      | some text =>
        simp only [hdefault, Option.map_eq_some_iff] at hvalues
        obtain ⟨rest, hrest, rfl⟩ := hvalues
        rw [ih h hrest]
        simp [defaults, hdefault]

/-- Once a variadic parameter is reached, no argument is left out. -/
theorem defaults_variadic {p : ParamDef} {ps : List ParamDef} (hvariadic : p.ty.isVariadic = true)
    (h : variadicLast (p :: ps) = true) (n : Nat) :
    defaults ((p :: ps).drop n) = [] ∧ ps = [] := by
  simp only [variadicLast, hvariadic, if_true, Bool.and_eq_true, Option.isNone_iff_eq_none,
    List.isEmpty_iff] at h
  obtain ⟨hdefault, rfl⟩ := h
  cases n with
  | zero => exact ⟨by simp [defaults, hdefault], rfl⟩
  | succ n => exact ⟨by simp [defaults], rfl⟩

/-- The data of arguments that are left out are constants of the target. -/
theorem evalList_defaults (ps : List ParamDef) (cells : Cells target) :
    Value.evalList guard cells (defaults ps) =
      runList ((ps.filterMap (·.default?)).map Computation.constant) := by
  induction ps with
  | nil => rfl
  | cons p ps ih =>
    cases hdefault : p.default? with
    | none =>
      simp only [defaults, List.filterMap_cons, hdefault, Option.map_none]
      exact ih
    | some text =>
      simp only [defaults, List.filterMap_cons, hdefault, Option.map_some, List.map_cons, runList,
        Value.evalList]
      rw [← ih]
      rfl

end ParamDef

/-- In every target function, a variadic parameter comes last. -/
theorem FunctionDef.variadicLast_of_find? {name : String} {f : FunctionDef}
    (h : FunctionDef.find? name = some f) : ParamDef.variadicLast f.params = true := by
  have hall : ∀ f ∈ FunctionDef.all, ParamDef.variadicLast f.params = true := by
    decide +kernel
  exact hall f (List.mem_of_find?_eq_some h)

theorem Value.evalList_append (cells : Cells target) (vs ws : List Value) :
    evalList guard cells (vs ++ ws) = do
      let ds ← evalList guard cells vs
      return ds ++ (← evalList guard cells ws) := by
  induction vs with
  | nil => simp [evalList]
  | cons v vs ih => simp [evalList, ih]

/-! ## Calls -/

/-- The code for a call answers the call: it evaluates the arguments, runs the body, and leaves the
result in a slot without a name. -/
structure Context.Calls (guard : Guard target) (concrete : Ty → Prop) (rounds : Nat)
    (splice? : Option Splice) (ctx : Context target) : Prop where
  sound : guard.Sound concrete
  grows : Splice.Grows splice?
  typed : Splice.Typed splice?
  performed : ∀ {splice env name decl args span st out st' given cells}, splice? = some splice →
    env.Ready st.slots 0 → env.declarations = ctx.declarations →
    env.declarations.functions.get? name = some decl → decl.name ∉ env.inlining →
    args.length = decl.params.length → splice env decl args span st = .ok out st' →
    Action.Concrete concrete out.body →
    AnsweredList guard env.scopes.depth st.slots cells given args →
    (∀ r, out.ret = some r → st'.slots.Hidden r.slot) ∧
    Performs guard rounds out.body cells
      (fun result cells' => ∀ r d, out.ret = some r → result = some d →
        cells' r.slot = some d ∧ guard r.ty d = true)
      (runList given >>= ctx.call decl (args.map (·.ty)))

/-- The types of the arguments of a call are those that lowering sees. -/
theorem Context.callWith_eq {splice? : Option Splice} {args : List Expr} {vs : LoweredList}
    {st st' : LowerState} (hs : Splice.Typed splice?) (hreads : env.Reads guard ctx cells frames)
    (h : Expr.lowerList env splice? args st = .ok vs st') (decl : FunctionDecl)
    (data : List (Datum target.Thing)) :
    ctx.callWith frames decl args data = ctx.call decl (vs.values.map (·.ty)) data := by
  rw [callWith, tyList?, Expr.lowerList_ty hs hreads.sees h]
  exact pure_bind _ _

end

namespace Expr

section

variable {env : Env} {ctx : Context target} {frames : Frames target} {splice? : Option Splice}

/-- What a call stands for once it has run. -/
def orUndefined : Option (Datum target.Thing) → Computation target (Datum target.Thing)
  | some d => pure d
  | none => throw .undefined

/-- The result of a call stands for the call. -/
theorem answered_result {depth : Nat} {slots : Slots} {cells : Cells target} {r : ReturnSlot}
    {result : Option (Datum target.Thing)} (hhidden : slots.Hidden r.slot)
    (h : ∀ d, result = some d → cells r.slot = some d ∧ guard r.ty d = true) :
    Answered guard depth slots cells
      (orUndefined result) (.read r.ty r.slot) := by
  intro cells' hagree
  cases result with
  | none => exact .undefined (Value.eval_growing guard cells' _)
  | some d =>
    obtain ⟨hcells, hd⟩ := h d rfl
    obtain ⟨key, hdepth, hkey⟩ := hhidden
    have hload : (Value.read r.ty r.slot).eval guard cells' = pure d := by
      rw [Value.eval, hagree key r.slot hkey (.inr hdepth), hcells, load, if_pos hd]
    rw [hload]
    exact Simulates.pure ⟨rfl, hd⟩

/-- Constants for arguments that are left out. -/
theorem Plain.runList_constant (texts : List String) :
    Plain (runList (texts.map constant) : Computation target (List (Datum target.Thing))) := by
  induction texts with
  | nil => exact .pure _
  | cons text texts ih => exact (Plain.constant text).bind fun _ => ih.bind fun _ => .pure _

/-- The arguments of a target function: the given ones, and constants for those left out. -/
theorem arguments_simulates {depth : Nat} {slots : Slots} {cells : Cells target} {f : FunctionDef}
    {given : Nat} {values values' : List Value}
    {xs : List (Computation target (Datum target.Thing))}
    (hvalues : values = values' ++ ParamDef.defaults (f.params.drop given))
    (hlen : values'.length = given) (h : AnsweredList guard depth slots cells xs values') :
    Simulates Eq (arguments f xs) (Value.evalList guard cells values) := by
  rw [hvalues, Value.evalList_append, ParamDef.evalList_defaults, arguments, h.length_eq, hlen]
  have hdefaults : ∀ ds, Plain (runList (((f.params.drop given).filterMap (·.default?)).map
      constant) >>= fun ds' => (pure (ds ++ ds') : Computation target _)) :=
    fun ds => (Plain.runList_constant _).bind fun _ => .pure _
  refine h.runList.bind ?_ fun ds => (hdefaults ds).growing
  rintro ds _ ⟨rfl, -⟩
  exact Simulates.refl (hdefaults ds)

/-- A call of one of the program's own functions. -/
theorem prepare_call_eq {decl : FunctionDecl} {name : String} {args : List Expr} {span : Span}
    {vs : LoweredList} {cells : Cells target} {st st' : LowerState} (hs : Splice.Typed splice?)
    (hreads : env.Reads guard ctx cells frames)
    (hdecl : env.declarations.functions.get? name = some decl)
    (h : lowerList env splice? args st = .ok vs st') :
    (Expr.call span name args).prepare ctx frames =
      prepareList ctx frames args >>= fun given =>
        (runList given >>= ctx.call decl (vs.values.map (·.ty))) >>= fun result =>
          pure (orUndefined result) := by
  rw [hreads.declarations_eq] at hdecl
  rw [prepare]
  simp only [hdecl, Context.callWith_eq hs hreads h, bind_assoc]
  congr 1
  funext given
  congr 1
  funext data
  congr 1
  funext result
  cases result <;> rfl

theorem prepareList_cons (e : Expr) (es : List Expr) :
    prepareList ctx frames (e :: es) =
      (e.prepare ctx frames >>= fun x => prepareList ctx frames es >>= fun xs => pure (x, xs)) >>=
        fun p => pure (p.1 :: p.2) := by
  simp only [prepareList, bind_assoc, pure_bind]

/-- What is prepared first is still answered after the code for what is prepared next. -/
theorem prepared_pair {α : Type} {x : Computation target (Computation target (Datum target.Thing))}
    {y : Computation target α} {as bs : List Action} {depth : Nat} {s t u : Slots} {v : Value}
    {cells : Cells target} {Q : α → Cells target → Prop} (hs : s.Valid) (has : Grown depth s t as)
    (hbs : Grown depth t u bs)
    (hx : Performs guard rounds as cells (fun c cells' => Answered guard depth t cells' c v) x)
    (hy : ∀ cells', Cells.Agree depth s cells cells' → Performs guard rounds bs cells' Q y) :
    Performs guard rounds (as ++ bs) cells
      (fun p cells' => Answered guard depth u cells' p.1 v ∧ Q p.2 cells' ∧
        Cells.Agree depth s cells cells')
      (x >>= fun c => y >>= fun d => pure (c, d)) := by
  refine (hx.ensures (has.agree rounds hs cells)).append fun c cells₁ hcells₁ => ?_
  obtain ⟨hc, hagree⟩ := hcells₁
  refine ((hy cells₁ hagree).ensures (hbs.agree rounds has.valid cells₁)).map
    fun d cells₂ hcells₂ => ?_
  obtain ⟨hd, hagree'⟩ := hcells₂
  exact ⟨hc.later hbs.extend hagree', hd, hagree.trans (hagree'.mono has.extend (Nat.le_refl _))⟩

mutual

/-- **Code for an expression answers the expression.** -/
theorem prepare_performs {e : Expr} {out : Lowered} {st st' : LowerState} {cells : Cells target}
    (hctx : ctx.Calls guard concrete rounds splice?) (henv : env.Ready st.slots 0)
    (hreads : env.Reads guard ctx cells frames) (h : e.lower env splice? st = .ok out st')
    (hconcrete : Action.Concrete concrete out.before) :
    Performs guard rounds out.before cells
      (fun x cells' => Answered guard env.scopes.depth st'.slots cells' x out.value)
      (e.prepare ctx frames) := by
  match e with
  | .number span x =>
    obtain ⟨rfl, rfl⟩ := Lower.pure_ok.mp h
    exact .nil (.of_eval (fun _ => rfl) (hctx.sound.number x))
  | .boolean span b =>
    obtain ⟨rfl, rfl⟩ := Lower.pure_ok.mp h
    exact .nil (.of_eval (fun _ => rfl) (hctx.sound.truth b))
  | .string span s =>
    obtain ⟨rfl, rfl⟩ := lower_string_ok h
    exact .nil (.of_eval (fun _ => rfl) (hctx.sound.text s))
  | .ident span name =>
    obtain ⟨v, hv, rfl, rfl⟩ := lower_ident_ok h
    refine .nil fun cells' hagree => ?_
    exact (hreads.agree henv hagree).ident hctx.sound hv
  | .array span item items =>
    obtain ⟨explicit, vs, v, -, hvs, hv, rfl⟩ := lower_array_ok h
    obtain ⟨ty, -, hitems, rfl⟩ := Value.ofItems_ok hv
    refine (prepareList_performs hctx henv hreads hvs hconcrete).map fun xs cells' hxs => ?_
    intro cells'' hagree
    refine (hxs.later (.refl _) hagree).runList.bind ?_ fun _ => .pure _
    rintro ds _ ⟨rfl, hds⟩
    exact Simulates.pure ⟨rfl, hctx.sound.items hitems hds⟩
  | .binary span op left right =>
    obtain ⟨lhs, t, rhs, v, hlhs, hrhs, hv, rfl⟩ := lower_binary_ok h
    simp only [Value.combine, Except.bind_eq_ok] at hv
    obtain ⟨ty, hty, hv⟩ := hv
    cases hv
    obtain ⟨hconcrete, hconcrete'⟩ := Action.concrete_append.mp hconcrete
    have hgl := lower_grown hctx.grows henv hlhs
    have hgr := lower_grown hctx.grows (henv.grown hgl) hrhs
    -- The code for both operands runs before either of them is evaluated.
    have hprepare : (Expr.binary span op left right).prepare ctx frames =
        (left.prepare ctx frames >>= fun x => right.prepare ctx frames >>= fun y => pure (x, y)) >>=
          fun p => pure (p.1 >>= fun a => p.2 >>= fun b => op.apply a b) := by
      simp only [prepare, bind_assoc, pure_bind]
    rw [hprepare]
    refine (prepared_pair henv.valid hgl hgr (prepare_performs hctx henv hreads hlhs hconcrete)
      fun cells' hagree => prepare_performs hctx (henv.grown hgl) (hreads.agree henv hagree) hrhs
        hconcrete').map fun p cells₁ hp => ?_
    obtain ⟨hx, hy, -⟩ := hp
    intro cells₂ hagree
    refine (hx cells₂ hagree).bind ?_ fun _ =>
      (Value.eval_growing guard cells₂ _).bind fun _ => (op.apply_plain _ _).growing
    rintro a _ ⟨rfl, ha⟩
    refine (hy cells₂ hagree).bind ?_ fun _ => (op.apply_plain _ _).growing
    rintro b _ ⟨rfl, hb⟩
    exact (Simulates.refl (op.apply_plain _ _)).ensures (hctx.sound.apply hty ha hb)
  | .not span operand =>
    obtain ⟨o, ho, -, rfl⟩ := lower_not_ok h
    refine (prepare_performs hctx henv hreads ho hconcrete).map fun x cells' hx => ?_
    intro cells'' hagree
    refine (hx cells'' hagree).bind ?_ fun _ => (Plain.negate _).growing
    rintro d _ ⟨rfl, -⟩
    refine (Simulates.refl (.negate d)).ensures ((Ensures.trivial _).bind fun b _ => .pure ?_)
    exact hctx.sound.truth _
  | .typeOf span operand =>
    obtain ⟨o, ho, rfl⟩ := lower_typeOf_ok h
    have hty : ctx.ty? frames operand = some o.value.ty := lower_ty hctx.typed hreads.sees ho
    refine .nil ?_
    rw [hty]
    exact .of_eval (fun _ => rfl) (hctx.sound.text _)
  | .index span object place =>
    obtain ⟨a, t, i, item, ha, hi, hty, -, rfl⟩ := lower_index_ok h
    obtain ⟨hconcrete, hconcrete'⟩ := Action.concrete_append.mp hconcrete
    have hga := lower_grown hctx.grows henv ha
    have hgi := lower_grown hctx.grows (henv.grown hga) hi
    have hprepare : (Expr.index span object place).prepare ctx frames =
        (object.prepare ctx frames >>= fun x =>
          place.prepare ctx frames >>= fun y => pure (x, y)) >>=
            fun p => pure (p.1 >>= fun a => p.2 >>= fun i => Computation.item a i) := by
      simp only [prepare, bind_assoc, pure_bind]
    rw [hprepare]
    refine (prepared_pair henv.valid hga hgi (prepare_performs hctx henv hreads ha hconcrete)
      fun cells' hagree => prepare_performs hctx (henv.grown hga) (hreads.agree henv hagree) hi
        hconcrete').map fun p cells₁ hp => ?_
    obtain ⟨hx, hy, -⟩ := hp
    intro cells₂ hagree
    refine (hx cells₂ hagree).bind ?_ fun _ =>
      (Value.eval_growing guard cells₂ _).bind fun _ => (Plain.item _ _).growing
    rintro d _ ⟨rfl, hd⟩
    refine (hy cells₂ hagree).bind ?_ fun _ => (Plain.item _ _).growing
    rintro d' _ ⟨rfl, -⟩
    rw [hty] at hd
    exact (Simulates.refl (.item _ _)).ensures (hctx.sound.item hd)
  | .call span name args =>
    rcases lower_call_ok h with
      ⟨decl, splice, vs, t, body, r, hdecl, hcall, hvs, hspliced, rfl⟩ |
      ⟨f, vs, ty, hdecl, hf, hvs, hret, rfl⟩
    -- A function of the program is called now, and its result waits in a hidden slot.
    · rw [prepare_call_eq hctx.typed hreads hdecl hvs]
      obtain ⟨hconcrete, hconcrete'⟩ := Action.concrete_append.mp hconcrete
      have hg := lowerList_grown hctx.grows henv hvs
      have hlen : vs.values.length = decl.params.length := by
        rw [lowerList_length hvs, hcall.arity]
      refine (prepareList_performs hctx henv hreads hvs hconcrete).append
        fun given cells' hgiven => ?_
      obtain ⟨hhidden, hperformed⟩ := hctx.performed hcall.splice (henv.grown hg)
        hreads.declarations_eq hdecl hcall.not_inlining hlen hspliced
        (Action.concrete_block.mp hconcrete') hgiven
      refine hperformed.block.map fun result cells'' hresult => ?_
      exact answered_result (hhidden r rfl) fun d hd => hresult r d rfl hd
    -- A value of the target is asked for only when the expression is evaluated.
    · rw [hreads.declarations_eq] at hdecl
      obtain ⟨given, hvalues, hlen, hperformed⟩ := lowerArgs_performs hctx henv hreads hvs
        (FunctionDef.variadicLast_of_find? hf) hconcrete
      have hprepare : (Expr.call span name args).prepare ctx frames =
          prepareList ctx frames args >>= fun xs =>
            pure (arguments f xs >>= fun ds => value f.target ds) := by
        rw [prepare]
        simp only [hdecl, hf]
      rw [hprepare]
      refine hperformed.map fun xs cells' hxs => ?_
      intro cells'' hagree
      refine SimulatesVia.bind (arguments_simulates hvalues hlen (hxs.later (.refl _) hagree)) ?_
        fun _ => (Plain.value _ _).growing
      rintro ds _ rfl
      exact (Simulates.refl (.value _ _)).ensures (hctx.sound.value hf hret)

theorem prepareList_performs {es : List Expr} {vs : LoweredList} {st st' : LowerState}
    {cells : Cells target} (hctx : ctx.Calls guard concrete rounds splice?)
    (henv : env.Ready st.slots 0) (hreads : env.Reads guard ctx cells frames)
    (h : lowerList env splice? es st = .ok vs st')
    (hconcrete : Action.Concrete concrete vs.before) :
    Performs guard rounds vs.before cells
      (fun xs cells' => AnsweredList guard env.scopes.depth st'.slots cells' xs vs.values)
      (prepareList ctx frames es) := by
  match es with
  | [] =>
    obtain ⟨rfl, rfl⟩ := lowerList_nil_ok h
    exact .nil .nil
  | e :: es =>
    obtain ⟨v, t, rest, hv, hrest, rfl⟩ := lowerList_cons_ok h
    obtain ⟨hconcrete, hconcrete'⟩ := Action.concrete_append.mp hconcrete
    have hg := lower_grown hctx.grows henv hv
    have hgrest := lowerList_grown hctx.grows (henv.grown hg) hrest
    rw [prepareList_cons]
    refine (prepared_pair henv.valid hg hgrest (prepare_performs hctx henv hreads hv hconcrete)
      fun cells' hagree => prepareList_performs hctx (henv.grown hg) (hreads.agree henv hagree)
        hrest hconcrete').map fun p cells₁ hp => ?_
    obtain ⟨hx, hxs, -⟩ := hp
    exact .cons hx hxs

/-- The arguments of a target function, apart from those that are left out. -/
theorem lowerArgs_performs {f : FunctionDef} {given index : Nat} {span : Span}
    {params : List ParamDef} {bindings : Bindings} {es : List Expr} {vs : LoweredList}
    {st st' : LowerState} {cells : Cells target} (hctx : ctx.Calls guard concrete rounds splice?)
    (henv : env.Ready st.slots 0) (hreads : env.Reads guard ctx cells frames)
    (h : lowerArgs env splice? f given span index params bindings es st = .ok vs st')
    (hparams : ParamDef.variadicLast params = true)
    (hconcrete : Action.Concrete concrete vs.before) :
    ∃ values, vs.values = values ++ ParamDef.defaults (params.drop es.length) ∧
      values.length = es.length ∧
      Performs guard rounds vs.before cells
        (fun xs cells' => AnsweredList guard env.scopes.depth st'.slots cells' xs values)
        (prepareList ctx frames es) := by
  match es with
  | [] =>
    obtain ⟨values, hvalues, rfl, rfl⟩ := lowerArgs_nil_ok h
    exact ⟨[], ParamDef.defaults_eq hparams hvalues, rfl, .nil .nil⟩
  | e :: es =>
    obtain ⟨p, ps, rfl, ⟨-, s, text, rest, rfl, hrest, rfl⟩ |
      ⟨-, v, t, bindings', rest, hv, -, hrest, rfl⟩⟩ := lowerArgs_cons_ok h
    · obtain ⟨values, hvalues, hlen, hperformed⟩ := lowerArgs_performs hctx henv hreads hrest
        (ParamDef.variadicLast_tail hparams) hconcrete
      refine ⟨.template .string text :: values, ?_, congrArg Nat.succ hlen, ?_⟩
      · rw [hvalues]
        rfl
      · refine hperformed.map fun xs cells' hxs => .cons ?_ hxs
        exact .of_eval (fun _ => rfl) (hctx.sound.text text)
    · obtain ⟨hconcrete, hconcrete'⟩ := Action.concrete_append.mp hconcrete
      have hg := lower_grown hctx.grows henv hv
      have hgrest := lowerArgs_grown hctx.grows (henv.grown hg) hrest
      have hnext : ParamDef.variadicLast (if p.ty.isVariadic then p :: ps else ps) = true := by
        split
        · exact hparams
        · exact ParamDef.variadicLast_tail hparams
      have hdrop : ParamDef.defaults ((if p.ty.isVariadic then p :: ps else ps).drop es.length) =
          ParamDef.defaults ((p :: ps).drop (e :: es).length) := by
        split
        case isTrue hvariadic =>
          rw [(ParamDef.defaults_variadic hvariadic hparams _).1,
            (ParamDef.defaults_variadic hvariadic hparams _).1]
        case isFalse => rfl
      have hafter : ∀ cells₁, Cells.Agree env.scopes.depth st.slots cells cells₁ → _ :=
        fun cells₁ hagree => lowerArgs_performs hctx (henv.grown hg) (hreads.agree henv hagree)
          hrest hnext hconcrete'
      obtain ⟨values, hvalues, hlen, -⟩ := hafter cells .refl
      refine ⟨v.value :: values, ?_, congrArg Nat.succ hlen, ?_⟩
      · rw [hvalues, hdrop]
        rfl
      · have hothers : ∀ cells', Cells.Agree env.scopes.depth st.slots cells cells' →
            Performs guard rounds rest.before cells'
              (fun xs cells'' => AnsweredList guard env.scopes.depth st'.slots cells'' xs values)
              (prepareList ctx frames es) := by
          intro cells' hagree
          obtain ⟨values', hvalues', hlen', hperformed⟩ := hafter cells' hagree
          obtain rfl : values = values' :=
            List.append_inj_left (hvalues.symm.trans hvalues') (hlen.trans hlen'.symm)
          exact hperformed
        rw [prepareList_cons]
        refine (prepared_pair henv.valid hg hgrest
          (prepare_performs hctx henv hreads hv hconcrete) hothers).map fun p cells₁ hp => ?_
        obtain ⟨hx, hxs, -⟩ := hp
        exact .cons hx hxs

end

/-! ## Expressions and what is done with their data -/

section

variable {β γ : Type} {finish : β → Computation target (Exit × Cells target)} {R : γ → β → Prop}
  {e : Expr} {out : Lowered} {st st' : LowerState} {cells : Cells target}

/-- Code for an expression, and what is done with its datum. -/
theorem run_then {f : Datum target.Thing → Computation target γ}
    {k : Cells target → Datum target.Thing → Computation target (Exit × Cells target)}
    (hctx : ctx.Calls guard concrete rounds splice?) (henv : env.Ready st.slots 0)
    (hreads : env.Reads guard ctx cells frames) (h : e.lower env splice? st = .ok out st')
    (hconcrete : Action.Concrete concrete out.before)
    (hf : ∀ d cells', Cells.Agree env.scopes.depth st.slots cells cells' →
      guard out.value.ty d = true → Gives (out.value.eval guard cells') d →
      SimulatesVia finish R (f d) (k cells' d))
    (hk : ∀ cells' d, Growing (k cells' d)) :
    SimulatesVia finish R (e.run ctx frames >>= f)
      (runWith (execBody guard rounds out.before) cells >>= fun p =>
        Exit.andThen p fun cells' => out.value.eval guard cells' >>= k cells') := by
  have hg := lower_grown hctx.grows henv h
  rw [run, bind_assoc]
  refine ((prepare_performs hctx henv hreads h hconcrete).ensures
    (hg.agree rounds henv.valid cells)).andThen (fun x cells' hcells' => ?_)
    fun cells' => (Value.eval_growing guard cells' _).bind (hk cells')
  obtain ⟨hx, hagree⟩ := hcells'
  refine ((hx cells' .refl).ensures (.gives _)).bind ?_ (hk cells')
  rintro d _ ⟨⟨rfl, hd⟩, hgives⟩
  exact hf d cells' hagree hd hgives

/-- Code for a condition, and what is done with its truth value. -/
theorem test_then {f : Bool → Computation target γ}
    {k : Cells target → Bool → Computation target (Exit × Cells target)}
    (hctx : ctx.Calls guard concrete rounds splice?) (henv : env.Ready st.slots 0)
    (hreads : env.Reads guard ctx cells frames) (h : e.lower env splice? st = .ok out st')
    (hconcrete : Action.Concrete concrete out.before)
    (hf : ∀ b cells', Cells.Agree env.scopes.depth st.slots cells cells' →
      SimulatesVia finish R (f b) (k cells' b))
    (hk : ∀ cells' b, Growing (k cells' b)) :
    SimulatesVia finish R (e.test ctx frames >>= f)
      (runWith (execBody guard rounds out.before) cells >>= fun p =>
        Exit.andThen p fun cells' => out.value.truth guard cells' >>= k cells') := by
  simp only [test, Value.truth, bind_assoc]
  refine run_then hctx henv hreads h hconcrete (fun d cells' hagree _ _ => ?_)
    fun cells' d => (Plain.truth d).growing.bind (hk cells')
  refine (Simulates.refl (.truth d)).bind ?_ (hk cells')
  rintro b _ rfl
  exact hf b cells' hagree

end

end

end Expr

end RuleScript
