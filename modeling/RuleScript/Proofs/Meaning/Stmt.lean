import RuleScript.Proofs.Lowering.Isolation
import RuleScript.Proofs.Meaning.Expr

/-!
# The meaning of statements

Running the action of a statement answers running the statement. Both end in the same way, and the
frames match the scopes again. There is one difference on the way: where a statement goes on with
the next round of a counting loop, the run of the loop moves the marker on, while the action has
moved it already. So a statement that ends in this way is answered by an action that still has to
take that step (`Scopes.finish`).

## Main definitions

* `Env.Mirrors`: the frames of a run match the scopes of a place
* `Scopes.finish`: what is done before a statement ends as an action does
* `Ended`: a statement and its action ended in the same way

## Main results

* `Stmt.run_simulates`: running the action of a statement answers running the statement
-/

namespace RuleScript

open RuleScript.Computation
open RuleScript.Action (execBody)

variable {target : Target} {guard : Guard target} {concrete : Ty → Prop} {rounds : Nat}

/-! ## Actions with others before them -/

namespace Action

theorem runWith_behind (before : List Action) (action : Action) (cells : Cells target) :
    runWith ((behind before action).exec guard rounds) cells =
      runWith (execBody guard rounds before) cells >>= fun p =>
        Exit.andThen p fun cells' => runWith (action.exec guard rounds) cells' := by
  unfold behind
  split
  case isTrue h =>
    rw [List.isEmpty_iff.mp h]
    rfl
  case isFalse =>
    rw [exec, runWith_append]
    congr 1
    funext p
    congr 1
    funext cells'
    exact runWith_singleton guard rounds cells' action

/-- One round of a loop whose condition needs actions of its own. -/
def roundWith (guard : Guard target) (rounds : Nat) (check : List Action) (condition : Value)
    (body : List Action) : EStateM Halt (Memory target) Bool := do
  match ← execBody guard rounds check with
  | .normal => round guard rounds condition body
  | exit => return exit.goesOn

theorem runWith_roundWith (check : List Action) (condition : Value) (body : List Action)
    (cells : Cells target) :
    runWith (roundWith guard rounds check condition body) cells =
      runWith (execBody guard rounds check) cells >>= fun p =>
        match p with
        | (.normal, cells') => runWith (round guard rounds condition body) cells'
        | (exit, cells') => pure (exit.goesOn, cells') := by
  rw [roundWith, runWith_bind]
  congr 1
  funext p
  obtain ⟨exit, cells'⟩ := p
  cases exit <;> rfl

theorem roundWith_growing (check : List Action) (condition : Value) (body : List Action)
    (cells : Cells target) :
    Growing (runWith (roundWith guard rounds check condition body) cells) := by
  rw [runWith_roundWith]
  refine (execBody_growing guard rounds check cells).bind fun p => ?_
  obtain ⟨exit, cells'⟩ := p
  cases exit with
  | normal => exact round_growing guard rounds condition (execBody_growing guard rounds body) cells'
  | stop => exact .pure _
  | next => exact .pure _

end Action

/-- A negation tests for the opposite. -/
theorem Value.truth_negate (v : Value) (cells : Cells target) :
    v.negate.truth guard cells = v.truth guard cells >>= fun b => pure !b := by
  simp only [Value.truth, Value.negate, Value.eval, Computation.negate, bind_assoc, pure_bind,
    Computation.truth]

/-- Rounds that do the same with every store make loops that do the same. -/
theorem iterate_congr {σ : Type} {round round' : EStateM Halt (Running target σ) Bool}
    (h : ∀ s, runWith round s = runWith round' s) (rounds : Nat) (s : σ) :
    runWith (iterate round rounds) s = runWith (iterate round' rounds) s := by
  induction rounds generalizing s with
  | zero => rfl
  | succ rounds ih =>
    rw [iterate, iterate, runWith_bind, runWith_bind, h]
    congr 1
    funext p
    rw [runWith_ite, runWith_ite, ih]

namespace Action

/-- A loop whose condition needs actions of its own consists of rounds that start with them. -/
theorem runWith_loopWith (check : List Action) (condition : Value) (body : List Action)
    (cells : Cells target) :
    runWith ((loopWith check condition body).exec guard rounds) cells =
      runWith (iterate (roundWith guard rounds check condition body) rounds) cells >>= fun p =>
        pure (.normal, p.2) := by
  unfold loopWith
  split
  case isTrue h =>
    rw [List.isEmpty_iff.mp h, runWith_loop]
    rfl
  -- The loop runs for ever, and a branch after the actions of the condition leaves it.
  case isFalse =>
    rw [runWith_loop]
    congr 1
    refine iterate_congr (fun cells => ?_) rounds cells
    rw [runWith_round, runWith_roundWith]
    have htrue : (Value.ofBool true).truth guard cells = pure true := rfl
    simp only [htrue, pure_bind, if_true, runWith_append, bind_assoc]
    congr 1
    funext p
    obtain ⟨exit, cells'⟩ := p
    cases exit with
    | stop => rfl
    | next => rfl
    | normal =>
      simp only [Exit.andThen, runWith_cons, runWith_branch, runWith_round, Value.truth_negate,
        bind_assoc, pure_bind]
      congr 1
      funext b
      cases b with
      | true => rfl
      | false => rfl

end Action

/-! ## The place of a statement -/

/-- The frames of a run match the scopes of a place. -/
structure Env.Mirrors (guard : Guard target) (env : Env) (ctx : Context target)
    (cells : Cells target) (frames : Frames target) : Prop where
  declarations_eq : env.declarations = ctx.declarations
  type?_eq : ∀ name, env.scopes.type? name = ctx.types.get? name
  frames : Frames.Match guard cells env.scopes.visible frames

section

variable {env : Env} {ctx : Context target} {cells cells' : Cells target} {frames : Frames target}
  {s : Slots}

theorem Env.Mirrors.reads (h : env.Mirrors guard ctx cells frames) :
    env.Reads guard ctx cells frames :=
  ⟨h.declarations_eq, h.type?_eq, h.frames.find?⟩

/-- The frames match after deeper code has run. -/
theorem Env.Mirrors.agree {nesting : Nat} (h : env.Mirrors guard ctx cells frames)
    (henv : env.Ready s nesting) (hagree : Cells.Agree env.scopes.depth s cells cells') :
    env.Mirrors guard ctx cells' frames :=
  ⟨h.declarations_eq, h.type?_eq, h.frames.agree henv hagree⟩

/-- A new scope and a new frame. -/
theorem Env.Mirrors.push (h : env.Mirrors guard ctx cells frames) {kind : ScopeKind}
    (hkind : kind.isFunction = false) :
    (env.push kind).Mirrors guard ctx cells (.empty :: frames) := by
  refine ⟨h.declarations_eq, fun name => (Scopes.type?_push hkind).trans (h.type?_eq name), ?_⟩
  show Frames.Match guard cells (env.scopes.push kind).visible _
  rw [Scopes.visible_push hkind]
  exact h.frames.cons fun name => .none

/-- The scopes after some declarations. -/
theorem Env.Mirrors.declares (h : env.Mirrors guard ctx cells frames) {scopes : Scopes}
    (hd : env.scopes.Declares s scopes) {frames' : Frames target}
    (hframes : Frames.Match guard cells' scopes.visible frames') :
    ({ env with scopes } : Env).Mirrors guard ctx cells' frames' :=
  ⟨h.declarations_eq, fun name => hd.type?_eq.trans (h.type?_eq name), hframes⟩

end

/-! ## How statements and actions end -/

/-- What is done before an action has ended as its statement has: the step before a new round of the
nearest loop is part of the action. -/
def Scopes.finish (guard : Guard target) (rounds : Nat) (scopes : Scopes)
    (p : Exit × Cells target) : Computation target (Exit × Cells target) :=
  match p.1, scopes.enclosingLoop? with
  | .next, some (some step) => runWith (execBody guard rounds [step, .next]) p.2
  | _, _ => pure p

/-- A statement and its action ended in the same way, and other than normally only in a loop. -/
structure Ended (guard : Guard target) (scopes scopes' : Scopes) (p : Exit × Frames target)
    (q : Exit × Cells target) : Prop where
  exit_eq : p.1 = q.1
  inLoop : p.1 ≠ .normal → scopes.enclosingLoop? ≠ none
  frames : Frames.Match guard q.2 scopes'.visible p.2

section

variable {scopes scopes' : Scopes} {cells : Cells target} {frames : Frames target}

theorem Scopes.finish_normal :
    scopes.finish guard rounds (.normal, cells) = pure (.normal, cells) := by
  unfold Scopes.finish
  cases scopes.enclosingLoop? <;> rfl

theorem Scopes.finish_stop : scopes.finish guard rounds (.stop, cells) = pure (.stop, cells) := by
  unfold Scopes.finish
  cases scopes.enclosingLoop? <;> rfl

theorem Scopes.finish_congr (h : scopes.enclosingLoop? = scopes'.enclosingLoop?) :
    scopes.finish guard rounds = scopes'.finish guard rounds := by
  funext p
  rw [Scopes.finish, Scopes.finish, h]

/-- Nothing is run after an action that did not end normally. -/
theorem Scopes.finish_andThen {exit : Exit} (h : exit ≠ .normal)
    (k : Cells target → Computation target (Exit × Cells target)) :
    (scopes.finish guard rounds (exit, cells) >>= fun p => Exit.andThen p k) =
      scopes.finish guard rounds (exit, cells) := by
  cases exit with
  | normal => exact absurd rfl h
  | stop =>
    rw [Scopes.finish_stop]
    rfl
  | next =>
    unfold Scopes.finish
    cases scopes.enclosingLoop? with
    | none => rfl
    | some step =>
      cases step with
      | none => rfl
      | some step =>
        simp only [Action.runWith_cons, bind_assoc]
        congr 1
        funext p
        obtain ⟨exit, cells'⟩ := p
        cases exit <;> rfl

/-- Both ended normally. -/
theorem Ended.normal (h : Frames.Match guard cells scopes'.visible frames) :
    SimulatesVia (scopes.finish guard rounds) (Ended guard scopes scopes')
      (pure (.normal, frames)) (pure (.normal, cells)) := by
  have hfinish : scopes.finish guard rounds (.normal, cells) = pure (.normal, cells) :=
    Scopes.finish_normal
  rw [← hfinish]
  exact .of_related ⟨rfl, fun hne => absurd rfl hne, h⟩

end

namespace Stmt

section

variable {env : Env} {ctx : Context target} {splice? : Option Splice} {scopes' : Scopes}
  {action : Action} {st st' : LowerState} {cells : Cells target} {frames : Frames target}
  {span : Span}

theorem runWith_update (change : Frames target → Option (Frames target)) :
    runWith (update change) frames =
      ofOption (change frames) >>= fun frames' => pure (.normal, frames') := by
  simp only [update, runWith_bind, runWith_beside, bind_assoc, pure_bind]
  rfl

theorem runWith_inFrame {α : Type} (x : EStateM Halt (Store target) α) :
    runWith (inFrame x) frames =
      runWith x (.empty :: frames) >>= fun p => pure (p.1, p.2.tail) := by
  simp only [inFrame, runWith_bind]
  rfl

/-- The steps of an assignment to a variable. -/
theorem run_assign_simulates {name : String} {value : Expr}
    (hctx : ctx.Calls guard concrete rounds splice?) (henv : env.Ready st.slots 0)
    (hmirrors : env.Mirrors guard ctx cells frames)
    (h : (Stmt.assign span name value).lower env splice? st = .ok (scopes', action) st')
    (hconcrete : Action.Concrete concrete [action]) :
    SimulatesVia (env.scopes.finish guard rounds) (Ended guard env.scopes scopes')
      (runWith ((Stmt.assign span name value).run ctx rounds) frames)
      (runWith (action.exec guard rounds) cells) := by
  obtain ⟨ty, slot, v, hb, hv, hfits, rfl, rfl⟩ := lower_assign_ok h
  have hrun : runWith ((Stmt.assign span name value).run ctx rounds) frames =
      value.run ctx frames >>= fun d => runWith (update (Frames.assign? name d)) frames := by
    simp only [run, runWith_bind, runWith_beside, bind_assoc, pure_bind]
  rw [hrun, Action.runWith_behind]
  simp only [Action.exec, Action.runWith_store]
  refine Expr.run_then hctx henv hmirrors.reads hv (Action.concrete_behind.mp hconcrete).1
    (fun d cells' hagree hd _ => ?_) fun _ _ => .pure _
  obtain ⟨frames', hframes', hmatch⟩ := (hmirrors.agree henv hagree).frames.assign? henv.distinct
    hb (hctx.sound.stored hfits hd)
  rw [runWith_update, hframes']
  exact Ended.normal hmatch

/-- The type of a declared variable. -/
theorem cellType?_eq {ty : Option TypeExpr} {value : Option Expr} {annotated : Option Ty}
    {lowered : Option Lowered} {ty' : Ty} (hs : Splice.Typed splice?)
    (hreads : env.Reads guard ctx cells frames) (hannotated : env.resolve? ty = .ok annotated)
    (hlowered : lowerOption env splice? value st = .ok lowered st')
    (hty : declaredType span annotated (lowered.map (·.value)) = .ok ty') :
    cellType? ctx frames ty value = some ty' := by
  cases ty with
  | some ty =>
    simp only [Env.resolve?, Except.bind_eq_ok] at hannotated
    obtain ⟨t, ht, hannotated⟩ := hannotated
    cases hannotated
    rw [cellType?, hreads.sees.resolve?_eq ht]
    cases lowered with
    | none =>
      cases hty
      rfl
    | some v =>
      simp only [Option.map_some, declaredType, Except.bind_eq_ok] at hty
      obtain ⟨fits, -, hty⟩ := hty
      cases fits with
      | true =>
        cases hty
        rfl
      | false => cases hty
  | none =>
    cases hannotated
    rcases lowerOption_ok hlowered with ⟨-, rfl, -⟩ | ⟨e, v, rfl, hv, rfl⟩
    · cases hty
    · cases hty
      exact Expr.lower_ty hs hreads.sees hv

/-- The value of a declaration suits the type of the variable. -/
theorem declaredType_sound {annotated : Option Ty} {v : Value} {ty : Ty} {d : Datum target.Thing}
    (hguard : guard.Sound concrete) (h : declaredType span annotated (some v) = .ok ty)
    (hd : guard v.ty d = true) : guard ty d = true := by
  cases annotated with
  | none =>
    cases h
    exact hd
  | some wanted =>
    simp only [declaredType, Except.bind_eq_ok] at h
    obtain ⟨fits, hfits, h⟩ := h
    cases fits with
    | true =>
      cases h
      exact hguard.stored hfits hd
    | false => cases h

/-- The steps of a declaration. -/
theorem run_declare_simulates {name : String} {ty : Option TypeExpr} {value : Option Expr}
    {constant : Bool} (hctx : ctx.Calls guard concrete rounds splice?)
    (henv : env.Ready st.slots 0) (hmirrors : env.Mirrors guard ctx cells frames)
    (h : (Stmt.declare span name ty value constant).lower env splice? st =
      .ok (scopes', action) st')
    (hconcrete : Action.Concrete concrete [action]) :
    SimulatesVia (env.scopes.finish guard rounds) (Ended guard env.scopes scopes')
      (runWith ((Stmt.declare span name ty value constant).run ctx rounds) frames)
      (runWith (action.exec guard rounds) cells) := by
  obtain ⟨hk, hdeclares⟩ := lower_declare_kept hctx.grows henv h
  have henv' := (henv.kept hk).declares hdeclares
  obtain ⟨-, annotated, lowered, t, ty', slot, hannotated, hlowered, hty, -, rfl, rfl⟩ :=
    lower_declare_ok h
  have hcell := cellType?_eq hctx.typed hmirrors.reads hannotated hlowered hty
  have hrun : runWith ((Stmt.declare span name ty value constant).run ctx rounds) frames =
      initial ctx frames value >>= fun stored =>
        pure (.normal, frames.declare name (.var ty' stored)) := by
    simp only [run, runWith_bind, runWith_beside, runWith_update, bind_assoc, pure_bind, hcell,
      ofOption]
  rw [hrun]
  rcases lowerOption_ok hlowered with ⟨rfl, rfl, -⟩ | ⟨e, v, rfl, hv, rfl⟩
  · refine Ended.normal (hmirrors.frames.declareCell name (.var fun d hd => ?_))
    cases hd
  · rw [Action.runWith_behind]
    simp only [Action.exec, Action.runWith_store, initial, bind_assoc, pure_bind]
    refine Expr.run_then hctx henv hmirrors.reads hv (Action.concrete_behind.mp hconcrete).1
      (fun d cells' hagree hd _ => ?_) fun _ _ => .pure _
    refine Ended.normal ((hmirrors.agree henv hagree).frames.declareSet ?_ ?_)
    · exact henv'.distinct
    · exact declaredType_sound hctx.sound hty hd

/-- The steps of an assignment to a field. -/
theorem run_assignField_simulates {object value : Expr} {field : String}
    (hctx : ctx.Calls guard concrete rounds splice?) (henv : env.Ready st.slots 0)
    (hmirrors : env.Mirrors guard ctx cells frames)
    (h : (Stmt.assignField span object field value).lower env splice? st =
      .ok (scopes', action) st')
    (hconcrete : Action.Concrete concrete [action]) :
    SimulatesVia (env.scopes.finish guard rounds) (Ended guard env.scopes scopes')
      (runWith ((Stmt.assignField span object field value).run ctx rounds) frames)
      (runWith (action.exec guard rounds) cells) := by
  obtain ⟨o, t, v, ho, hv, rfl, rfl⟩ := lower_assignField_ok h
  have hrun : runWith ((Stmt.assignField span object field value).run ctx rounds) frames =
      (object.prepare ctx frames >>= fun x => value.prepare ctx frames >>= fun y => pure (x, y)) >>=
        fun p => p.1 >>= fun o => p.2 >>= fun d => Computation.assignField o field d >>= fun _ =>
          pure (.normal, frames) := by
    simp only [run, runWith_bind, runWith_beside, bind_assoc, pure_bind, runWith_pure]
  obtain ⟨hconcrete, hconcrete'⟩ :=
    Action.concrete_append.mp (Action.concrete_behind.mp hconcrete).1
  have hgo := Expr.lower_grown hctx.grows henv ho
  have hgv := Expr.lower_grown hctx.grows (henv.grown hgo) hv
  have hprepared := Expr.prepared_pair henv.valid hgo hgv
    (Expr.prepare_performs hctx henv hmirrors.reads ho hconcrete) fun cells' hagree =>
      Expr.prepare_performs hctx (henv.grown hgo) (hmirrors.agree henv hagree).reads hv hconcrete'
  rw [hrun, Action.runWith_behind]
  refine hprepared.andThen (fun p cells' hcells' => ?_)
    fun cells' => Action.exec_growing guard rounds _ cells'
  obtain ⟨hx, hy, hagree⟩ := hcells'
  rw [Action.runWith_assignField]
  have hdone : ∀ a d, Growing (Computation.assignField a field d >>= fun _ =>
      (pure (.normal, cells') : Computation target (Exit × Cells target))) :=
    fun _ _ => (Plain.assignField _ _ _).growing.bind fun _ => .pure _
  refine (hx cells' .refl).bind ?_ fun a =>
    (Value.eval_growing guard cells' _).bind fun d => hdone a d
  rintro a _ ⟨rfl, -⟩
  refine (hy cells' .refl).bind ?_ fun d => hdone a d
  rintro d _ ⟨rfl, -⟩
  refine (Simulates.refl (.assignField _ _ _)).bind ?_ fun _ => .pure _
  rintro _ _ rfl
  exact Ended.normal (hmirrors.agree henv hagree).frames

/-- The steps of what a function returns. -/
theorem run_ret_simulates {value : Option Expr} (hctx : ctx.Calls guard concrete rounds splice?)
    (henv : env.Ready st.slots 0) (hmirrors : env.Mirrors guard ctx cells frames)
    (h : (Stmt.ret span value).lower env splice? st = .ok (scopes', action) st')
    (hconcrete : Action.Concrete concrete [action]) :
    SimulatesVia (env.scopes.finish guard rounds) (Ended guard env.scopes scopes')
      (runWith ((Stmt.ret span value).run ctx rounds) frames)
      (runWith (action.exec guard rounds) cells) := by
  obtain ⟨rfl, ⟨rfl, rfl, -⟩ | ⟨function, r, e, v, rfl, hf, hv, hfits, rfl⟩⟩ := lower_ret_ok h
  · exact Ended.normal hmirrors.frames
  · have hrun : runWith ((Stmt.ret span (some e)).run ctx rounds) frames =
        e.run ctx frames >>= fun d => runWith (update (Frames.return? d)) frames := by
      simp only [run, runWith_bind, runWith_beside, bind_assoc, pure_bind]
    rw [hrun, Action.runWith_behind]
    simp only [Action.exec, Action.runWith_store]
    refine Expr.run_then hctx henv hmirrors.reads hv (Action.concrete_behind.mp hconcrete).1
      (fun d cells' hagree hd _ => ?_) fun _ _ => .pure _
    obtain ⟨scope, hlast, hb⟩ := henv.result_bound hf
    obtain ⟨frames', hframes', hmatch⟩ := (hmirrors.agree henv hagree).frames.return?
      henv.distinct hlast hb (hctx.sound.stored hfits hd)
    rw [runWith_update, hframes']
    exact Ended.normal hmatch

/-- The steps of the way out of a loop. -/
theorem run_stop_simulates (hmirrors : env.Mirrors guard ctx cells frames)
    (h : (Stmt.stop span).lower env splice? st = .ok (scopes', action) st') :
    SimulatesVia (env.scopes.finish guard rounds) (Ended guard env.scopes scopes')
      (runWith ((Stmt.stop span).run ctx rounds) frames)
      (runWith (action.exec guard rounds) cells) := by
  obtain ⟨step, hloop, rfl, rfl, -⟩ := lower_stop_ok h
  have hfinish : runWith (Action.stop.exec guard rounds) cells =
      env.scopes.finish guard rounds (.stop, cells) := by
    rw [Scopes.finish_stop]
    rfl
  rw [hfinish]
  show SimulatesVia _ _ (pure (Exit.stop, frames)) _
  refine .of_related ⟨rfl, fun _ => ?_, hmirrors.frames⟩
  rw [hloop]
  exact Option.some_ne_none _

/-- The steps of the way to the next round of a loop. -/
theorem run_next_simulates (hmirrors : env.Mirrors guard ctx cells frames)
    (h : (Stmt.next span).lower env splice? st = .ok (scopes', action) st') :
    SimulatesVia (env.scopes.finish guard rounds) (Ended guard env.scopes scopes')
      (runWith ((Stmt.next span).run ctx rounds) frames)
      (runWith (action.exec guard rounds) cells) := by
  obtain ⟨rfl, -, hcases⟩ := lower_next_ok h
  have hfinish : runWith (action.exec guard rounds) cells =
      env.scopes.finish guard rounds (.next, cells) := by
    rcases hcases with ⟨hloop, rfl⟩ | ⟨step, hloop, rfl⟩
    · simp only [Scopes.finish, hloop]
      rfl
    · simp only [Scopes.finish, hloop, Action.exec]
  rw [hfinish]
  show SimulatesVia _ _ (pure (Exit.next, frames)) _
  refine .of_related ⟨rfl, fun _ => ?_, hmirrors.frames⟩
  rcases hcases with ⟨hloop, -⟩ | ⟨step, hloop, -⟩
  · simp [hloop]
  · simp [hloop]

/-- The steps of a call that stands as a statement. -/
theorem run_call_simulates {name : String} {args : List Expr}
    (hctx : ctx.Calls guard concrete rounds splice?) (henv : env.Ready st.slots 0)
    (hmirrors : env.Mirrors guard ctx cells frames)
    (h : (Stmt.call span name args).lower env splice? st = .ok (scopes', action) st')
    (hconcrete : Action.Concrete concrete [action]) :
    SimulatesVia (env.scopes.finish guard rounds) (Ended guard env.scopes scopes')
      (runWith ((Stmt.call span name args).run ctx rounds) frames)
      (runWith (action.exec guard rounds) cells) := by
  have hrun : runWith ((Stmt.call span name args).run ctx rounds) frames =
      perform ctx frames name args >>= fun _ => pure (.normal, frames) := by
    simp only [run, runWith_bind, runWith_beside, bind_assoc, pure_bind, runWith_pure]
  rw [hrun]
  obtain ⟨rfl, ⟨decl, splice, vs, t, spliced, hdecl, hcall, hvs, hspliced, rfl⟩ |
    ⟨f, vs, hdecl, hf, hvs, rfl⟩⟩ := lower_call_ok h
  · have hg := Expr.lowerList_grown hctx.grows henv hvs
    have hg' := hctx.grows.grown hcall.splice (henv.grown hg) hdecl hcall.not_inlining hspliced
    have hlen : vs.values.length = decl.params.length := by
      rw [Expr.lowerList_length hvs, hcall.arity]
    obtain ⟨hconcrete, hconcrete'⟩ :=
      Action.concrete_append.mp (Action.concrete_behind.mp hconcrete).1
    have hperform : perform ctx frames name args =
        (Expr.prepareList ctx frames args >>= fun given =>
          runList given >>= ctx.call decl (vs.values.map (·.ty))) >>= fun _ => pure () := by
      rw [hmirrors.declarations_eq] at hdecl
      rw [perform]
      simp only [hdecl, Context.callWith_eq hctx.typed hmirrors.reads hvs, bind_assoc]
    have hperformed : Performs guard rounds (vs.before ++ [.block spliced.body]) cells
        (fun _ _ => True) (perform ctx frames name args) := by
      rw [hperform]
      refine Performs.map (Q := fun _ _ => True) ?_ fun _ _ _ => trivial
      refine (Expr.prepareList_performs hctx henv hmirrors.reads hvs hconcrete).append
        fun given cells' hgiven => ?_
      have hdone := (hctx.performed hcall.splice (henv.grown hg) hmirrors.declarations_eq hdecl
        hcall.not_inlining hlen hspliced (Action.concrete_block.mp hconcrete') hgiven).2
      exact hdone.block.mono fun _ _ _ => trivial
    rw [Action.runWith_behind]
    refine (hperformed.ensures ((hg.append hg'.block).agree rounds henv.valid cells)).andThen
      (fun _ cells' hcells' => ?_) fun cells' => Action.exec_growing guard rounds _ cells'
    exact Ended.normal (hmirrors.agree henv hcells'.2).frames
  · have hg := Expr.lowerArgs_grown hctx.grows henv hvs
    rw [hmirrors.declarations_eq] at hdecl
    obtain ⟨given, hvalues, hlen, hperformed⟩ := Expr.lowerArgs_performs hctx henv hmirrors.reads
      hvs (FunctionDef.variadicLast_of_find? hf) (Action.concrete_behind.mp hconcrete).1
    have hperform : perform ctx frames name args =
        Expr.prepareList ctx frames args >>= fun xs =>
          arguments f xs >>= fun ds => Computation.action f.target ds := by
      rw [perform]
      simp only [hdecl, hf]
    rw [hperform, bind_assoc, Action.runWith_behind]
    refine (hperformed.ensures (hg.agree rounds henv.valid cells)).andThen
      (fun xs cells' hcells' => ?_) fun cells' => Action.exec_growing guard rounds _ cells'
    obtain ⟨hxs, hagree⟩ := hcells'
    rw [Action.runWith_call, bind_assoc]
    refine SimulatesVia.bind (Expr.arguments_simulates hvalues hlen hxs) ?_ fun _ =>
      (Plain.action _ _).growing.bind fun _ => .pure _
    rintro ds _ rfl
    refine (Simulates.refl (.action _ _)).bind ?_ fun _ => .pure _
    rintro _ _ rfl
    exact Ended.normal (hmirrors.agree henv hagree).frames

/-- What the statements of a body leave behind. -/
def EndedBody (guard : Guard target) (slots : Slots) (scopes : Scopes) (p : Exit × Frames target)
    (q : Exit × Cells target) : Prop :=
  ∃ scopes', scopes.Declares slots scopes' ∧ Ended guard scopes scopes' p q

/-- The frame of a body is dropped with its scope. -/
theorem inFrame_simulates {kind : ScopeKind} (hkind : kind.isFunction = false) {slots : Slots}
    {finish : Exit × Cells target → Computation target (Exit × Cells target)}
    {x : EStateM Halt (Store target) Exit} {y : Computation target (Exit × Cells target)}
    (h : SimulatesVia finish (EndedBody guard slots (env.scopes.push kind))
      (runWith x (.empty :: frames)) y) :
    SimulatesVia finish (Ended guard (env.scopes.push kind) env.scopes)
      (runWith (inFrame x) frames) y := by
  rw [runWith_inFrame]
  refine h.map ?_
  rintro ⟨exit, frames'⟩ ⟨exit', cells'⟩ ⟨scopes', hdeclares, hended⟩
  obtain ⟨bindings, rfl, -⟩ := hdeclares.cons
  have hframes := hended.frames
  rw [Scopes.visible_cons, if_neg (by simp [hkind])] at hframes
  refine ⟨hended.exit_eq, hended.inLoop, ?_⟩
  obtain ⟨frame, outer, rfl⟩ := List.exists_cons_of_ne_nil
    (List.ne_nil_of_length_eq_add_one hframes.length_eq)
  exact hframes.tail

/-- Two branches of which the second tests for the opposite of the first. -/
theorem branches_simulate {α β : Type} {finish : β → Computation target (Exit × Cells target)}
    {R : α → β → Prop} {x y : Computation target α} {saved : Value} {d : Datum target.Thing}
    {actions actions' : List Action} {Q : Cells target → Prop} (hQ : Q cells)
    (hsaved : ∀ cells', Q cells' → saved.truth guard cells' = truth d)
    (hkeep : Ensures (fun p => Q p.2) (runWith (execBody guard rounds actions) cells))
    (hx : SimulatesVia finish R x (runWith (execBody guard rounds actions) cells))
    (hy : SimulatesVia finish R y (runWith (execBody guard rounds actions') cells)) :
    SimulatesVia finish R (truth d >>= fun b => if b then x else y)
      (runWith (execBody guard rounds [.branch saved actions, .branch saved.negate actions'])
        cells) := by
  rw [Action.runWith_cons, Action.runWith_branch, hsaved cells hQ]
  cases d with
  | truth b =>
    have htruth : truth (Datum.truth b : Datum target.Thing) = pure b := rfl
    rw [htruth] at hsaved ⊢
    rw [pure_bind, pure_bind]
    cases b with
    | true =>
      -- The second branch tests for the opposite of what is still saved, so it does nothing.
      rw [if_pos rfl, if_pos rfl, Ensures.bind_eq]
      · exact hx
      · refine hkeep.mono fun p hp => ?_
        obtain ⟨exit, cells'⟩ := p
        cases exit with
        | normal =>
          rw [Exit.andThen, Action.runWith_singleton, Action.runWith_branch, Value.truth_negate,
            hsaved cells' hp]
          rfl
        | stop => rfl
        | next => rfl
    | false =>
      rw [if_neg Bool.false_ne_true, if_neg Bool.false_ne_true, pure_bind, Exit.andThen,
        Action.runWith_singleton, Action.runWith_branch, Value.truth_negate, hsaved cells hQ]
      exact hy
  | _ => exact .throw nofun

/-- One round of a loop: its condition is prepared and tested, and then the body runs. -/
theorem round_simulates {check body : List Action} {condition : Value}
    {I : Frames target → Cells target → Prop}
    {J : Cells target → Prop} {prepared : Computation target (Computation target Bool)}
    {x : Computation target (Bool × Frames target)}
    (hcheck : Performs guard rounds check cells
      (fun c cells' => Simulates Eq c (condition.truth guard cells') ∧ J cells') prepared)
    (hbody : ∀ cells', J cells' → Simulates (fun p q => p.1 = q.1 ∧ I p.2 q.2) x
      (runWith (execBody guard rounds body) cells' >>= fun p => pure (p.1.goesOn, p.2)))
    (hdone : ∀ cells', J cells' → I frames cells') :
    Simulates (fun p q => p.1 = q.1 ∧ I p.2 q.2)
      (prepared >>= fun c => c >>= fun b => if b then x else pure (false, frames))
      (runWith (Action.roundWith guard rounds check condition body) cells) := by
  rw [Action.runWith_roundWith]
  refine hcheck.bind (fun c cells' hcells' => ?_) fun p => ?_
  · obtain ⟨hc, hJ⟩ := hcells'
    show SimulatesVia _ _ _ (runWith (Action.round guard rounds condition body) cells')
    rw [Action.runWith_round]
    refine SimulatesVia.bind hc ?_ fun b => ?_
    · rintro b _ rfl
      rw [pure_bind]
      cases b with
      | true => exact hbody cells' hJ
      | false => exact Simulates.pure ⟨rfl, hdone cells' hJ⟩
    · split
      · exact (Action.execBody_growing guard rounds body cells').bind fun _ => .pure _
      · exact .pure _
  · obtain ⟨exit, cells'⟩ := p
    cases exit with
    | normal =>
      exact Action.round_growing guard rounds condition
        (Action.execBody_growing guard rounds body) cells'
    | stop => exact .pure _
    | next => exact .pure _

/-! ## Branches and loops -/

/-- Running the actions of a body answers running the body, wherever the frames match. -/
def BodySimulated (guard : Guard target) (rounds : Nat) (ctx : Context target) (env : Env)
    (slots : Slots) (body : List Stmt) (actions : List Action) : Prop :=
  ∀ cells frames, env.Mirrors guard ctx cells frames →
    SimulatesVia (env.scopes.finish guard rounds) (EndedBody guard slots env.scopes)
      (runWith (runBody ctx rounds body) frames) (runWith (execBody guard rounds actions) cells)

/-- A body in a block of its own. -/
theorem BodySimulated.block {slots : Slots} {body : List Stmt} {actions : List Action}
    (h : BodySimulated guard rounds ctx (env.push .block) slots body actions)
    (hmirrors : env.Mirrors guard ctx cells frames) :
    SimulatesVia (env.scopes.finish guard rounds) (Ended guard env.scopes env.scopes)
      (runWith (inFrame (runBody ctx rounds body)) frames)
      (runWith (execBody guard rounds actions) cells) := by
  have hfinish : (env.push .block).scopes.finish guard rounds = env.scopes.finish guard rounds :=
    Scopes.finish_congr rfl
  have hbody := inFrame_simulates rfl (h _ _ (hmirrors.push rfl))
  rw [hfinish] at hbody
  exact hbody.mono fun p q hended => ⟨hended.exit_eq, hended.inLoop, hended.frames⟩

/-- The steps of a branch without an alternative. -/
theorem run_branch_simulates {condition : Expr} {body : List Stmt} {v : Lowered} {t : LowerState}
    {slots : Slots} {actions : List Action} (hctx : ctx.Calls guard concrete rounds splice?)
    (henv : env.Ready st.slots 0) (hmirrors : env.Mirrors guard ctx cells frames)
    (hv : condition.lower env splice? st = .ok v t)
    (hconcrete : Action.Concrete concrete v.before)
    (hbody : BodySimulated guard rounds ctx (env.push .block) slots body actions) :
    SimulatesVia (env.scopes.finish guard rounds) (Ended guard env.scopes env.scopes)
      (runWith ((Stmt.branch span condition body none).run ctx rounds) frames)
      (runWith ((Action.behind v.before (.branch v.value actions)).exec guard rounds) cells) := by
  have hrun : runWith ((Stmt.branch span condition body none).run ctx rounds) frames =
      condition.test ctx frames >>= fun b =>
        if b then runWith (inFrame (runBody ctx rounds body)) frames
        else pure (.normal, frames) := by
    simp only [run, runWith_bind, runWith_beside, bind_assoc, pure_bind, runWith_ite, runWith_pure]
  rw [hrun, Action.runWith_behind]
  simp only [Action.runWith_branch]
  refine Expr.test_then hctx henv hmirrors.reads hv hconcrete (fun b cells' hagree => ?_)
    fun cells' b => ?_
  · cases b with
    | true => exact hbody.block (hmirrors.agree henv hagree)
    | false => exact Ended.normal (hmirrors.agree henv hagree).frames
  · split
    · exact Action.execBody_growing guard rounds actions cells'
    · exact .pure _

/-- The datum of a literal depends on nothing. -/
theorem eval_of_isLiteral (guard : Guard target) {v : Value} (h : v.isLiteral = true) :
    ∃ d, ∀ cells : Cells target, v.eval guard cells = pure d := by
  cases v with
  | number ty x => exact ⟨.number x, fun _ => rfl⟩
  | string ty s => exact ⟨.text s, fun _ => rfl⟩
  | boolean ty b => exact ⟨.truth b, fun _ => rfl⟩
  | _ => cases h

/-- A saved condition is left alone by the branches. -/
theorem saved_notMem {t t₁ t₂ : LowerState} {slot : Slot} {written : List Slot}
    (henv : env.Ready t.slots 0) (henv₁ : (env.push .block).Ready t₁.slots 0)
    (hslot : Lower.fresh conditionLabel span t = .ok slot t₁)
    (hk : Kept (env.push .block).scopes t₁.slots t₂.slots written) : slot ∉ written := by
  intro hmem
  obtain ⟨-, -, hhidden, rfl⟩ := Lower.fresh_granted henv.valid hslot
  have hspares := (hk.writes _ hmem).spares henv₁.stored henv₁.valid hk.valid hk.extend
    henv₁.depth_lt
  obtain ⟨function, r, hr, hsize⟩ := hspares.hidden hhidden
  have hr' : env.scopes.enclosingFunction? = some (function, some r) := hr
  obtain ⟨scope, hscope, hresult, -⟩ := Scopes.enclosingFunction?_eq_some hr'
  obtain ⟨i, -, hi⟩ := Scopes.exists_of_mem_visible hscope
  exact absurd hsize (Nat.ne_of_lt ((henv.stored.holds hi).result_lt henv.valid hresult))

/-- The steps of a branch with an alternative. -/
theorem run_branchElse_simulates {condition : Expr} {body otherwise : List Stmt} {v : Lowered}
    {t t₁ t₂ : LowerState} {slots slots' : Slots} {save actions actions' : List Action}
    {saved : Value} (hctx : ctx.Calls guard concrete rounds splice?)
    (henv : env.Ready st.slots 1) (hmirrors : env.Mirrors guard ctx cells frames)
    (hv : condition.lower env splice? st = .ok v t) (hboolean : v.value.ty = .boolean)
    (hconcrete : Action.Concrete concrete v.before)
    (hsave : saveCondition v.value span t = .ok (save, saved) t₁)
    (hk : Kept (env.push .block).scopes t₁.slots t₂.slots (Action.writesBody actions))
    (hbody : BodySimulated guard rounds ctx (env.push .block) slots body actions)
    (hother : BodySimulated guard rounds ctx (env.push .block) slots' otherwise actions') :
    SimulatesVia (env.scopes.finish guard rounds) (Ended guard env.scopes env.scopes)
      (runWith ((Stmt.branch span condition body (some otherwise)).run ctx rounds) frames)
      (runWith ((Action.behind v.before (.block
        (save ++ [.branch saved actions, .branch saved.negate actions']))).exec guard rounds)
        cells) := by
  have henv₀ := henv.le (Nat.zero_le 1)
  have hg := Expr.lower_grown hctx.grows henv₀ hv
  have hrun : runWith ((Stmt.branch span condition body (some otherwise)).run ctx rounds) frames =
      condition.run ctx frames >>= fun d => truth d >>= fun b =>
        if b then runWith (inFrame (runBody ctx rounds body)) frames
        else runWith (inFrame (runBody ctx rounds otherwise)) frames := by
    simp only [run, Expr.test, runWith_bind, runWith_beside, bind_assoc, pure_bind, runWith_ite]
  rw [hrun, Action.runWith_behind]
  rcases saveCondition_ok hsave with ⟨hliteral, rfl, rfl, rfl⟩ | ⟨slot, hslot, rfl, rfl⟩
  -- A literal is not saved: both branches evaluate it anew, and find the same.
  · obtain ⟨d₀, hd₀⟩ := eval_of_isLiteral guard hliteral
    have hexec : ∀ cells', runWith ((Action.block ([] ++ [.branch v.value actions,
        .branch v.value.negate actions'])).exec guard rounds) cells' =
        v.value.eval guard cells' >>= fun _ =>
          runWith (execBody guard rounds [.branch v.value actions,
            .branch v.value.negate actions']) cells' := by
      intro cells'
      rw [hd₀, pure_bind]
      rfl
    simp only [hexec]
    refine Expr.run_then hctx henv₀ hmirrors.reads hv hconcrete
      (fun d cells' hagree _ hgives => ?_) fun cells' d => Action.execBody_growing guard rounds _ _
    obtain rfl : d = d₀ := by
      obtain ⟨e, e', hgives⟩ := hgives
      rw [hd₀] at hgives
      cases hgives
      rfl
    have hmirrors' := hmirrors.agree henv₀ hagree
    refine branches_simulate (Q := fun _ => True) trivial (fun cells'' _ => ?_)
      (.mono (.trivial _) fun _ _ => trivial) (hbody.block hmirrors') (hother.block hmirrors')
    rw [Value.truth, hd₀, pure_bind]
  · have hg' : Grown env.scopes.depth t.slots t₁.slots [.declare slot .boolean v.value] :=
      saveCondition_kept hg.valid hsave
    have henv₁ := ((henv.grown hg).grown hg').push (.inl rfl)
    have hnotMem := saved_notMem (henv₀.grown hg) henv₁ hslot hk
    obtain ⟨-, -, -, hsize⟩ := Lower.fresh_granted hg.valid hslot
    have hexec : ∀ cells', runWith ((Action.block ([.declare slot .boolean v.value] ++
        [.branch (.read .boolean slot) actions,
          .branch (Value.read .boolean slot).negate actions'])).exec guard rounds) cells' =
        v.value.eval guard cells' >>= fun d =>
          runWith (execBody guard rounds [.branch (.read .boolean slot) actions,
            .branch (Value.read .boolean slot).negate actions']) (cells'.set slot d) := by
      intro cells'
      rw [Action.exec, List.singleton_append, Action.runWith_cons, Action.exec,
        Action.runWith_store, bind_assoc]
      rfl
    simp only [hexec]
    refine Expr.run_then hctx henv₀ hmirrors.reads hv hconcrete (fun d cells' hagree hd _ => ?_)
      fun cells' d => Action.execBody_growing guard rounds _ _
    rw [hboolean] at hd
    have hmatch := hmirrors.agree henv₀ hagree
    have hmirrors' : env.Mirrors guard ctx (cells'.set slot d) frames :=
      ⟨hmatch.declarations_eq, hmatch.type?_eq,
        hmatch.frames.setNew (henv₀.grown hg) (Nat.le_of_eq hsize.symm) d⟩
    -- The first branch may change what the condition was read from, but not the saved datum.
    refine branches_simulate (Q := fun cells'' => cells'' slot = some d) (if_pos rfl)
      (fun cells'' hcells => ?_) ?_ (hbody.block hmirrors') (hother.block hmirrors')
    · simp only [Value.truth, Value.eval, hcells, load, hd, if_true, pure_bind]
    · exact (Action.execBody_keeps guard rounds actions _ hnotMem).mono
        fun p hp => hp.trans (if_pos rfl)

/-- The steps of a loop. -/
theorem run_loop_simulates {condition : Expr} {body : List Stmt} {v : Lowered} {t : LowerState}
    {slots : Slots} {actions : List Action} (hctx : ctx.Calls guard concrete rounds splice?)
    (henv : env.Ready st.slots 0) (hmirrors : env.Mirrors guard ctx cells frames)
    (hv : condition.lower env splice? st = .ok v t)
    (hconcrete : Action.Concrete concrete v.before)
    (hbody : BodySimulated guard rounds ctx (env.push (.loop none)) slots body actions) :
    SimulatesVia (env.scopes.finish guard rounds) (Ended guard env.scopes env.scopes)
      (runWith ((Stmt.loop span condition body).run ctx rounds) frames)
      (runWith ((Action.loopWith v.before v.value actions).exec guard rounds) cells) := by
  have hg := Expr.lower_grown hctx.grows henv hv
  rw [run, runWith_bind, Action.runWith_loopWith]
  -- A round starts and ends where the frames match the scopes around the loop.
  refine Simulates.bind (Simulates.iterate
    (I := fun frames cells => env.Mirrors guard ctx cells frames)
    (fun frames cells hmirrors => ?_)
    (Action.roundWith_growing v.before v.value actions) rounds hmirrors) ?_ fun _ => .pure _
  · have hround : runWith (do
          if ← beside fun frames => condition.test ctx frames then
            return (← inFrame (runBody ctx rounds body)).goesOn
          else return false) frames =
        (condition.prepare ctx frames >>= fun x => pure (x >>= truth)) >>= fun c => c >>= fun b =>
          if b then runWith (inFrame (runBody ctx rounds body)) frames >>= fun p =>
            pure (p.1.goesOn, p.2)
          else pure (false, frames) := by
      simp only [Expr.test, Expr.run, runWith_bind, runWith_beside, bind_assoc, pure_bind,
        runWith_ite, runWith_pure]
    rw [hround]
    refine round_simulates (I := fun frames cells => env.Mirrors guard ctx cells frames)
      (J := fun cells' => env.Mirrors guard ctx cells' frames) ?_
      (fun cells' hmirrors' => ?_) fun cells' hmirrors' => hmirrors'
    · refine ((Expr.prepare_performs hctx henv hmirrors.reads hv hconcrete).ensures
        (hg.agree rounds henv.valid cells)).map fun x cells' hcells' => ?_
      obtain ⟨hx, hagree⟩ := hcells'
      refine ⟨?_, hmirrors.agree henv hagree⟩
      refine (hx cells' .refl).bind ?_ fun d => (Plain.truth d).growing
      rintro d _ ⟨rfl, -⟩
      exact Simulates.refl (.truth d)
    · refine SimulatesVia.bind (inFrame_simulates rfl (hbody _ _ (hmirrors'.push rfl))) ?_
        fun _ => .pure _
      rintro ⟨exit, frames'⟩ ⟨exit', cells''⟩ ⟨rfl, -, hframes⟩
      have hfinish : (env.push (.loop none)).scopes.finish guard rounds (exit, cells'') =
          pure (exit, cells'') := by
        cases exit <;> rfl
      rw [hfinish, pure_bind]
      exact Simulates.pure ⟨rfl, hmirrors'.declarations_eq, hmirrors'.type?_eq, hframes⟩
  · rintro p q hq
    exact Ended.normal hq.frames

/-- Moving the marker of a counting loop on. -/
theorem advance_simulates {nesting : Nat} {slots : Slots} {marker : String} {slot : Slot}
    (hguard : guard.Sound concrete) (henv : env.Ready slots nesting)
    (hmirrors : env.Mirrors guard ctx cells frames)
    (hb : env.scopes.binding? marker = some ⟨.number, true, .slot slot⟩) :
    Simulates (fun p q => p.1 = .normal ∧ q.1 = .normal ∧ env.Mirrors guard ctx q.2 p.2)
      (runWith (advance marker) frames) (runWith ((countStep slot).exec guard rounds) cells) := by
  have hident : env.ident .zero marker = .ok (.read .number slot) := by
    simp only [Env.ident, hb]
  have hrun : runWith (advance marker) frames = frames.read marker >>= fun a =>
      BinOp.add.apply a (.number 1.0) >>= fun d =>
        runWith (update (Frames.assign? marker d)) frames := by
    simp only [advance, runWith_bind, runWith_beside, bind_assoc, pure_bind]
  rw [hrun, countStep, Action.exec, Action.runWith_store]
  simp only [Value.eval, Value.ofNumber, bind_assoc, pure_bind]
  refine (hmirrors.reads.ident hguard hident).bind ?_ fun a =>
    (BinOp.apply_plain _ _ _).growing.bind fun _ => .pure _
  rintro a _ ⟨rfl, ha⟩
  have hty : BinOp.add.resultType .number .number .zero = .ok .number := rfl
  have hsum : Ensures (guard .number · = true)
      (BinOp.add.apply a (.number 1.0) : Computation target (Datum target.Thing)) :=
    hguard.apply hty ha (hguard.number 1.0)
  refine ((Simulates.refl (BinOp.apply_plain _ _ _)).ensures hsum).bind ?_ fun _ => .pure _
  rintro d _ ⟨rfl, hd⟩
  obtain ⟨frames', hframes', hmatch⟩ := hmirrors.frames.assign? henv.distinct hb hd
  rw [runWith_update, hframes']
  exact Simulates.pure ⟨rfl, rfl, hmirrors.declarations_eq, hmirrors.type?_eq, hmatch⟩

/-- The place inside a counting loop that is outside its body. -/
def markerEnv (env : Env) (marker : String) (slot : Slot) : Env :=
  { env with scopes := (env.scopes.push .block).declare marker ⟨.number, true, .slot slot⟩ }

theorem visible_markerEnv (env : Env) (marker : String) (slot : Slot) : ∃ scope : Scope,
    (markerEnv env marker slot).scopes.visible = scope :: env.scopes.visible ∧
      scope.bindings.get? marker = some ⟨.number, true, .slot slot⟩ := by
  refine ⟨_, Scopes.visible_cons, ?_⟩
  exact Table.get?_insert_self _ _ _

theorem binding?_markerEnv {marker : String} {slot : Slot} :
    (markerEnv env marker slot).scopes.binding? marker = some ⟨.number, true, .slot slot⟩ := by
  obtain ⟨scope, hvisible, hb⟩ := visible_markerEnv env marker slot
  rw [Scopes.binding?, hvisible, List.findSome?_cons, hb]

/-- Outside a counting loop its marker is gone. -/
theorem mirrors_of_marker {marker : String} {slot : Slot}
    (h : (markerEnv env marker slot).Mirrors guard ctx cells frames) :
    env.Mirrors guard ctx cells frames.tail := by
  obtain ⟨scope, hvisible, -⟩ := visible_markerEnv env marker slot
  have hframes := h.frames
  rw [hvisible] at hframes
  refine ⟨h.declarations_eq, fun name => ?_, ?_⟩
  · refine Eq.trans ?_ (h.type?_eq name)
    exact ((Scopes.type?_declare).trans (Scopes.type?_push rfl)).symm
  · obtain ⟨frame, outer, rfl⟩ := List.exists_cons_of_ne_nil
      (List.ne_nil_of_length_eq_add_one hframes.length_eq)
    exact hframes.tail

/-- The condition of a counting loop: the limit is prepared, and then the marker is compared to
it. -/
theorem counting_performs {limit : Expr} {b : Lowered} {t₁ t₂ : LowerState} {slots : Slots}
    {marker : String} {slot : Slot} {nesting : Nat}
    (hctx : ctx.Calls guard concrete rounds splice?) (henv : env.Ready t₁.slots 1)
    (hmarker : (markerEnv env marker slot).Ready slots nesting) (hextend : t₂.slots.Extends slots)
    (hmirrors : (markerEnv env marker slot).Mirrors guard ctx cells frames)
    (hb : limit.lower (env.push .block) splice? t₁ = .ok b t₂)
    (hconcrete : Action.Concrete concrete b.before) :
    Performs guard rounds b.before cells
      (fun c cells' => Simulates Eq c
          ((Value.binary .boolean .lt (.read .number slot) b.value).truth guard cells') ∧
        (markerEnv env marker slot).Mirrors guard ctx cells' frames)
      (limit.prepare ctx frames.tail >>= fun y => pure (frames.read marker >>= fun a =>
        y >>= fun d => BinOp.lt.apply a d >>= truth)) := by
  have houter := henv.push (.inl rfl)
  have hg := Expr.lower_grown hctx.grows houter hb
  have hident : (markerEnv env marker slot).ident .zero marker = .ok (.read .number slot) := by
    simp only [Env.ident, binding?_markerEnv]
  -- The marker may be newer than the code for the limit, so it is followed through that code.
  have hkept : Ensures
      (fun p => Frames.Match guard p.2 (markerEnv env marker slot).scopes.visible frames)
      (runWith (execBody guard rounds b.before) cells) := by
    have hg' : Grown (markerEnv env marker slot).scopes.depth t₁.slots t₂.slots b.before := hg
    refine hmirrors.frames.grown hg' hmarker hextend fun other hother r hr => ?_
    rcases List.mem_cons.mp hother with rfl | hother
    · cases hr
    · obtain ⟨i, hi⟩ := List.getElem?_of_mem hother
      exact (henv.stored.holds hi).result_lt henv.valid hr
  have hprepared := (Expr.prepare_performs hctx houter
    ((mirrors_of_marker hmirrors).reads.push rfl) hb hconcrete).ensures
    (P := fun cells' => Frames.Match guard cells' (markerEnv env marker slot).scopes.visible frames)
    hkept
  refine hprepared.map fun y cells' hcells' => ?_
  obtain ⟨hy, hframes⟩ := hcells'
  have hmirrors' : (markerEnv env marker slot).Mirrors guard ctx cells' frames :=
    ⟨hmirrors.declarations_eq, hmirrors.type?_eq, hframes⟩
  refine ⟨?_, hmirrors'⟩
  simp only [Value.truth, Value.eval, bind_assoc]
  have hcompared : ∀ a d : Datum target.Thing, Plain (BinOp.lt.apply a d >>= truth) :=
    fun a d => (BinOp.apply_plain _ a d).bind fun _ => .truth _
  refine (hmirrors'.reads.ident hctx.sound hident).bind ?_ fun a =>
    (Value.eval_growing guard cells' _).bind fun d => (hcompared a d).growing
  rintro a _ ⟨rfl, -⟩
  refine (hy cells' .refl).bind ?_ fun d => (hcompared a d).growing
  rintro d _ ⟨rfl, -⟩
  exact Simulates.refl (hcompared a d)

/-- One round of a counting loop. -/
def countRound (ctx : Context target) (rounds : Nat) (marker : String) (limit : Expr)
    (body : List Stmt) : EStateM Halt (Store target) Bool := do
  if ← beside fun frames => counting ctx marker limit frames then
    match ← inFrame (runBody ctx rounds body) with
    | .stop => return false
    | .normal | .next => return (← advance marker).goesOn
  else return false

theorem runWith_countRound (marker : String) (limit : Expr) (body : List Stmt) :
    runWith (countRound ctx rounds marker limit body) frames =
      (limit.prepare ctx frames.tail >>= fun y => pure (frames.read marker >>= fun a =>
        y >>= fun d => BinOp.lt.apply a d >>= truth)) >>= fun c => c >>= fun b =>
        if b then runWith (inFrame (runBody ctx rounds body)) frames >>= fun p =>
          match p.1 with
          | .stop => pure (false, p.2)
          | .normal | .next => runWith (advance marker) p.2 >>= fun q => pure (q.1.goesOn, q.2)
        else pure (false, frames) := by
  have hadvance : ∀ p : Exit × Frames target,
      runWith (match p.1 with
        | .stop => return false
        | .normal | .next => return (← advance marker).goesOn) p.2 =
      match p.1 with
        | .stop => pure (false, p.2)
        | .normal | .next => runWith (advance marker) p.2 >>= fun q => pure (q.1.goesOn, q.2) := by
    rintro ⟨exit, frames'⟩
    cases exit with
    | stop => rfl
    | normal => exact runWith_bind _ _ _
    | next => exact runWith_bind _ _ _
  simp only [countRound, counting, runWith_bind, runWith_beside, bind_assoc, pure_bind,
    runWith_ite, runWith_pure, hadvance]

/-- The body of a counting loop, and the step after it. -/
theorem countBody_simulates {slots slots' : Slots} {marker : String} {slot : Slot} {nesting : Nat}
    {body : List Stmt} {actions : List Action} (hguard : guard.Sound concrete)
    (hmarker : (markerEnv env marker slot).Ready slots nesting)
    (hmirrors : (markerEnv env marker slot).Mirrors guard ctx cells frames)
    (hbody : BodySimulated guard rounds ctx
      ((markerEnv env marker slot).push (.loop (some (countStep slot)))) slots' body actions) :
    Simulates
      (fun p q => p.1 = q.1 ∧ (markerEnv env marker slot).Mirrors guard ctx q.2 p.2)
      (runWith (inFrame (runBody ctx rounds body)) frames >>= fun p =>
        match p.1 with
        | .stop => pure (false, p.2)
        | .normal | .next => runWith (advance marker) p.2 >>= fun q => pure (q.1.goesOn, q.2))
      (runWith (execBody guard rounds (actions ++ [countStep slot])) cells >>= fun p =>
        pure (p.1.goesOn, p.2)) := by
  -- After the body the marker is moved on, by a step of its own or by the one in the body.
  have hstep : ∀ {cells frames}
      {k : Exit × Cells target → Computation target (Bool × Cells target)},
      (markerEnv env marker slot).Mirrors guard ctx cells frames →
      (∀ cells, k (.normal, cells) = pure (true, cells)) → (∀ p, Growing (k p)) →
      Simulates (fun p q => p.1 = q.1 ∧ (markerEnv env marker slot).Mirrors guard ctx q.2 p.2)
        (runWith (advance marker) frames >>= fun q => pure (q.1.goesOn, q.2))
        (runWith ((countStep slot).exec guard rounds) cells >>= k) := by
    intro cells frames k hmirrors hk hgrowing
    refine SimulatesVia.bind (advance_simulates hguard hmarker hmirrors binding?_markerEnv) ?_
      hgrowing
    rintro ⟨exit, frames'⟩ ⟨exit', cells'⟩ ⟨rfl, rfl, hmirrors'⟩
    rw [pure_bind, hk]
    exact Simulates.pure ⟨rfl, hmirrors'⟩
  rw [Action.runWith_append, bind_assoc]
  refine SimulatesVia.bind (inFrame_simulates rfl (hbody _ _ (hmirrors.push rfl))) ?_ fun p =>
    (Exit.andThen_growing (Action.execBody_growing guard rounds _) p).bind fun _ => .pure _
  rintro ⟨exit, frames'⟩ ⟨exit', cells'⟩ ⟨rfl, -, hframes⟩
  have hmirrors' : (markerEnv env marker slot).Mirrors guard ctx cells' frames' :=
    ⟨hmirrors.declarations_eq, hmirrors.type?_eq, hframes⟩
  cases exit with
  | stop =>
    rw [Scopes.finish_stop, pure_bind]
    exact Simulates.pure ⟨rfl, hmirrors'⟩
  | normal =>
    rw [Scopes.finish_normal, pure_bind, Exit.andThen, Action.runWith_singleton]
    exact hstep hmirrors' (fun _ => rfl) fun _ => .pure _
  | next =>
    show SimulatesVia _ _ _ (runWith (execBody guard rounds [countStep slot, .next]) cells' >>= _)
    rw [Action.runWith_cons, bind_assoc]
    refine hstep hmirrors' (fun _ => rfl) fun p => ?_
    refine (Exit.andThen_growing (Action.execBody_growing guard rounds _) p).bind fun q => ?_
    exact (Exit.andThen_growing (Action.execBody_growing guard rounds _) q).bind fun _ => .pure _

/-- The steps of a counting loop. -/
theorem run_count_simulates {marker : String} {first limit : Expr} {body : List Stmt}
    {a b : Lowered} {t₁ t₂ t₃ : LowerState} {slot : Slot} {slots : Slots} {actions : List Action}
    (hctx : ctx.Calls guard concrete rounds splice?) (henv : env.Ready st.slots 2)
    (hmirrors : env.Mirrors guard ctx cells frames)
    (ha : first.lower (env.push .block) splice? st = .ok a t₁)
    (hb : limit.lower (env.push .block) splice? t₁ = .ok b t₂) (hnumber : a.value.ty = .number)
    (hslot : Lower.intern marker (env.scopes.depth + 1) span t₂ = .ok slot t₃)
    (hconcrete : Action.Concrete concrete a.before)
    (hconcrete' : Action.Concrete concrete b.before)
    (hbody : BodySimulated guard rounds ctx
      ((markerEnv env marker slot).push (.loop (some (countStep slot)))) slots body actions) :
    SimulatesVia (env.scopes.finish guard rounds) (Ended guard env.scopes env.scopes)
      (runWith ((Stmt.count span marker first limit body).run ctx rounds) frames)
      (runWith ((Action.behind a.before (.block
        [.declare slot .number a.value,
         .loopWith b.before (.binary .boolean .lt (.read .number slot) b.value)
          (actions ++ [countStep slot])])).exec guard rounds) cells) := by
  have houter := (henv.push (.inl rfl)).le (Nat.zero_le 1)
  have hga := Expr.lower_grown hctx.grows houter ha
  have hgb := Expr.lower_grown hctx.grows (houter.grown hga) hb
  have hgrant := Lower.intern_granted hgb.valid houter.open_lt hslot
  have hdeclares : (env.push .block).scopes.Declares t₃.slots
      (markerEnv env marker slot).scopes := .declare .refl rfl rfl hgrant.get?
  have houter₃ : (env.push .block).Ready t₃.slots 1 := by
    have h := ((henv.push (.inl rfl)).grown hga).grown hgb
    exact ⟨hgrant.valid, h.stored.extend hgrant.extend, h.room⟩
  have hmarker : (markerEnv env marker slot).Ready t₃.slots 1 := houter₃.declares hdeclares
  have hexec : ∀ cells', runWith ((Action.block
      [.declare slot .number a.value,
       .loopWith b.before (.binary .boolean .lt (.read .number slot) b.value)
        (actions ++ [countStep slot])]).exec guard rounds) cells' =
      a.value.eval guard cells' >>= fun d =>
        runWith ((Action.loopWith b.before (.binary .boolean .lt (.read .number slot) b.value)
          (actions ++ [countStep slot])).exec guard rounds) (cells'.set slot d) := by
    intro cells'
    rw [Action.exec, Action.runWith_cons, Action.exec, Action.runWith_store, bind_assoc]
    simp only [pure_bind, Exit.andThen, Action.runWith_singleton]
  have hrun : runWith ((Stmt.count span marker first limit body).run ctx rounds) frames =
      first.run ctx frames >>= fun d =>
        runWith (iterate (countRound ctx rounds marker limit body) rounds)
          (Frames.declare (.empty :: frames) marker (.var .number (some d))) >>= fun p =>
            pure (.normal, p.2.tail) := by
    simp only [run, runWith_bind, runWith_beside, runWith_inFrame, runWith_update, bind_assoc,
      pure_bind, ofOption, runWith_pure]
    rfl
  rw [hrun, Action.runWith_behind]
  simp only [hexec]
  refine Expr.run_then hctx houter (hmirrors.reads.push rfl) ha hconcrete
    (fun d cells' hagree hd _ => ?_) fun cells' d => Action.exec_growing guard rounds _ _
  rw [hnumber] at hd
  have hmirrors' := hmirrors.agree (henv.le (Nat.zero_le 2)) (hagree.mono (.refl _) (Nat.le_succ _))
  have hstart : (markerEnv env marker slot).Mirrors guard ctx (cells'.set slot d)
      (Frames.declare (.empty :: frames) marker (.var .number (some d))) := by
    refine (hmirrors'.push rfl).declares hdeclares ?_
    exact (hmirrors'.push rfl).frames.declareSet hmarker.distinct hd
  rw [Action.runWith_loopWith]
  -- A round starts and ends in the scope of the marker, and the body has a scope inside it.
  refine Simulates.bind (Simulates.iterate
    (I := fun frames cells => (markerEnv env marker slot).Mirrors guard ctx cells frames)
    (fun frames cells hmirrors => ?_) (Action.roundWith_growing _ _ _) rounds hstart) ?_
    fun _ => .pure _
  · rw [runWith_countRound]
    refine round_simulates
      (I := fun frames cells => (markerEnv env marker slot).Mirrors guard ctx cells frames)
      (counting_performs hctx ((henv.le (by decide)).grown hga) hmarker hgrant.extend hmirrors hb
        hconcrete')
      (fun cells' hmirrors' => countBody_simulates hctx.sound hmarker hmirrors' hbody)
      fun cells' hmirrors' => hmirrors'
  · rintro p q hq
    exact Ended.normal (mirrors_of_marker hq).frames

end

/-! ## Statements and bodies -/

section

variable {ctx : Context target} {splice? : Option Splice}

mutual

/-- **Running the action of a statement answers running the statement.** -/
theorem run_simulates {stmt : Stmt} {scopes' : Scopes} {action : Action} {env : Env}
    {st st' : LowerState} {cells : Cells target} {frames : Frames target}
    (hctx : ctx.Calls guard concrete rounds splice?) (henv : env.Ready st.slots stmt.nesting)
    (hmirrors : env.Mirrors guard ctx cells frames)
    (h : stmt.lower env splice? st = .ok (scopes', action) st')
    (hconcrete : Action.Concrete concrete [action]) :
    SimulatesVia (env.scopes.finish guard rounds) (Ended guard env.scopes scopes')
      (runWith (stmt.run ctx rounds) frames) (runWith (action.exec guard rounds) cells) := by
  have henv₀ := henv.le (Nat.zero_le _)
  match stmt with
  | .block span body =>
    obtain ⟨actions, hbody, rfl, rfl⟩ := lower_block_ok h
    have hsim := runBody_simulates hctx (henv.push (.inl rfl)) hbody
      (Action.concrete_block.mp hconcrete)
    rw [run, Action.exec]
    exact BodySimulated.block hsim hmirrors
  | .declare span name ty value constant =>
    exact run_declare_simulates hctx henv₀ hmirrors h hconcrete
  | .assign span name value => exact run_assign_simulates hctx henv₀ hmirrors h hconcrete
  | .assignField span object field value =>
    exact run_assignField_simulates hctx henv₀ hmirrors h hconcrete
  | .branch span condition body none =>
    obtain ⟨v, t, actions, hv, -, hbody, rfl, rfl⟩ := lower_branch_ok h
    obtain ⟨hbefore, hactions⟩ := Action.concrete_behind.mp hconcrete
    have hg := Expr.lower_grown hctx.grows henv₀ hv
    have hsim := runBody_simulates hctx ((henv.grown hg).push (.inl rfl)) hbody
      (Action.concrete_branch.mp hactions)
    exact run_branch_simulates hctx henv₀ hmirrors hv hbefore hsim
  | .branch span condition body (some otherwise) =>
    obtain ⟨v, t, save, saved, t₁, actions, t₂, actions', hv, hboolean, hsave, hbody, hother, rfl,
      rfl⟩ := lower_branchElse_ok h
    obtain ⟨hbefore, hblock⟩ := Action.concrete_behind.mp hconcrete
    obtain ⟨-, hbranches⟩ := Action.concrete_append.mp (Action.concrete_block.mp hblock)
    obtain ⟨hactions, hactions'⟩ := Action.concrete_cons.mp hbranches
    have hg := Expr.lower_grown hctx.grows henv₀ hv
    have hg' : Grown env.scopes.depth t.slots t₁.slots save := saveCondition_kept hg.valid hsave
    have henv' := (henv.grown hg).grown hg'
    rw [nesting] at henv'
    have hbodyEnv := henv'.push_left
    have hk := lowerBody_kept hctx.grows hbodyEnv hbody
    have hotherEnv := (henv'.kept hk).push_right
    have hsim := runBody_simulates hctx hbodyEnv hbody (Action.concrete_branch.mp hactions)
    have hsim' := runBody_simulates hctx hotherEnv hother (Action.concrete_branch.mp hactions')
    exact run_branchElse_simulates hctx (henv.le (Nat.succ_le_succ (Nat.zero_le _))) hmirrors hv
      hboolean hbefore hsave hk hsim hsim'
  | .loop span condition body =>
    obtain ⟨v, t, actions, hv, -, hbody, rfl, rfl⟩ := lower_loop_ok h
    obtain ⟨hbefore, hactions⟩ := Action.concrete_loopWith.mp hconcrete
    have hg := Expr.lower_grown hctx.grows henv₀ hv
    have hsim := runBody_simulates hctx ((henv.grown hg).push (.inr rfl)) hbody hactions
    exact run_loop_simulates hctx henv₀ hmirrors hv hbefore hsim
  | .count span marker first limit body =>
    obtain ⟨a, t₁, b, t₂, slot, t₃, actions, ha, hb, hnumber, -, hslot, hbody, rfl, rfl⟩ :=
      lower_count_ok h
    obtain ⟨hbefore, hblock⟩ := Action.concrete_behind.mp hconcrete
    obtain ⟨-, hloop⟩ := Action.concrete_cons.mp (Action.concrete_block.mp hblock)
    obtain ⟨hbefore', hactions⟩ := Action.concrete_loopWith.mp hloop
    rw [nesting] at henv
    have houter := (henv.push (.inl rfl)).le (Nat.zero_le _)
    have hga := Expr.lower_grown hctx.grows houter ha
    have hgb := Expr.lower_grown hctx.grows (houter.grown hga) hb
    have hgrant := Lower.intern_granted hgb.valid houter.open_lt hslot
    have henv₃ : env.Ready t₃.slots (nestingBody body + 2) :=
      ⟨hgrant.valid, ((henv.grown hga).grown hgb).stored.extend hgrant.extend, henv.room⟩
    have hsim := runBody_simulates hctx (henv₃.count hgrant.get?) hbody
      (Action.concrete_append.mp hactions).1
    exact run_count_simulates hctx (henv.le (Nat.le_add_left _ _)) hmirrors ha hb hnumber hslot
      hbefore hbefore' hsim
  | .ret span value => exact run_ret_simulates hctx henv₀ hmirrors h hconcrete
  | .stop span => exact run_stop_simulates hmirrors h
  | .next span => exact run_next_simulates hmirrors h
  | .call span name args => exact run_call_simulates hctx henv₀ hmirrors h hconcrete

theorem runBody_simulates {body : List Stmt} {actions : List Action} {env : Env}
    {st st' : LowerState} (hctx : ctx.Calls guard concrete rounds splice?)
    (henv : env.Ready st.slots (nestingBody body))
    (h : lowerBody env splice? body st = .ok actions st')
    (hconcrete : Action.Concrete concrete actions) :
    BodySimulated guard rounds ctx env st'.slots body actions := by
  intro cells frames hmirrors
  match body with
  | [] =>
    obtain ⟨rfl, rfl⟩ := lowerBody_nil_ok h
    refine (Ended.normal hmirrors.frames).mono fun p q hended => ?_
    exact ⟨env.scopes, .refl, hended⟩
  | stmt :: body =>
    obtain ⟨scopes', action, t, rest, hstmt, hrest, rfl⟩ := lowerBody_cons_ok h
    rw [nestingBody] at henv
    obtain ⟨hconcrete, hconcrete'⟩ := Action.concrete_cons.mp hconcrete
    have henv₁ := henv.le (Nat.le_max_left _ _)
    obtain ⟨hk, hd⟩ := lower_kept hctx.grows henv₁ hstmt
    have henv' := ((henv.kept hk).le (Nat.le_max_right _ _)).declares hd
    have hk' := lowerBody_kept hctx.grows henv' hrest
    have hd' := hd.extend hk'.extend.get?
    have hsim := run_simulates hctx henv₁ hmirrors hstmt hconcrete
    have hrun : runWith (runBody ctx rounds (stmt :: body)) frames =
        runWith (stmt.run ctx rounds) frames >>= fun p =>
          Exit.andThen p (runWith (runBody ctx rounds body)) := by
      rw [runBody, runWith_bind]
      congr 1
      funext p
      obtain ⟨exit, frames'⟩ := p
      cases exit <;> rfl
    rw [hrun, Action.runWith_cons]
    refine hsim.bind ?_ (Exit.andThen_growing (Action.execBody_growing guard rounds rest))
    rintro ⟨exit, frames'⟩ ⟨exit', cells'⟩ ⟨rfl, hloop, hframes⟩
    by_cases hexit : exit = .normal
    · subst hexit
      rw [Scopes.finish_normal, pure_bind]
      have hbody := runBody_simulates hctx henv' hrest hconcrete' cells' frames'
        (hmirrors.declares hd hframes)
      have hfinish : env.scopes.finish guard rounds = scopes'.finish guard rounds :=
        Scopes.finish_congr hd.enclosingLoop?_eq.symm
      rw [hfinish]
      refine hbody.mono ?_
      rintro p q ⟨scopes'', hd'', hended⟩
      refine ⟨scopes'', hd'.trans hd'', hended.exit_eq, fun hne => ?_, hended.frames⟩
      rw [← hd.enclosingLoop?_eq]
      exact hended.inLoop hne
    · have hpure : Exit.andThen (exit, frames') (runWith (runBody ctx rounds body)) =
          pure (exit, frames') := by
        cases exit with
        | normal => exact absurd rfl hexit
        | stop => rfl
        | next => rfl
      rw [hpure, Scopes.finish_andThen hexit]
      exact .of_related ⟨scopes', hd', rfl, hloop, hframes⟩

end

end

end Stmt

end RuleScript
