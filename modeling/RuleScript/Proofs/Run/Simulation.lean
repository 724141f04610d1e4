import RuleScript.Proofs.Run.Rule

/-!
# One run answering another

Two computations on the same target are compared by what they do to the world. One *answers* the
other if it ends in the same way with the same effects and with a related result. An exception is a
run that becomes undefined: then the other may do anything from there on, but everything up to there
it has done as well.

A computation that reads and changes a store is compared as one that takes a store and gives one
(`runWith`), so that the two sides may have stores of different kinds.

## Main definitions

* `runWith`: a computation beside a store, as one that takes a store and gives one
* `Computation.Growing`: a computation that takes no effect back
* `Computation.Plain`: a computation that checks nothing either
* `Computation.Ensures`: what holds of every result
* `Simulates`, `SimulatesVia`: every run is answered by a run of the other computation
* `Performs`: running actions answers a computation

## Main results

* `SimulatesVia.bind`: computations one after the other
* `Simulates.iterate`: rounds of a loop, by what one round keeps
-/

namespace RuleScript

variable {target : Target} {α β γ δ σ τ : Type}

/-! ## Computations beside a store -/

/-- A computation beside a store, as one that takes a store and gives one. -/
def runWith (x : EStateM Halt (Running target σ) α) (s : σ) : Computation target (α × σ) :=
  fun e =>
    match x ⟨s, e⟩ with
    | .ok a r => .ok (a, r.store) r.effects
    | .error halt r => .error halt r.effects

theorem runWith_pure (a : α) (s : σ) :
    runWith (pure a : EStateM Halt (Running target σ) α) s = pure (a, s) := rfl

theorem runWith_bind (x : EStateM Halt (Running target σ) α)
    (f : α → EStateM Halt (Running target σ) β) (s : σ) :
    runWith (x >>= f) s = runWith x s >>= fun p => runWith (f p.1) p.2 := by
  funext e
  simp only [runWith, bind, EStateM.bind]
  cases x ⟨s, e⟩ with
  | ok a r => rfl
  | error halt r => rfl

theorem runWith_beside (x : σ → Computation target α) (s : σ) :
    runWith (Computation.beside x) s = x s >>= fun a => pure (a, s) := by
  funext e
  simp only [runWith, Computation.beside, bind, EStateM.bind]
  cases x s e with
  | ok a r => rfl
  | error halt r => rfl

theorem runWith_ite {c : Prop} [Decidable c] (x y : EStateM Halt (Running target σ) α) (s : σ) :
    runWith (if c then x else y) s = if c then runWith x s else runWith y s := by
  split
  · rfl
  · rfl

/-! ## Effects are never taken back -/

/-- The effects at the end of a run. -/
def effectsOf : EStateM.Result Halt (Effects target) α → Effects target
  | .ok _ e => e
  | .error _ e => e

namespace Computation

/-- The computation takes no effect back, however it ends. -/
def Growing (x : Computation target α) : Prop := ∀ e, e.trace <:+ (effectsOf (x e)).trace

namespace Growing

theorem pure (a : α) : Growing (pure a : Computation target α) := fun _ => List.suffix_refl _

theorem throw (halt : Halt) : Growing (throw halt : Computation target α) :=
  fun _ => List.suffix_refl _

theorem bind {x : Computation target α} {f : α → Computation target β} (hx : Growing x)
    (hf : ∀ a, Growing (f a)) : Growing (x >>= f) := by
  intro e
  have hxe := hx e
  simp only [Bind.bind, EStateM.bind]
  cases hr : x e with
  | ok a e' =>
    rw [hr] at hxe
    exact hxe.trans (hf a e')
  | error halt e' =>
    rw [hr] at hxe
    exact hxe

end Growing

/-- The computation takes no effect back and checks nothing, so it never ends with a misread. -/
structure Plain (x : Computation target α) : Prop where
  growing : Growing x
  ne_misread : ∀ e e', x e ≠ .error .misread e'

namespace Plain

theorem pure (a : α) : Plain (pure a : Computation target α) :=
  ⟨.pure a, fun _ _ h => by cases h⟩

theorem throw {halt : Halt} (hne : halt ≠ .misread) :
    Plain (throw halt : Computation target α) := by
  refine ⟨.throw halt, fun e e' h => ?_⟩
  cases h
  exact hne rfl

theorem bind {x : Computation target α} {f : α → Computation target β} (hx : Plain x)
    (hf : ∀ a, Plain (f a)) : Plain (x >>= f) := by
  refine ⟨hx.growing.bind fun a => (hf a).growing, fun e e' h => ?_⟩
  simp only [Bind.bind, EStateM.bind] at h
  cases hr : x e with
  | ok a e₁ =>
    rw [hr] at h
    exact (hf a).ne_misread e₁ e' h
  | error halt e₁ =>
    rw [hr] at h
    cases h
    exact hx.ne_misread e _ hr

theorem get : Plain (get : Computation target (Effects target)) :=
  ⟨fun _ => List.suffix_refl _, fun _ _ h => by cases h⟩

theorem modify {f : Effects target → Effects target} (hf : ∀ e, e.trace <:+ (f e).trace) :
    Plain (modify f : Computation target PUnit) :=
  ⟨hf, fun _ _ h => by cases h⟩

theorem ofOption (a : Option α) : Plain (ofOption a : Computation target α) := by
  cases a with
  | some a => exact pure a
  | none => exact throw nofun

theorem truth (d : Datum target.Thing) : Plain (truth d) := by
  cases d with
  | truth b => exact pure b
  | _ => exact throw nofun

theorem constant (text : String) :
    Plain (constant text : Computation target (Datum target.Thing)) :=
  get.bind fun _ => ofOption _

theorem value (name : String) (args : List (Datum target.Thing)) : Plain (value name args) :=
  get.bind fun _ => (ofOption _).bind fun (d, world) =>
    bind (modify (f := fun e => { e with world }) fun _ => List.suffix_refl _) fun _ => pure d

theorem action (name : String) (args : List (Datum target.Thing)) : Plain (action name args) :=
  get.bind fun _ => (ofOption _).bind fun _ => modify fun _ => List.suffix_cons _ _

theorem assignField (object : Datum target.Thing) (field : String) (d : Datum target.Thing) :
    Plain (assignField object field d) :=
  get.bind fun _ => (ofOption _).bind fun _ => modify fun _ => List.suffix_cons _ _

theorem item (a i : Datum target.Thing) : Plain (item a i) := by
  unfold Computation.item
  split
  · exact ofOption _
  · exact throw nofun

theorem negate (d : Datum target.Thing) : Plain (negate d) := (truth d).bind fun _ => pure _

end Plain

end Computation

open RuleScript.Computation

namespace BinOp

variable (op : BinOp)

theorem settle_plain (a b x : Float) :
    Plain (op.settle a b x : Computation target (Datum target.Thing)) := by
  unfold settle
  split
  · exact .pure _
  · exact .ofOption _

theorem applyNumbers_plain (a b : Float) :
    Plain (op.applyNumbers a b : Computation target (Datum target.Thing)) := by
  cases op with
  | add | sub | mul => exact settle_plain _ _ _ _
  | div =>
    show Plain (if b == 0.0 then ofOption (target.beyond .div a b) else _)
    split
    · exact .ofOption _
    · exact settle_plain _ _ _ _
  | eq | ne | lt | le | gt | ge => exact .pure _
  | and | or => exact .throw nofun

theorem applyOther_plain (a b : Datum target.Thing) : Plain (op.applyOther a b) := by
  cases op with
  | eq | ne | lt | le | gt | ge =>
    exact Plain.get.bind fun _ => (Plain.ofOption _).bind fun _ => .pure _
  | add | sub | mul | div | and | or => exact .throw nofun

theorem apply_plain (a b : Datum target.Thing) : Plain (op.apply a b) := by
  unfold apply
  split
  · exact applyNumbers_plain _ _ _
  · cases op <;> first | exact .pure _ | exact applyOther_plain _ _ _
  · cases op <;> first | exact .pure _ | exact applyOther_plain _ _ _
  · exact applyOther_plain _ _ _

end BinOp

section

variable (guard : Guard target) (cells : Cells target)

theorem load_growing (ty : Ty) (found : Option (Datum target.Thing)) :
    Growing (load guard ty found) := by
  unfold load
  split
  · exact (Plain.ofOption _).growing
  · split
    · exact .pure _
    · exact .throw _

namespace Value

mutual

theorem eval_growing : ∀ v : Value, Growing (v.eval guard cells)
  | binary _ op lhs rhs =>
    (eval_growing lhs).bind fun _ => (eval_growing rhs).bind fun _ => (op.apply_plain _ _).growing
  | not _ operand => (eval_growing operand).bind fun _ => (Plain.negate _).growing
  | index _ a i =>
    (eval_growing a).bind fun _ => (eval_growing i).bind fun _ => (Plain.item _ _).growing
  | call _ _ args => (evalList_growing args).bind fun _ => (Plain.value _ _).growing
  | constant _ text => (Plain.constant text).growing
  | read ty _ => load_growing guard ty _
  | number _ _ | string _ _ | template _ _ | boolean _ _ => .pure _
  | array _ items => (evalList_growing items).bind fun _ => .pure _

theorem evalList_growing : ∀ vs : List Value, Growing (evalList guard cells vs)
  | [] => .pure _
  | v :: vs => (eval_growing v).bind fun _ => (evalList_growing vs).bind fun _ => .pure _

end

theorem truth_growing (v : Value) : Growing (v.truth guard cells) :=
  (eval_growing guard cells v).bind fun _ => (Plain.truth _).growing

end Value

end

/-! ## Running actions with an array -/

/-- Goes on after something that ended normally. -/
def Exit.andThen (p : Exit × σ) (k : σ → Computation target (Exit × σ)) :
    Computation target (Exit × σ) :=
  match p with
  | (.normal, s) => k s
  | p => pure p

namespace Action

variable (guard : Guard target) (rounds : Nat) (cells : Cells target)

theorem runWith_store (slot : Slot) (value : Value) :
    runWith (store guard slot value) cells =
      value.eval guard cells >>= fun d => pure (.normal, cells.set slot d) := by
  simp only [store, runWith_bind, runWith_beside, bind_assoc, pure_bind]
  rfl

theorem runWith_branch (condition : Value) (body : List Action) :
    runWith ((branch condition body).exec guard rounds) cells =
      condition.truth guard cells >>= fun b =>
        if b then runWith (execBody guard rounds body) cells else pure (.normal, cells) := by
  simp only [exec, runWith_bind, runWith_beside, bind_assoc, pure_bind, runWith_ite, runWith_pure]

/-- One round of a loop. -/
def round (condition : Value) (body : List Action) : EStateM Halt (Memory target) Bool := do
  if ← beside fun cells => condition.truth guard cells then
    return (← execBody guard rounds body).goesOn
  else return false

theorem runWith_round (condition : Value) (body : List Action) :
    runWith (round guard rounds condition body) cells =
      condition.truth guard cells >>= fun b =>
        if b then runWith (execBody guard rounds body) cells >>= fun p => pure (p.1.goesOn, p.2)
        else pure (false, cells) := by
  simp only [round, runWith_bind, runWith_beside, bind_assoc, pure_bind, runWith_ite, runWith_pure]

theorem runWith_loop (condition : Value) (body : List Action) :
    runWith ((loop condition body).exec guard rounds) cells =
      runWith (iterate (round guard rounds condition body) rounds) cells >>= fun p =>
        pure (.normal, p.2) := by
  simp only [exec, runWith_bind, runWith_pure]
  rfl

theorem runWith_assignField (object : Value) (field : String) (value : Value) :
    runWith ((Action.assignField object field value).exec guard rounds) cells =
      object.eval guard cells >>= fun o => value.eval guard cells >>= fun d =>
        Computation.assignField o field d >>= fun _ => pure (.normal, cells) := by
  simp only [exec, runWith_bind, runWith_beside, bind_assoc, pure_bind, runWith_pure]

theorem runWith_call (name : String) (args : List Value) :
    runWith ((call name args).exec guard rounds) cells =
      Value.evalList guard cells args >>= fun ds =>
        Computation.action name ds >>= fun _ => pure (.normal, cells) := by
  simp only [exec, runWith_bind, runWith_beside, bind_assoc, pure_bind, runWith_pure]

theorem runWith_cons (a : Action) (as : List Action) :
    runWith (execBody guard rounds (a :: as)) cells =
      runWith (a.exec guard rounds) cells >>= fun p =>
        Exit.andThen p (runWith (execBody guard rounds as)) := by
  rw [execBody, runWith_bind]
  congr 1
  funext p
  obtain ⟨exit, cells'⟩ := p
  cases exit <;> rfl

theorem runWith_singleton (a : Action) :
    runWith (execBody guard rounds [a]) cells = runWith (a.exec guard rounds) cells := by
  have hpure : ∀ p : Exit × Cells target,
      Exit.andThen p (runWith (execBody guard rounds [])) = pure p := by
    rintro ⟨exit, cells'⟩
    cases exit <;> rfl
  rw [runWith_cons]
  simp only [hpure, bind_pure]

theorem runWith_append (as bs : List Action) :
    runWith (execBody guard rounds (as ++ bs)) cells =
      runWith (execBody guard rounds as) cells >>= fun p =>
        Exit.andThen p (runWith (execBody guard rounds bs)) := by
  induction as generalizing cells with
  | nil => rfl
  | cons a as ih =>
    rw [List.cons_append, runWith_cons, runWith_cons, bind_assoc]
    congr 1
    funext p
    obtain ⟨exit, cells'⟩ := p
    cases exit with
    | normal => exact ih cells'
    | stop => rfl
    | next => rfl

end Action

theorem Exit.andThen_growing {k : σ → Computation target (Exit × σ)} (hk : ∀ s, Growing (k s))
    (p : Exit × σ) : Growing (Exit.andThen p k) := by
  obtain ⟨exit, s⟩ := p
  cases exit with
  | normal => exact hk s
  | stop => exact .pure _
  | next => exact .pure _

/-- Rounds of a loop take no effect back if one round does not. -/
theorem iterate_growing {round : EStateM Halt (Running target σ) Bool}
    (hround : ∀ s, Growing (runWith round s)) (rounds : Nat) (s : σ) :
    Growing (runWith (iterate round rounds) s) := by
  induction rounds generalizing s with
  | zero => exact .throw _
  | succ rounds ih =>
    rw [iterate, runWith_bind]
    refine (hround s).bind fun p => ?_
    rw [runWith_ite]
    split
    · exact ih p.2
    · exact Growing.pure ((), p.2)

namespace Action

variable (guard : Guard target) (rounds : Nat)

theorem round_growing (condition : Value) {body : List Action}
    (hbody : ∀ cells, Growing (runWith (execBody guard rounds body) cells)) (cells : Cells target) :
    Growing (runWith (round guard rounds condition body) cells) := by
  rw [runWith_round]
  refine (condition.truth_growing guard cells).bind fun b => ?_
  split
  · exact (hbody cells).bind fun _ => .pure _
  · exact .pure _

mutual

/-- Running an action takes no effect back, whatever the array holds. -/
theorem exec_growing : ∀ (a : Action) (cells : Cells target),
    Growing (runWith (a.exec guard rounds) cells)
  | block body, cells => execBody_growing body cells
  | branch condition body, cells => by
    rw [runWith_branch]
    refine (condition.truth_growing guard cells).bind fun b => ?_
    split
    · exact execBody_growing body cells
    · exact .pure _
  | loop condition body, cells => by
    rw [runWith_loop]
    have hround := round_growing guard rounds condition (execBody_growing body)
    exact (iterate_growing hround rounds cells).bind fun _ => .pure _
  | declare slot _ value, cells => by
    rw [exec, runWith_store]
    exact (value.eval_growing guard cells).bind fun _ => .pure _
  | assign slot value, cells => by
    rw [exec, runWith_store]
    exact (value.eval_growing guard cells).bind fun _ => .pure _
  | assignField object field value, cells => by
    rw [runWith_assignField]
    refine (object.eval_growing guard cells).bind fun o => ?_
    refine (value.eval_growing guard cells).bind fun d => ?_
    exact (Plain.assignField _ _ _).growing.bind fun _ => .pure _
  | call name args, cells => by
    rw [runWith_call]
    refine (Value.evalList_growing guard cells args).bind fun ds => ?_
    exact (Plain.action _ _).growing.bind fun _ => .pure _
  | stop, cells => Growing.pure (Exit.stop, cells)
  | next, cells => Growing.pure (Exit.next, cells)
  | noop, cells => Growing.pure (Exit.normal, cells)

theorem execBody_growing : ∀ (body : List Action) (cells : Cells target),
    Growing (runWith (execBody guard rounds body) cells)
  | [], cells => Growing.pure (Exit.normal, cells)
  | a :: as, cells => by
    rw [runWith_cons]
    refine (exec_growing a cells).bind fun p => ?_
    obtain ⟨exit, cells'⟩ := p
    cases exit with
    | normal => exact execBody_growing as cells'
    | stop => exact .pure _
    | next => exact .pure _

end

end Action

/-! ## What holds of every result -/

namespace Computation

/-- The result, if there is one, has a property. -/
def Ensures (P : α → Prop) (x : Computation target α) : Prop :=
  ∀ ⦃e a e'⦄, x e = .ok a e' → P a

/-- The computation gives this result from some effects. -/
def Gives (x : Computation target α) (a : α) : Prop := ∃ e e', x e = .ok a e'

namespace Ensures

variable {P Q : α → Prop} {R : β → Prop}

theorem pure {a : α} (h : P a) : Ensures P (pure a : Computation target α) := by
  intro e a' e' ha
  cases ha
  exact h

theorem throw (halt : Halt) : Ensures P (throw halt : Computation target α) := by
  intro e a e' ha
  cases ha

theorem bind {x : Computation target α} {f : α → Computation target β} (hx : Ensures P x)
    (hf : ∀ a, P a → Ensures R (f a)) : Ensures R (x >>= f) := by
  intro e b e' hb
  simp only [Bind.bind, EStateM.bind] at hb
  cases hr : x e with
  | ok a e₁ =>
    rw [hr] at hb
    exact hf a (hx hr) hb
  | error halt e₁ =>
    rw [hr] at hb
    cases hb

theorem mono {x : Computation target α} (hx : Ensures P x) (hPQ : ∀ a, P a → Q a) :
    Ensures Q x := fun _ _ _ ha => hPQ _ (hx ha)

/-- What is done after a computation may be left out if it changes no result. -/
theorem bind_eq {x : Computation target α} {f : α → Computation target α}
    (h : Ensures (fun a => f a = Pure.pure a) x) : x >>= f = x := by
  funext e
  have he := @h e
  simp only [Bind.bind, EStateM.bind]
  cases hr : x e with
  | ok a e' =>
    rw [hr] at he
    show f a e' = _
    rw [he rfl]
    rfl
  | error halt e' => rfl

/-- The result is one that the computation gives. -/
theorem gives (x : Computation target α) : Ensures (Gives x) x := fun e _ e' ha => ⟨e, e', ha⟩

theorem trivial (x : Computation target α) : Ensures (fun _ => True) x := fun _ _ _ _ => True.intro

end Ensures

end Computation

theorem iterate_ensures {round : EStateM Halt (Running target σ) Bool} {P : σ → Prop}
    (hround : ∀ s, P s → Ensures (fun p => P p.2) (runWith round s)) (rounds : Nat) {s : σ}
    (hs : P s) : Ensures (fun p => P p.2) (runWith (iterate round rounds) s) := by
  -- On the rounds that are left; each starts where the one before has ended.
  induction rounds generalizing s with
  | zero => exact .throw _
  | succ rounds ih =>
    rw [iterate, runWith_bind]
    refine (hround s hs).bind fun p hp => ?_
    rw [runWith_ite]
    split
    · exact ih hp
    · rw [runWith_pure]
      exact .pure hp

/-! ## One run answering another -/

/-- How the end of one run is answered by that of another: in the same way with the same effects, or
in any way once the first run is undefined. A result may be answered by what is still to be run
(`finish`) from a related result on. The first run checks nothing, so no misread is answered. -/
inductive Answers (finish : β → Computation target γ) (R : α → β → Prop) :
    EStateM.Result Halt (Effects target) α → EStateM.Result Halt (Effects target) γ → Prop
  | ok {a : α} {b : β} {e : Effects target} {r : EStateM.Result Halt (Effects target) γ}
    (h : R a b) (hr : r = finish b e) : Answers finish R (.ok a e) r
  | halt {h : Halt} {e : Effects target} (hne : h ≠ .misread) :
    Answers finish R (.error h e) (.error h e)
  | undefined {e : Effects target} {r : EStateM.Result Halt (Effects target) γ}
    (h : e.trace <:+ (effectsOf r).trace) : Answers finish R (.error .undefined e) r

/-- Every run of the first computation is answered by the run of the second from the same effects,
where the second may still have to finish. -/
def SimulatesVia (finish : β → Computation target γ) (R : α → β → Prop) (x : Computation target α)
    (y : Computation target γ) : Prop :=
  ∀ e, Answers finish R (x e) (y e)

/-- Every run of the first computation is answered by that of the second from the same effects. -/
abbrev Simulates (R : α → β → Prop) (x : Computation target α) (y : Computation target β) : Prop :=
  SimulatesVia pure R x y

namespace SimulatesVia

variable {finish : β → Computation target γ} {R S : α → β → Prop} {x : Computation target α}
  {y : Computation target γ}

theorem of_related {a : α} {b : β} (h : R a b) :
    SimulatesVia finish R (pure a) (finish b) := fun _ => .ok h rfl

theorem throw {halt : Halt} (hne : halt ≠ .misread) :
    SimulatesVia finish R (throw halt) (throw halt) := fun _ => .halt hne

theorem undefined (hy : Growing y) : SimulatesVia finish R (MonadExcept.throw .undefined) y :=
  fun e => .undefined (hy e)

theorem mono (h : SimulatesVia finish R x y) (hRS : ∀ a b, R a b → S a b) :
    SimulatesVia finish S x y := by
  intro e
  have he := h e
  generalize x e = rx at he
  generalize y e = ry at he
  cases he with
  | ok h hr => exact .ok (hRS _ _ h) hr
  | halt hne => exact .halt hne
  | undefined h => exact .undefined h

/-- What is computed from the result is answered by the same. -/
theorem map {α' : Type} {S : α' → β → Prop} {f : α → α'} (h : SimulatesVia finish R x y)
    (hRS : ∀ a b, R a b → S (f a) b) :
    SimulatesVia finish S (x >>= fun a => Pure.pure (f a)) y := by
  intro e
  have he := h e
  simp only [Bind.bind, EStateM.bind]
  generalize x e = rx at he
  generalize y e = ry at he
  cases he with
  | ok h hr => exact .ok (hRS _ _ h) hr
  | halt hne => exact .halt hne
  | undefined h => exact .undefined h

/-- There is nothing to finish. -/
theorem simulates {finish : β → Computation target β} {y : Computation target β}
    (h : SimulatesVia finish R x y) (hfinish : ∀ a b, R a b → finish b = Pure.pure b) :
    Simulates R x y := by
  intro e
  have he := h e
  generalize x e = rx at he
  generalize y e = ry at he
  cases he with
  | ok h hr =>
    rw [hfinish _ _ h] at hr
    exact .ok h hr
  | halt hne => exact .halt hne
  | undefined h => exact .undefined h

/-- **Computations one after the other.** -/
theorem bind {α' β' γ' : Type} {finish' : β' → Computation target γ'} {R' : α' → β' → Prop}
    {f : α → Computation target α'} {g : γ → Computation target γ'}
    (hx : SimulatesVia finish R x y)
    (hf : ∀ a b, R a b → SimulatesVia finish' R' (f a) (finish b >>= g))
    (hg : ∀ c, Growing (g c)) : SimulatesVia finish' R' (x >>= f) (y >>= g) := by
  intro e
  have hxe := hx e
  simp only [Bind.bind, EStateM.bind]
  generalize x e = rx at hxe
  generalize y e = ry at hxe
  cases hxe with
  | ok h hr =>
    rw [hr]
    exact hf _ _ h _
  | halt hne => exact .halt hne
  | undefined h =>
    -- The first computation is undefined already; the second goes on, but it keeps its effects.
    refine .undefined (h.trans ?_)
    cases ry with
    | ok c e' => exact hg c e'
    | error halt e' => exact List.suffix_refl _

end SimulatesVia

namespace Simulates

variable {R : α → β → Prop} {x : Computation target α} {y : Computation target β}

/-- A computation that checks nothing answers itself. -/
theorem refl {x : Computation target α} (hx : Plain x) : Simulates Eq x x := by
  intro e
  cases hr : x e with
  | ok a e' => exact .ok rfl rfl
  | error halt e' =>
    refine .halt ?_
    rintro rfl
    exact hx.ne_misread e e' hr

theorem pure {a : α} {b : β} (h : R a b) :
    Simulates R (pure a : Computation target α) (pure b) := fun _ => .ok h rfl

theorem bind {α' β' γ' : Type} {finish' : β' → Computation target γ'} {R' : α' → β' → Prop}
    {f : α → Computation target α'} {g : β → Computation target γ'} (hx : Simulates R x y)
    (hf : ∀ a b, R a b → SimulatesVia finish' R' (f a) (g b)) (hg : ∀ b, Growing (g b)) :
    SimulatesVia finish' R' (x >>= f) (y >>= g) :=
  SimulatesVia.bind hx hf hg

/-- What the other computation ensures may be added to the relation. -/
theorem ensures {P : β → Prop} (hx : Simulates R x y) (hy : Ensures P y) :
    Simulates (fun a b => R a b ∧ P b) x y := by
  intro e
  have hxe := hx e
  have hye := @hy e
  generalize x e = rx at hxe
  generalize y e = ry at hxe hye
  cases hxe with
  | ok h hr =>
    subst hr
    exact .ok ⟨h, hye rfl⟩ rfl
  | halt hne => exact .halt hne
  | undefined h => exact .undefined h

/-- **Rounds of a loop, by what one round keeps.** -/
theorem iterate {round : EStateM Halt (Running target σ) Bool}
    {round' : EStateM Halt (Running target τ) Bool} {I : σ → τ → Prop}
    (hround : ∀ s t, I s t →
      Simulates (fun p q => p.1 = q.1 ∧ I p.2 q.2) (runWith round s) (runWith round' t))
    (hgrowing : ∀ t, Growing (runWith round' t)) (rounds : Nat) {s : σ} {t : τ} (h : I s t) :
    Simulates (fun p q => I p.2 q.2) (runWith (iterate round rounds) s)
      (runWith (iterate round' rounds) t) := by
  induction rounds generalizing s t with
  | zero => exact .throw nofun
  | succ rounds ih =>
    rw [RuleScript.iterate, RuleScript.iterate, runWith_bind, runWith_bind]
    refine (hround s t h).bind ?_ fun q => ?_
    · rintro ⟨b, s'⟩ ⟨b', t'⟩ ⟨rfl, h'⟩
      rw [runWith_ite, runWith_ite]
      cases b with
      | true => exact ih h'
      | false => exact fun _ => .ok h' rfl
    · rw [runWith_ite]
      split
      · exact iterate_growing hgrowing rounds q.2
      · exact Growing.pure ((), q.2)

end Simulates

/-! ## Actions that perform a computation -/

/-- Running the actions answers a computation, and the actions end normally. -/
def Performs (guard : Guard target) (rounds : Nat) (actions : List Action) (cells : Cells target)
    (Q : α → Cells target → Prop) (x : Computation target α) : Prop :=
  Simulates (fun a p => p.1 = .normal ∧ Q a p.2) x
    (runWith (Action.execBody guard rounds actions) cells)

namespace Performs

variable {guard : Guard target} {rounds : Nat} {as bs : List Action} {cells : Cells target}
  {Q : α → Cells target → Prop} {x : Computation target α}

theorem nil {a : α} (h : Q a cells) : Performs guard rounds [] cells Q (pure a) :=
  fun _ => .ok ⟨rfl, h⟩ rfl

theorem mono {Q' : α → Cells target → Prop} (h : Performs guard rounds as cells Q x)
    (hQ : ∀ a cells', Q a cells' → Q' a cells') : Performs guard rounds as cells Q' x :=
  SimulatesVia.mono h fun _ _ hp => ⟨hp.1, hQ _ _ hp.2⟩

/-- The actions answer what is computed from the result as well. -/
theorem map {Q' : β → Cells target → Prop} {g : α → β} (h : Performs guard rounds as cells Q x)
    (hg : ∀ a cells', Q a cells' → Q' (g a) cells') :
    Performs guard rounds as cells Q' (x >>= fun a => pure (g a)) :=
  SimulatesVia.map h fun _ _ hp => ⟨hp.1, hg _ _ hp.2⟩

theorem block (h : Performs guard rounds as cells Q x) :
    Performs guard rounds [.block as] cells Q x := by
  rw [Performs, Action.runWith_singleton, Action.exec]
  exact h

/-- What running the actions ensures may be added. -/
theorem ensures {P : Cells target → Prop} (h : Performs guard rounds as cells Q x)
    (hP : Ensures (fun p => P p.2) (runWith (Action.execBody guard rounds as) cells)) :
    Performs guard rounds as cells (fun a cells' => Q a cells' ∧ P cells') x :=
  SimulatesVia.mono (Simulates.ensures h hP) fun _ _ hp => ⟨hp.1.1, hp.1.2, hp.2⟩

/-- Actions and what is done after them. -/
theorem bind {finish : β → Computation target δ} {R : γ → β → Prop} {f : α → Computation target γ}
    {k : Exit × Cells target → Computation target δ} (h : Performs guard rounds as cells Q x)
    (hf : ∀ a cells', Q a cells' → SimulatesVia finish R (f a) (k (.normal, cells')))
    (hk : ∀ p, Growing (k p)) :
    SimulatesVia finish R (x >>= f)
      (runWith (Action.execBody guard rounds as) cells >>= k) := by
  refine Simulates.bind h ?_ hk
  rintro a ⟨exit, cells'⟩ ⟨rfl, ha⟩
  exact hf a cells' ha

/-- Actions and more actions after them. -/
theorem andThen {finish : β → Computation target (Exit × Cells target)} {R : γ → β → Prop}
    {f : α → Computation target γ} {k : Cells target → Computation target (Exit × Cells target)}
    (h : Performs guard rounds as cells Q x)
    (hf : ∀ a cells', Q a cells' → SimulatesVia finish R (f a) (k cells'))
    (hk : ∀ cells', Growing (k cells')) :
    SimulatesVia finish R (x >>= f)
      (runWith (Action.execBody guard rounds as) cells >>= fun p => Exit.andThen p k) :=
  h.bind hf (Exit.andThen_growing hk)

/-- Actions one after the other. -/
theorem append {Q' : β → Cells target → Prop} {f : α → Computation target β}
    (h : Performs guard rounds as cells Q x)
    (hf : ∀ a cells', Q a cells' → Performs guard rounds bs cells' Q' (f a)) :
    Performs guard rounds (as ++ bs) cells Q' (x >>= f) := by
  rw [Performs, Action.runWith_append]
  exact h.andThen hf fun cells' => Action.execBody_growing guard rounds bs cells'

end Performs

end RuleScript
