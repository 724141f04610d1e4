import RuleScript.Proofs.Lowering.Marks
import RuleScript.Proofs.Run.Simulation

/-!
# What is trusted has its type

Rules for runs that keep track. They say which types the slots have before and after some code, in
the manner of Hoare triples: where every trusted slot holds a datum of its types, no read is
refused, and every trusted slot still does afterwards.

## Main definitions

* `Triple`: where a run starts and ends, without a misread
* `Tracked.Suits`: every trusted slot holds a datum of its types
* `Value.Gives`: what is trusted of a value has a property
* `Marked.Keeps`: which types the slots have before and after running marked actions

## Main results

* `Triple.iterate`: rounds of a loop, by what one round keeps
* `Marked.Keeps.append`, `Marked.Keeps.loopWith`, ...: a rule for each form of action
* `Marked.Keeps.run_eq`: keeping track changes nothing where the types of the slots are kept
-/

namespace RuleScript

open RuleScript.Computation

variable {target : Target} {α β σ : Type}

/-! ## Runs without a misread -/

/-- A run that starts where `P` holds gives a result for which `Q` holds or ends early, but not with
a misread. -/
def Triple (P : σ → Prop) (x : EStateM Halt σ α) (Q : α → σ → Prop) : Prop :=
  ∀ s, P s → match x s with
    | .ok a s' => Q a s'
    | .error halt _ => halt ≠ .misread

namespace Triple

variable {P : σ → Prop} {Q : α → σ → Prop} {R : β → σ → Prop}

theorem pure {a : α} (h : ∀ s, P s → Q a s) : Triple P (pure a) Q := fun s hs => h s hs

theorem throw {halt : Halt} (hne : halt ≠ .misread) :
    Triple P (throw halt : EStateM Halt σ α) Q := fun _ _ => hne

theorem modify {f : σ → σ} {Q : PUnit → σ → Prop} (h : ∀ s, P s → Q ⟨⟩ (f s)) :
    Triple P (modify f) Q := fun s hs => h s hs

theorem bind {x : EStateM Halt σ α} {f : α → EStateM Halt σ β} (hx : Triple P x Q)
    (hf : ∀ a, Triple (Q a) (f a) R) : Triple P (x >>= f) R := by
  intro s hs
  have hxs := hx s hs
  simp only [Bind.bind, EStateM.bind]
  cases hr : x s with
  | ok a s' =>
    rw [hr] at hxs
    exact hf a s' hxs
  | error halt s' =>
    rw [hr] at hxs
    exact hxs

theorem mono {Q' : α → σ → Prop} {x : EStateM Halt σ α} (hx : Triple P x Q)
    (hQ : ∀ a s, Q a s → Q' a s) : Triple P x Q' := by
  intro s hs
  have hxs := hx s hs
  cases hr : x s with
  | ok a s' =>
    rw [hr] at hxs
    exact hQ a s' hxs
  | error halt s' =>
    rw [hr] at hxs
    exact hxs

theorem of_imp {P' : σ → Prop} {x : EStateM Halt σ α} (hx : Triple P x Q)
    (hP : ∀ s, P' s → P s) : Triple P' x Q := fun s hs => hx s (hP s hs)

/-- **Rounds of a loop, by what one round keeps.** -/
theorem iterate {round : EStateM Halt σ Bool} (hround : Triple P round fun _ => P)
    (rounds : Nat) : Triple P (iterate round rounds) fun _ => P := by
  induction rounds with
  | zero => exact throw nofun
  | succ rounds ih =>
    refine hround.bind fun b => ?_
    cases b with
    | true => exact ih
    | false => exact pure fun _ hs => hs

end Triple

namespace Computation

/-- The result of a computation that never ends with a misread has a property. -/
abbrev Yields (P : α → Prop) (x : Computation target α) : Prop :=
  Triple (fun _ => True) x fun a _ => P a

variable {P : α → Prop} {x : Computation target α}

theorem Plain.yields (hx : Plain x) (h : Ensures P x) : Yields P x := by
  intro e _
  cases hr : x e with
  | ok a e' => exact h hr
  | error halt e' =>
    rintro rfl
    exact hx.ne_misread e e' hr

/-- A computation whose result is marked as trusted or not. -/
theorem Plain.tagged {k : Bool} (hx : Plain x) (h : k = true → Ensures P x) :
    Yields (fun p => p.2 = true → P p.1) (x >>= fun a => Pure.pure (a, k)) := by
  cases k with
  | true => exact (hx.yields (h rfl)).bind fun _ => Triple.pure fun _ hp _ => hp
  | false => exact (hx.yields (.trivial x)).bind fun _ => Triple.pure fun _ _ => nofun

theorem Plain.yields_true (hx : Plain x) : Yields (fun _ => True) x := hx.yields (.trivial x)

theorem Yields.bind_of {Q : β → Prop} {f : α → Computation target β} (hx : Yields P x)
    (hf : ∀ a, P a → Yields Q (f a)) : Yields Q (x >>= f) :=
  Triple.bind hx fun a e ha => hf a ha e trivial

/-- A computation beside a store that it may read. -/
theorem Yields.beside {S : σ → Prop} {x : σ → Computation target α}
    (h : ∀ s, S s → Yields P (x s)) :
    Triple (fun m : Running target σ => S m.store) (Computation.beside x)
      fun a m => S m.store ∧ P a := by
  intro m hm
  have hx := h m.store hm m.effects trivial
  simp only [Computation.beside]
  cases hr : x m.store m.effects with
  | ok a e =>
    rw [hr] at hx
    exact ⟨hm, hx⟩
  | error halt e =>
    rw [hr] at hx
    exact hx

end Computation

/-! ## The types of slots -/

/-- Which types the slots have at a place. -/
abbrev SlotTypes := Slot → Ty → Prop

variable {guard : Guard target} {Γ Γ' Γ'' : SlotTypes}

namespace Tracked

/-- Every trusted slot holds a datum of its types, if it holds one. -/
def Suits (guard : Guard target) (Γ : SlotTypes) (s : Tracked target) : Prop :=
  ∀ slot ty d, Γ slot ty → s.trusted slot = true → s.cells slot = some d → guard ty d = true

variable {s : Tracked target} {slot : Slot}

theorem suits_start (cells : Cells target) : (start cells).Suits guard Γ :=
  fun _ _ _ _ htrusted => by cases htrusted

theorem Suits.mono (h : s.Suits guard Γ) (hΓ : ∀ slot ty, Γ' slot ty → Γ slot ty) :
    s.Suits guard Γ' := fun slot ty d hty => h slot ty d (hΓ slot ty hty)

/-- Storing to a slot keeps the others as they are. -/
theorem Suits.set {d : Datum target.Thing} {trusted : Bool} (h : s.Suits guard Γ)
    (hslot : ∀ ty, Γ' slot ty → trusted = true → guard ty d = true)
    (hrest : ∀ other ty, other ≠ slot → Γ' other ty → Γ other ty) :
    (s.set slot d trusted).Suits guard Γ' := by
  intro other ty d' hty htrusted hd'
  simp only [Tracked.set, Cells.set] at htrusted hd'
  by_cases hother : other = slot
  · subst hother
    rw [if_pos rfl] at htrusted hd'
    cases hd'
    exact hslot ty hty htrusted
  · rw [if_neg hother] at htrusted hd'
    exact h other ty d' (hrest other ty hother hty) htrusted hd'

/-- Declaring a variable without a value keeps the other slots as they are. -/
theorem Suits.leave (h : s.Suits guard Γ)
    (hrest : ∀ other ty, other ≠ slot → Γ' other ty → Γ other ty) :
    (s.leave slot).Suits guard Γ' := by
  intro other ty d hty htrusted hd
  simp only [Tracked.leave] at htrusted hd
  by_cases hother : other = slot
  · rw [if_pos hother] at htrusted
    cases htrusted
  · rw [if_neg hother] at htrusted
    exact h other ty d (hrest other ty hother hty) htrusted hd

/-- A read of a slot at one of its types is not refused. -/
theorem Suits.load (h : s.Suits guard Γ) {ty : Ty} (hty : Γ slot ty) :
    Yields (fun p => p.2 = true → guard ty p.1 = true) (s.load guard ty slot) := by
  unfold Tracked.load
  cases hd : s.cells slot with
  | none => exact (Plain.ofOption _).yields_true.bind fun d => Triple.pure fun _ _ => id
  | some d =>
    have hkept : s.trusted slot = true → guard ty d = true := fun hk => h slot ty d hty hk hd
    show Yields _ (if s.trusted slot && !guard ty d then throw .misread else _)
    split
    case isTrue hrefused =>
      rw [Bool.and_eq_true, Bool.not_eq_true'] at hrefused
      rw [hkept hrefused.1] at hrefused
      cases hrefused.2
    case isFalse => exact Triple.pure fun _ _ => id

end Tracked

/-! ## Values -/

namespace Value

variable {P P' : Datum target.Thing → Prop} {v : Value}

/-- Where every trusted slot holds a datum of its types, the value is evaluated without a misread,
and its datum has a property if it is trusted. -/
def Gives (guard : Guard target) (Γ : SlotTypes) (P : Datum target.Thing → Prop) (v : Value) :
    Prop :=
  ∀ s : Tracked target, s.Suits guard Γ →
    Yields (fun p => p.2 = true → P p.1) (v.track guard s)

namespace Gives

theorem mono (h : v.Gives guard Γ P) (hP : ∀ d, P d → P' d) : v.Gives guard Γ P' :=
  fun s hs => (h s hs).mono fun _ _ hp hk => hP _ (hp hk)

theorem of_types (h : v.Gives guard Γ P) (hΓ : ∀ slot ty, Γ slot ty → Γ' slot ty) :
    v.Gives guard Γ' P := fun s hs => h s (hs.mono hΓ)

theorem read {ty : Ty} {slot : Slot} (hty : Γ slot ty) :
    (read ty slot).Gives guard Γ (guard ty · = true) := fun _ hs => hs.load hty

theorem number {ty : Ty} {x : Float} (h : P (.number x)) : (number ty x).Gives guard Γ P :=
  fun _ _ => Triple.pure fun _ _ _ => h

theorem string {ty : Ty} {t : String} (h : P (.text t)) : (string ty t).Gives guard Γ P :=
  fun _ _ => Triple.pure fun _ _ _ => h

theorem template {ty : Ty} {t : String} (h : P (.text t)) : (template ty t).Gives guard Γ P :=
  fun _ _ => Triple.pure fun _ _ _ => h

theorem boolean {ty : Ty} {b : Bool} (h : P (.truth b)) : (boolean ty b).Gives guard Γ P :=
  fun _ _ => Triple.pure fun _ _ _ => h

theorem constant {ty : Ty} {text : String} (h : Ensures P (Computation.constant text)) :
    (constant ty text).Gives guard Γ P :=
  fun _ _ => ((Plain.constant text).yields h).bind fun _ => Triple.pure fun _ hd _ => hd

theorem binary {ty : Ty} {op : BinOp} {lhs rhs : Value} {L R : Datum target.Thing → Prop}
    (hl : lhs.Gives guard Γ L) (hr : rhs.Gives guard Γ R)
    (hop : ∀ a b, L a → R b → Ensures P (op.apply a b)) :
    (binary ty op lhs rhs).Gives guard Γ P := by
  intro s hs
  refine (hl s hs).bind_of fun p hp => (hr s hs).bind_of fun q hq => ?_
  refine (op.apply_plain p.1 q.1).tagged fun hk => ?_
  rw [Bool.and_eq_true] at hk
  exact hop _ _ (hp hk.1) (hq hk.2)

theorem not {ty : Ty} {operand : Value} {L : Datum target.Thing → Prop}
    (h : operand.Gives guard Γ L) (hP : ∀ b, P (.truth b)) : (not ty operand).Gives guard Γ P := by
  intro s hs
  refine (h s hs).bind_of fun p _ => (Plain.negate p.1).tagged fun _ => ?_
  exact (Ensures.trivial _).bind fun b _ => .pure (hP _)

theorem index {ty : Ty} {a place : Value} {L R : Datum target.Thing → Prop}
    (ha : a.Gives guard Γ L) (hplace : place.Gives guard Γ R)
    (hitem : ∀ a i, L a → Ensures P (Computation.item a i)) :
    (index ty a place).Gives guard Γ P := by
  intro s hs
  refine (ha s hs).bind_of fun p hp => (hplace s hs).bind_of fun q _ => ?_
  refine (Plain.item p.1 q.1).tagged fun hk => ?_
  rw [Bool.and_eq_true] at hk
  exact hitem _ _ (hp hk.1)

end Gives

/-- The data of some values are trusted if each of them is. -/
theorem trackList_yields {vs : List Value} (h : ∀ v ∈ vs, v.Gives guard Γ P)
    (s : Tracked target) (hs : s.Suits guard Γ) :
    Yields (fun p => p.2 = true → ∀ d ∈ p.1, P d) (trackList guard s vs) := by
  induction vs with
  | nil => exact Triple.pure fun _ _ _ => nofun
  | cons v vs ih =>
    obtain ⟨hv, hvs⟩ := List.forall_mem_cons.mp h
    refine (hv s hs).bind_of fun p hp => (ih hvs).bind_of fun q hq => Triple.pure fun _ _ hk => ?_
    rw [Bool.and_eq_true] at hk
    exact List.forall_mem_cons.mpr ⟨hp hk.1, hq hk.2⟩

namespace Gives

theorem call {ty : Ty} {name : String} {args : List Value} {L : Datum target.Thing → Prop}
    (h : ∀ v ∈ args, v.Gives guard Γ L) (hvalue : ∀ ds, Ensures P (Computation.value name ds)) :
    (call ty name args).Gives guard Γ P := by
  intro s hs
  refine (trackList_yields h s hs).bind_of fun p _ => ?_
  exact (Plain.value name p.1).tagged fun _ => hvalue _

theorem array {ty : Ty} {items : List Value} {L : Datum target.Thing → Prop}
    (h : ∀ v ∈ items, v.Gives guard Γ L) (hlist : ∀ ds, (∀ d ∈ ds, L d) → P (.list ds)) :
    (array ty items).Gives guard Γ P := by
  intro s hs
  exact (trackList_yields h s hs).bind_of fun p hp => Triple.pure fun _ _ hk => hlist _ (hp hk)

end Gives

theorem Gives.truth (h : v.Gives guard Γ P) (s : Tracked target) (hs : s.Suits guard Γ) :
    Yields (fun _ => True) (v.trackTruth guard s) :=
  (h s hs).bind_of fun p _ => (Plain.truth p.1).yields_true

end Value

/-! ## Actions -/

namespace Marked

/-- Running the actions refuses no read and keeps the types of the slots, where it ends normally
with more of them. -/
def Keeps (guard : Guard target) (Γ : SlotTypes) (ms : List Marked) (Γ' : SlotTypes) : Prop :=
  ∀ rounds, Triple (fun m : Running target (Tracked target) => m.store.Suits guard Γ)
    (execBody guard rounds ms)
    fun exit m => m.store.Suits guard Γ ∧ (exit = .normal → m.store.Suits guard Γ')

theorem execBody_append (rounds : Nat) (as bs : List Marked) :
    execBody guard rounds (as ++ bs) = execBody guard rounds as >>= fun exit =>
      match exit with
      | .normal => execBody guard rounds bs
      | exit => pure exit := by
  induction as with
  | nil => rfl
  | cons a as ih =>
    rw [List.cons_append, execBody, execBody, ih, bind_assoc]
    congr 1
    funext exit
    cases exit with
    | normal => rfl
    | stop => rfl
    | next => rfl

theorem execBody_singleton (rounds : Nat) (m : Marked) :
    execBody guard rounds [m] = m.exec guard rounds := by
  rw [execBody]
  refine Eq.trans ?_ (bind_pure _)
  congr 1
  funext exit
  cases exit <;> rfl

namespace Keeps

variable {ms ms' : List Marked} {m : Marked}

/-- One action that always ends normally. -/
theorem of_exec (h : ∀ rounds, Triple
    (fun m : Running target (Tracked target) => m.store.Suits guard Γ) (m.exec guard rounds)
    fun exit m => m.store.Suits guard Γ ∧ (exit = .normal → m.store.Suits guard Γ')) :
    Keeps guard Γ [m] Γ' := by
  intro rounds
  rw [execBody_singleton]
  exact h rounds

theorem nil : Keeps guard Γ [] Γ := fun _ => Triple.pure fun _ hs => ⟨hs, fun _ => hs⟩

theorem weaken (h : Keeps guard Γ ms Γ') (hΓ : ∀ slot ty, Γ'' slot ty → Γ' slot ty) :
    Keeps guard Γ ms Γ'' :=
  fun rounds => (h rounds).mono fun _ _ hs => ⟨hs.1, fun hexit => (hs.2 hexit).mono hΓ⟩

/-- Actions one after the other, where the first ones only add types. -/
theorem append (h : Keeps guard Γ ms Γ') (h' : Keeps guard Γ' ms' Γ'')
    (hΓ : ∀ slot ty, Γ slot ty → Γ' slot ty) : Keeps guard Γ (ms ++ ms') Γ'' := by
  intro rounds
  rw [execBody_append]
  refine (h rounds).bind fun exit => ?_
  cases exit with
  | normal =>
    refine ((h' rounds).of_imp fun _ hs => hs.2 rfl).mono fun _ _ hs => ⟨hs.1.mono hΓ, hs.2⟩
  | stop => exact Triple.pure fun _ hs => ⟨hs.1, nofun⟩
  | next => exact Triple.pure fun _ hs => ⟨hs.1, nofun⟩

theorem block (h : Keeps guard Γ ms Γ') : Keeps guard Γ [.block ms] Γ' := of_exec h

theorem stop : Keeps guard Γ [.stop] Γ := of_exec fun _ => Triple.pure fun _ hs => ⟨hs, nofun⟩

theorem next : Keeps guard Γ [.next] Γ := of_exec fun _ => Triple.pure fun _ hs => ⟨hs, nofun⟩

theorem noop : Keeps guard Γ [.noop] Γ :=
  of_exec fun _ => Triple.pure fun _ hs => ⟨hs, fun _ => hs⟩

variable {slot : Slot} {v : Value} {P : Datum target.Thing → Prop}

/-- A declaration without a value. -/
theorem opened (hrest : ∀ other ty, other ≠ slot → Γ' other ty → Γ other ty)
    (hΓ : ∀ other ty, Γ other ty → Γ' other ty) : Keeps guard Γ [.opened slot] Γ' := by
  refine of_exec fun _ => Triple.bind (Q := fun _ m => m.store.Suits guard Γ') ?_ fun _ => ?_
  · exact Triple.modify fun _ hs => hs.leave hrest
  · exact Triple.pure fun _ hs => ⟨hs.mono hΓ, fun _ => hs⟩

theorem store {trusted : Bool} (hv : v.Gives guard Γ (guard v.ty · = true))
    (hslot : ∀ ty d, Γ' slot ty → trusted = true → guard v.ty d = true → guard ty d = true)
    (hrest : ∀ other ty, other ≠ slot → Γ' other ty → Γ other ty)
    (hΓ : ∀ other ty, Γ other ty → Γ' other ty) :
    Triple (fun m : Running target (Tracked target) => m.store.Suits guard Γ)
      (Marked.store guard slot v trusted)
      fun exit m => m.store.Suits guard Γ ∧ (exit = .normal → m.store.Suits guard Γ') := by
  refine (Yields.beside hv).bind fun p => ?_
  refine Triple.bind (Q := fun _ m => m.store.Suits guard Γ') ?_ fun _ => ?_
  · refine Triple.modify fun m hm => hm.1.set (fun ty hty hk => ?_) hrest
    rw [Bool.and_eq_true, Bool.or_eq_true] at hk
    exact hslot ty _ hty hk.2 (hk.1.elim hm.2 id)
  · exact Triple.pure fun _ hs => ⟨hs.mono hΓ, fun _ => hs⟩

theorem declare {ty : Ty} (hv : v.Gives guard Γ (guard v.ty · = true))
    (hslot : ∀ ty d, Γ' slot ty → guard v.ty d = true → guard ty d = true)
    (hrest : ∀ other ty, other ≠ slot → Γ' other ty → Γ other ty)
    (hΓ : ∀ other ty, Γ other ty → Γ' other ty) : Keeps guard Γ [.declare slot ty v] Γ' :=
  of_exec fun _ => store hv (fun ty d hty _ => hslot ty d hty) hrest hΓ

theorem assign (hv : v.Gives guard Γ (guard v.ty · = true))
    (hslot : ∀ ty d, Γ slot ty → guard v.ty d = true → guard ty d = true) :
    Keeps guard Γ [.assign slot v] Γ :=
  of_exec fun _ => store hv (fun ty d hty _ => hslot ty d hty) (fun _ _ _ => id) fun _ _ => id

/-- An argument. Nothing has to hold of one whose type has a generic. -/
theorem pass {ty : Ty} (hv : v.Gives guard Γ (guard v.ty · = true))
    (hslot : ∀ ty d, Γ' slot ty → v.ty.hasGeneric = false → guard v.ty d = true →
      guard ty d = true)
    (hrest : ∀ other ty, other ≠ slot → Γ' other ty → Γ other ty)
    (hΓ : ∀ other ty, Γ other ty → Γ' other ty) : Keeps guard Γ [.pass slot ty v] Γ' :=
  of_exec fun _ => store hv (fun ty d hty hk => hslot ty d hty (by simpa using hk)) hrest hΓ

theorem assignField {object : Value} {field : String} {L : Datum target.Thing → Prop}
    (ho : object.Gives guard Γ L) (hv : v.Gives guard Γ P) :
    Keeps guard Γ [.assignField object field v] Γ := by
  refine of_exec fun _ => (Yields.beside ho).bind fun p => ?_
  refine (Triple.of_imp (Yields.beside hv) fun _ hm => hm.1).bind fun q => ?_
  refine Triple.bind (Q := fun _ m => m.store.Suits guard Γ) ?_ fun _ => ?_
  · exact ((Yields.beside fun _ _ => (Plain.assignField p.1 field q.1).yields_true).of_imp
      fun _ hm => hm.1).mono fun _ _ hm => hm.1
  · exact Triple.pure fun _ hs => ⟨hs, fun _ => hs⟩

theorem call {name : String} {args : List Value} (h : ∀ v ∈ args, v.Gives guard Γ P) :
    Keeps guard Γ [.call name args] Γ := by
  refine of_exec fun _ => (Yields.beside (Value.trackList_yields h)).bind fun p => ?_
  refine Triple.bind (Q := fun _ m => m.store.Suits guard Γ) ?_ fun _ => ?_
  · exact ((Yields.beside fun _ _ => (Plain.action name p.1).yields_true).of_imp
      fun _ hm => hm.1).mono fun _ _ hm => hm.1
  · exact Triple.pure fun _ hs => ⟨hs, fun _ => hs⟩

theorem branch (hv : v.Gives guard Γ P) (h : Keeps guard Γ ms Γ') :
    Keeps guard Γ [.branch v ms] Γ := by
  refine of_exec fun rounds => (Yields.beside hv.truth).bind fun b => ?_
  cases b with
  | true => exact ((h rounds).of_imp fun _ hm => hm.1).mono fun _ _ hs => ⟨hs.1, fun _ => hs.1⟩
  | false => exact Triple.pure fun _ hm => ⟨hm.1, fun _ => hm.1⟩

theorem loop (hv : v.Gives guard Γ P) (h : Keeps guard Γ ms Γ') :
    Keeps guard Γ [.loop v ms] Γ := by
  refine of_exec fun rounds => Triple.bind (Q := fun _ m => m.store.Suits guard Γ) ?_ fun _ => ?_
  -- The invariant of the loop: the slots have the types that they had before the first round.
  · refine Triple.iterate ((Yields.beside hv.truth).bind fun b => ?_) rounds
    cases b with
    | true =>
      exact ((h rounds).of_imp fun _ hm => hm.1).bind fun _ => Triple.pure fun _ hs => hs.1
    | false => exact Triple.pure fun _ hm => hm.1
  · exact Triple.pure fun _ hs => ⟨hs, fun _ => hs⟩

/-- An action with others before it. -/
theorem behind (h : Keeps guard Γ (ms ++ [m]) Γ') : Keeps guard Γ [Marked.behind ms m] Γ' := by
  unfold Marked.behind
  split
  case isTrue hempty =>
    rw [List.isEmpty_iff.mp hempty] at h
    exact h
  case isFalse => exact h.block

/-- A loop whose condition needs actions of its own. -/
theorem loopWith (hcheck : Keeps guard Γ ms Γ) (hv : v.Gives guard Γ P)
    (h : Keeps guard Γ ms' Γ') : Keeps guard Γ [Marked.loopWith ms v ms'] Γ := by
  unfold Marked.loopWith
  split
  · exact loop hv h
  · have hleave : Keeps guard Γ [.branch v.negate [.stop]] Γ :=
      branch (P := fun _ => True) (hv.not fun _ => trivial) stop
    have hround := hcheck.append (hleave.append h fun _ _ => id) fun _ _ => id
    exact loop (P := fun _ => True) (.boolean trivial) hround

end Keeps

/-- **What keeps the types of the slots runs as it does without keeping track**, whatever the array
holds at the start. -/
theorem Keeps.run_eq {ms : List Marked} (h : Keeps guard Γ ms Γ') (rounds : Nat)
    (cells : Cells target) (effects : Effects target) :
    (∀ m, execBody guard rounds ms ⟨.start cells, effects⟩ ≠ .error .misread m) ∧
      mapResult id Tracked.forget (execBody guard rounds ms ⟨.start cells, effects⟩) =
        Action.execBody (fun _ _ => true) rounds (eraseBody ms) ⟨cells, effects⟩ := by
  have hrun := h rounds ⟨.start cells, effects⟩ (Tracked.suits_start cells)
  have hnever : ∀ m, execBody guard rounds ms ⟨.start cells, effects⟩ ≠ .error .misread m := by
    intro m hm
    rw [hm] at hrun
    exact hrun rfl
  refine ⟨hnever, ?_⟩
  rcases execBody_follows guard rounds ms ⟨.start cells, effects⟩ with ⟨m, hm⟩ | heq
  · exact absurd hm (hnever m)
  · exact heq.symm

end Marked

end RuleScript
