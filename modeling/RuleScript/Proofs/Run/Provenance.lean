import RuleScript.Proofs.Run.Rule

/-!
# Where a read finds its datum

A slot is shared by variables, so a read may find what another variable has left behind. A rule does
not show where that can happen: a declaration without a value does nothing, and an argument is
stored as any other value is. In a *marked* rule both are visible, and a run of a marked rule keeps
track, for each slot, of whether something was stored there since the last such declaration.

What was stored is *trusted* then, unless it is an argument whose type has a generic, or is not of
the type of its value and was computed from something that was not trusted. A read that finds a
datum of another type than its own is refused if what is in the slot is trusted. Otherwise it goes
on with that datum.

## Main definitions

* `Marked`: an action that shows arguments, and declarations without a value
* `Tracked`: the array, and which of its slots are trusted
* `Value.track`: the datum of a value, and whether it is trusted
* `Marked.execBody`: running marked actions
* `Follows`: a computation does what another does that also checks something

## Main results

* `Marked.execBody_follows`: keeping track changes nothing, unless a read is refused
-/

namespace RuleScript

/-- An action that shows arguments, and declarations without a value. -/
inductive Marked
  | block (body : List Marked)
  | branch (condition : Value) (body : List Marked)
  | loop (condition : Value) (body : List Marked)
  | declare (slot : Slot) (ty : Ty) (value : Value)
  | assign (slot : Slot) (value : Value)
  | assignField (object : Value) (field : String) (value : Value)
  | call (name : String) (args : List Value)
  | stop
  | next
  | noop
  /-- The declaration of a variable in which nothing is stored. -/
  | opened (slot : Slot)
  /-- The declaration of a parameter, in which the argument is stored. -/
  | pass (slot : Slot) (ty : Ty) (value : Value)

namespace Marked

mutual

/-- The action that is marked. -/
def erase : Marked → Action
  | block body => .block (eraseBody body)
  | branch condition body => .branch condition (eraseBody body)
  | loop condition body => .loop condition (eraseBody body)
  | declare slot ty value | pass slot ty value => .declare slot ty value
  | assign slot value => .assign slot value
  | assignField object field value => .assignField object field value
  | call name args => .call name args
  | stop => .stop
  | next => .next
  | noop | opened _ => .noop

/-- The actions that are marked. -/
def eraseBody : List Marked → List Action
  | [] => []
  | m :: ms => m.erase :: eraseBody ms

end

@[simp] theorem eraseBody_append (as bs : List Marked) :
    eraseBody (as ++ bs) = eraseBody as ++ eraseBody bs := by
  induction as with
  | nil => rfl
  | cons a as ih => rw [List.cons_append, eraseBody, ih, eraseBody, List.cons_append]

end Marked

/-! ## Keeping track -/

variable {target : Target}

/-- The array, and which of its slots are trusted: something was stored there for the variable that
has the slot now, and it has its type or was computed from what is trusted. -/
structure Tracked (target : Target) where
  cells : Cells target
  trusted : Slot → Bool

namespace Tracked

/-- Nothing has been stored yet, whatever the array holds. -/
def start (cells : Cells target) : Tracked target := ⟨cells, fun _ => false⟩

/-- A datum is stored in a slot. -/
def set (s : Tracked target) (slot : Slot) (d : Datum target.Thing) (trusted : Bool) :
    Tracked target :=
  ⟨s.cells.set slot d, fun other => if other = slot then trusted else s.trusted other⟩

/-- A variable is declared in a slot, which keeps what it holds. -/
def leave (s : Tracked target) (slot : Slot) : Tracked target :=
  ⟨s.cells, fun other => if other = slot then false else s.trusted other⟩

/-- Reads an element of the array. A datum that its type does not admit is refused if it is trusted,
and stays as it is otherwise. -/
def load (guard : Guard target) (s : Tracked target) (ty : Ty) (slot : Slot) :
    Computation target (Datum target.Thing × Bool) :=
  match s.cells slot with
  | none => do
    let d ← Computation.ofOption target.unset
    return (d, guard ty d)
  | some d => if s.trusted slot && !guard ty d then throw .misread else pure (d, guard ty d)

end Tracked

namespace Value

variable (guard : Guard target) (s : Tracked target)

mutual

/-- The datum of a value, and whether it is trusted. What the target gives is trusted whatever it is
asked for, and so is every literal. -/
def track : Value → Computation target (Datum target.Thing × Bool)
  | binary _ op lhs rhs => do
    let (a, k) ← lhs.track
    let (b, l) ← rhs.track
    return (← op.apply a b, k && l)
  | not _ operand => do
    let (a, k) ← operand.track
    return (← Computation.negate a, k)
  | index _ a i => do
    let (a, k) ← a.track
    let (i, l) ← i.track
    return (← Computation.item a i, k && l)
  | call _ name args => do
    let (ds, _) ← trackList args
    return (← Computation.value name ds, true)
  | constant _ text => do return (← Computation.constant text, true)
  | read ty slot => s.load guard ty slot
  | number _ x => pure (.number x, true)
  | string _ t => pure (.text t, true)
  | template _ t => pure (.text t, true)
  | boolean _ b => pure (.truth b, true)
  | array _ items => do
    let (ds, k) ← trackList items
    return (.list ds, k)

/-- The data of some values, from left to right, and whether all of them are trusted. -/
def trackList : List Value → Computation target (List (Datum target.Thing) × Bool)
  | [] => return ([], true)
  | v :: vs => do
    let (d, k) ← v.track
    let (ds, l) ← trackList vs
    return (d :: ds, k && l)

end

/-- The truth value of a value. -/
def trackTruth (v : Value) : Computation target Bool := do
  let (d, _) ← v.track guard s
  Computation.truth d

end Value

namespace Marked

open RuleScript.Computation (beside)

/-- Stores the datum of a value, which may be trusted at most. Where the datum has the type of the
value, it does not matter what it was computed from. -/
def store (guard : Guard target) (slot : Slot) (value : Value) (trusted : Bool) :
    EStateM Halt (Running target (Tracked target)) Exit := do
  let (d, k) ← beside (value.track guard)
  modify fun m => { m with store := m.store.set slot d ((k || guard value.ty d) && trusted) }
  return .normal

mutual

/-- Runs a marked action. -/
def exec (guard : Guard target) (rounds : Nat) :
    Marked → EStateM Halt (Running target (Tracked target)) Exit
  | block body => execBody guard rounds body
  | branch condition body => do
    if ← beside (condition.trackTruth guard) then execBody guard rounds body
    else return .normal
  | loop condition body => do
    iterate
      (do
        if ← beside (condition.trackTruth guard) then
          return (← execBody guard rounds body).goesOn
        else return false)
      rounds
    return .normal
  | declare slot _ value | assign slot value => store guard slot value true
  | assignField object field value => do
    let (o, _) ← beside (object.track guard)
    let (d, _) ← beside (value.track guard)
    beside fun _ => Computation.assignField o field d
    return .normal
  | call name args => do
    let (ds, _) ← beside fun s => Value.trackList guard s args
    beside fun _ => Computation.action name ds
    return .normal
  | stop => return .stop
  | next => return .next
  | noop => return .normal
  | opened slot => do
    modify fun m => { m with store := m.store.leave slot }
    return .normal
  | pass slot _ value => store guard slot value (!value.ty.hasGeneric)

/-- Runs marked actions one after the other, up to the first that does not end normally. -/
def execBody (guard : Guard target) (rounds : Nat) :
    List Marked → EStateM Halt (Running target (Tracked target)) Exit
  | [] => return .normal
  | m :: ms => do
    match ← m.exec guard rounds with
    | .normal => execBody guard rounds ms
    | exit => return exit

end

end Marked

/-! ## Keeping track changes nothing -/

variable {α β γ δ σ τ : Type}

/-- The result of a run, seen from outside. -/
def mapResult (f : α → β) (g : σ → τ) :
    EStateM.Result Halt σ α → EStateM.Result Halt τ β
  | .ok a s => .ok (f a) (g s)
  | .error halt s => .error halt (g s)

/-- The second computation does what the first one does, unless that ends with a misread. -/
def Follows (f : α → β) (g : σ → τ) (x : EStateM Halt σ α) (y : EStateM Halt τ β) : Prop :=
  ∀ s, (∃ s', x s = .error .misread s') ∨ y (g s) = mapResult f g (x s)

namespace Follows

variable {f : α → β} {f' : γ → δ} {g : σ → τ}

theorem pure (a : α) : Follows f g (pure a : EStateM Halt σ α) (pure (f a)) := fun _ => .inr rfl

theorem throw (halt : Halt) :
    Follows f g (throw halt : EStateM Halt σ α) (throw halt) := fun _ => .inr rfl

theorem misread {y : EStateM Halt τ β} : Follows f g (MonadExcept.throw .misread) y :=
  fun s => .inl ⟨s, rfl⟩

theorem refl (x : EStateM Halt σ α) : Follows id id x x := by
  intro s
  right
  cases hx : x s with
  | ok a s' => exact hx
  | error halt s' => exact hx

/-- Whether a result is trusted may be said beside it. -/
theorem paired (x : EStateM Halt σ α) (k : α → Bool) :
    Follows Prod.fst id (x >>= fun a => Pure.pure (a, k a)) x := by
  intro s
  right
  simp only [Bind.bind, EStateM.bind, id_eq]
  cases x s with
  | ok a s' => rfl
  | error halt s' => rfl

theorem modify {h : σ → σ} {h' : τ → τ} (hh : ∀ s, h' (g s) = g (h s)) :
    Follows id g (modify h : EStateM Halt σ PUnit) (modify h') := by
  intro s
  right
  show EStateM.Result.ok PUnit.unit (h' (g s)) = .ok PUnit.unit (g (h s))
  rw [hh]

theorem bind {x : EStateM Halt σ α} {y : EStateM Halt τ β} {k : α → EStateM Halt σ γ}
    {l : β → EStateM Halt τ δ} (hx : Follows f g x y) (hk : ∀ a, Follows f' g (k a) (l (f a))) :
    Follows f' g (x >>= k) (y >>= l) := by
  intro s
  simp only [Bind.bind, EStateM.bind]
  rcases hx s with ⟨s', hs'⟩ | hy
  · rw [hs']
    exact .inl ⟨s', rfl⟩
  · rw [hy]
    cases x s with
    | ok a s' => exact hk a s'
    | error halt s' => exact .inr rfl

/-- Rounds of a loop, by one round. -/
theorem iterate {round : EStateM Halt σ Bool} {round' : EStateM Halt τ Bool}
    (h : Follows id g round round') (rounds : Nat) :
    Follows id g (iterate round rounds) (iterate round' rounds) := by
  induction rounds with
  | zero => exact throw _
  | succ rounds ih =>
    refine h.bind fun b => ?_
    cases b with
    | true => exact ih
    | false => exact pure _

end Follows

/-- The array and the effects of a run that keeps track. -/
def Tracked.forget (m : Running target (Tracked target)) : Memory target :=
  ⟨m.store.cells, m.effects⟩

theorem Follows.beside {x : Tracked target → Computation target α}
    {y : Cells target → Computation target β} {f : α → β}
    (h : ∀ s, Follows f id (x s) (y s.cells)) :
    Follows f Tracked.forget (Computation.beside x) (Computation.beside y) := by
  intro m
  simp only [Computation.beside, Tracked.forget]
  rcases h m.store m.effects with ⟨e, he⟩ | hy
  · rw [he]
    exact .inl ⟨_, rfl⟩
  · simp only [id_eq] at hy
    rw [hy]
    cases x m.store m.effects with
    | ok a e => exact .inr rfl
    | error halt e => exact .inr rfl

section

variable (guard : Guard target)

theorem Tracked.load_follows (s : Tracked target) (ty : Ty) (slot : Slot) :
    Follows Prod.fst id (s.load guard ty slot)
      (RuleScript.load (fun _ _ => true) ty (s.cells slot)) := by
  unfold Tracked.load RuleScript.load
  cases s.cells slot with
  | none => exact Follows.paired _ _
  | some d =>
    show Follows Prod.fst id (if s.trusted slot && !guard ty d then throw .misread else _) _
    split
    · exact .misread
    · exact .pure _

namespace Value

mutual

/-- The datum of a value is the same when track is kept. -/
theorem track_follows (s : Tracked target) : ∀ v : Value,
    Follows Prod.fst id (v.track guard s) (v.eval (fun _ _ => true) s.cells)
  | binary _ op lhs rhs => by
    refine (track_follows s lhs).bind fun p => (track_follows s rhs).bind fun q => ?_
    exact .paired _ _
  | not _ operand => by
    refine (track_follows s operand).bind fun p => ?_
    exact .paired _ _
  | index _ a i => by
    refine (track_follows s a).bind fun p => (track_follows s i).bind fun q => ?_
    exact .paired _ _
  | call _ name args => by
    refine (trackList_follows s args).bind fun p => ?_
    exact .paired _ _
  | constant _ text => .paired _ _
  | read ty slot => s.load_follows guard ty slot
  | number _ _ | string _ _ | template _ _ | boolean _ _ => .pure _
  | array _ items => (trackList_follows s items).bind fun _ => .pure _

theorem trackList_follows (s : Tracked target) : ∀ vs : List Value,
    Follows Prod.fst id (trackList guard s vs) (evalList (fun _ _ => true) s.cells vs)
  | [] => .pure _
  | v :: vs => (track_follows s v).bind fun _ => (trackList_follows s vs).bind fun _ => .pure _

end

theorem trackTruth_follows (s : Tracked target) (v : Value) :
    Follows id id (v.trackTruth guard s) (v.truth (fun _ _ => true) s.cells) :=
  (track_follows guard s v).bind fun _ => .refl _

end Value

namespace Marked

variable (rounds : Nat)

theorem store_follows (slot : Slot) (value : Value) (trusted : Bool) :
    Follows id Tracked.forget (store guard slot value trusted)
      (Action.store (fun _ _ => true) slot value) := by
  refine (Follows.beside fun s => value.track_follows guard s).bind ?_
  rintro ⟨d, k⟩
  refine Follows.bind (f := id) ?_ fun _ => .pure Exit.normal
  exact Follows.modify fun _ => rfl

mutual

/-- **Keeping track changes nothing**, unless a read is refused. -/
theorem exec_follows : ∀ m : Marked,
    Follows id Tracked.forget (m.exec guard rounds) (m.erase.exec (fun _ _ => true) rounds)
  | block body => execBody_follows body
  | branch condition body =>
    (Follows.beside fun s => condition.trackTruth_follows guard s).bind fun b => by
      cases b with
      | true => exact execBody_follows body
      | false => exact .pure _
  | loop condition body => by
    refine Follows.bind (Follows.iterate ?_ rounds) fun _ => .pure _
    refine (Follows.beside fun s => condition.trackTruth_follows guard s).bind fun b => ?_
    cases b with
    | true => exact (execBody_follows body).bind fun _ => .pure _
    | false => exact .pure _
  | declare slot _ value | assign slot value | pass slot _ value => store_follows guard slot value _
  | assignField object field value => by
    refine (Follows.beside fun s => object.track_follows guard s).bind ?_
    rintro ⟨o, k⟩
    refine (Follows.beside fun s => value.track_follows guard s).bind ?_
    rintro ⟨d, l⟩
    refine Follows.bind (f := id) ?_ fun _ => .pure Exit.normal
    exact .beside fun _ => .refl _
  | call name args => by
    refine (Follows.beside fun s => Value.trackList_follows guard s args).bind ?_
    rintro ⟨ds, k⟩
    refine Follows.bind (f := id) ?_ fun _ => .pure Exit.normal
    exact .beside fun _ => .refl _
  | stop => .pure _
  | next => .pure _
  | noop => .pure _
  | opened slot => fun _ => .inr rfl

theorem execBody_follows : ∀ ms : List Marked,
    Follows id Tracked.forget (execBody guard rounds ms)
      (Action.execBody (fun _ _ => true) rounds (eraseBody ms))
  | [] => .pure _
  | m :: ms => (exec_follows m).bind fun exit => by
    cases exit with
    | normal => exact execBody_follows ms
    | stop => exact .pure _
    | next => exact .pure _

end

end Marked

end

end RuleScript
