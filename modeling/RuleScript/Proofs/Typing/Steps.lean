import RuleScript.Proofs.Typing.Parts
import RuleScript.Ty.Solver

/-!
# One level of a comparison

A comparison is put together from comparisons of the types inside by two connectives: both succeed,
and one of the two succeeds. What one level does is said once for each form of the constraint, so
that nothing below looks into `Solve.step` again. A candidate that is no union counts as a union of
itself alone; unions then need no case of their own.

## Main definitions

* `Solve.both`, `Solve.either`: the connectives
* `Solve.take`: a generic takes a type as its binding
* `Solve.after`: the bindings that a comparison leaves behind

## Main results

* `Solve.step_native`, `Solve.step_array`, `Solve.step_function`, `Solve.step_variadic`,
  `Solve.step_union`: one level, for each form of the constraint
* `Solve.step_generic`, `Solve.step_generic_generic`: one level for a generic
-/

namespace RuleScript

namespace Solve

variable {α β : Type}

/-! ## Connectives -/

/-- Both comparisons succeed. The second one is not made if the first one fails. -/
def both (x y : Solve Bool) : Solve Bool := do
  if ← x then y else pure false

/-- One of two comparisons succeeds. The second one is not made if the first one succeeds. -/
def either (x y : Solve Bool) : Solve Bool := do
  if ← x then pure true else y

theorem eachWith_cons {check : α → β → Solve Bool} {a : α} {as : List α} {b : β} {bs : List β} :
    eachWith check (a :: as) (b :: bs) = both (check a b) (eachWith check as bs) := rfl

/-- To leave early with a failure is to need both. -/
theorem bind_not_eq_both {x y : Solve Bool} :
    (x >>= fun b => if !b then pure false else y) = both x y := by
  unfold both
  congr 1
  funext b
  cases b <;> rfl

theorem both_assoc (x y z : Solve Bool) : both (both x y) z = both x (both y z) := by
  funext s
  simp only [both, bind, EStateM.bind]
  cases x s with
  | ok b t => cases b <;> rfl
  | error e t => rfl

theorem both_pure_true (x : Solve Bool) : both x (pure true) = x := by
  funext s
  simp only [both, bind, EStateM.bind]
  cases x s with
  | ok b t => cases b <;> rfl
  | error e t => rfl

/-! ## What a computation leaves behind -/

/-- The bindings that a computation leaves behind, whatever it comes to. -/
def after (x : Solve α) (s : Bindings) : Bindings :=
  match x s with
  | .ok _ t => t
  | .error _ t => t

theorem bind_ok {x : Solve α} {f : α → Solve β} {b : β} {s s' : Bindings} :
    (x >>= f) s = .ok b s' ↔ ∃ a t, x s = .ok a t ∧ f a t = .ok b s' := by
  simp only [bind, EStateM.bind]
  cases x s with
  | ok a t =>
    constructor
    · intro h
      exact ⟨a, t, rfl, h⟩
    · rintro ⟨_, _, hat, h⟩
      cases hat
      exact h
  | error e t => simp

theorem both_true {x y : Solve Bool} {s s' : Bindings} :
    both x y s = .ok true s' ↔ ∃ t, x s = .ok true t ∧ y t = .ok true s' := by
  rw [both, bind_ok]
  constructor
  · rintro ⟨b, t, hx, h⟩
    cases b with
    | true => exact ⟨t, hx, h⟩
    | false => cases h
  · rintro ⟨t, hx, hy⟩
    exact ⟨true, t, hx, hy⟩

theorem either_true {x y : Solve Bool} {s s' : Bindings} :
    either x y s = .ok true s' ↔
      x s = .ok true s' ∨ ∃ t, x s = .ok false t ∧ y t = .ok true s' := by
  rw [either, bind_ok]
  constructor
  · rintro ⟨b, t, hx, h⟩
    cases b with
    | true =>
      cases h
      exact .inl hx
    | false => exact .inr ⟨t, hx, h⟩
  · rintro (hx | ⟨t, hx, hy⟩)
    · exact ⟨true, s', hx, rfl⟩
    · exact ⟨false, t, hx, hy⟩

/-! ## Generics -/

/-- The generic takes a type as its binding. -/
def take (name : String) (ty : Ty) : Solve Bool := do
  modify (·.insert name ty)
  pure true

/-- Whether a type meets a bound, if there is a bound. -/
def within (check : Ty → Ty → Solve Bool) (bound : Option Ty) (ty : Ty) : Solve Bool :=
  match bound with
  | none => pure true
  | some bound => check bound ty

theorem take_eq (name : String) (ty : Ty) (s : Bindings) :
    take name ty s = .ok true (s.insert name ty) := rfl

variable {check : Ty → Ty → Solve Bool}

/-- Reading the bindings hands them on. -/
theorem get_bind (f : Bindings → Solve α) (s : Bindings) : (get >>= f) s = f s s := rfl

theorem bindingOf_eq (name : String) (s : Bindings) :
    bindingOf name s =
      match s.get? name with
      | some ty => .ok ty s
      | none => .error (.undefinedGeneric name) s := by
  rw [bindingOf, get_bind]
  cases s.get? name <;> rfl

theorem meetsBound_eq (bound : Option Ty) (name : String) (s : Bindings) :
    meetsBound check bound name s =
      match bound, s.get? name with
      | none, _ => .ok true s
      | some bound, some ty => check bound ty s
      | some _, none => .error (.undefinedGeneric name) s := by
  cases bound with
  | none => rfl
  | some bound =>
    simp only [meetsBound, bind, EStateM.bind, bindingOf_eq]
    cases s.get? name <;> rfl

/-- Two generics are compared by name, and then by what they stand for. -/
theorem step_generic_generic (name other : String) (bound otherBound : Option Ty) :
    step check (.generic name bound) (.generic other otherBound) =
      if name = other then both (meetsBound check bound name) (meetsBound check otherBound name)
      else pure false := by
  have hany : Ty.generic name bound ≠ .any := nofun
  rw [step, if_neg hany]
  by_cases hname : name = other
  · rw [if_pos hname, ← bind_not_eq_both]
    simp [hname]
  · rw [if_neg hname]
    simp [hname]

/-- A generic that is bound is compared as its binding, and one that is free takes the candidate
unless that does not meet its bound. -/
theorem step_generic {name : String} {bound : Option Ty} {k : Ty}
    (hk : ∀ other otherBound, k ≠ .generic other otherBound) (s : Bindings) :
    step check (.generic name bound) k s =
      match s.get? name with
      | some ty => check ty k s
      | none => both (within check bound k) (take name k) s := by
  have hany : Ty.generic name bound ≠ .any := nofun
  rw [step, if_neg hany]
  · rw [get_bind]
    cases s.get? name with
    | some ty => rfl
    | none =>
      cases bound with
      | none => rfl
      | some bound =>
        simp only [both, within, bind, EStateM.bind]
        cases check bound k s with
        | ok b t => cases b <;> rfl
        | error e t => rfl
  · exact hk

/-! ## The other forms -/

theorem step_native (name : String) (k : Ty) :
    step check (.native name) k = pure (decide (name = "any" ∨ k = .native name)) := by
  by_cases hany : name = "any"
  · simp [step, hany, Ty.any]
  · have hne : Ty.native name ≠ .any := fun h => hany (Ty.native.inj h)
    cases k with
    | native other =>
      rw [step, if_neg hne]
      have heq : (name == other) = decide (name = "any" ∨ Ty.native other = .native name) := by
        by_cases heq : name = other
        · simp [heq]
        · have hne' : Ty.native other ≠ .native name := fun h => heq (Ty.native.inj h).symm
          simp [hany, heq, hne']
      exact congrArg _ heq
    | _ => simp [step, hne, hany, sameForm]

theorem step_array (item k : Ty) :
    step check (.array item) k = k.item?.elim (pure false) (check item) := by
  cases k <;> rfl

theorem step_variadic (inner k : Ty) : step check (.variadic inner) k = check inner k := by
  cases k <;> rfl

/-- Each list of parameters is walked along the other one, so that the lengths have to agree. -/
def params (check : Ty → Ty → Solve Bool) (cs ks : List Ty) : Solve Bool :=
  both (eachWith check cs ks) (eachWith (fun k c => check c k) ks cs)

/-- The types of two return values are compared if there are any. -/
def returns (check : Ty → Ty → Solve Bool) : Option Ty → Option Ty → Solve Bool
  | none, none => pure true
  | some c, some k => check c k
  | _, _ => pure false

theorem step_function (cs ks : List Ty) (c k : Option Ty) :
    step check (.function cs c) (.function ks k) =
      both (params check cs ks) (returns check c k) := by
  rw [params, both_assoc, ← bind_not_eq_both, ← bind_not_eq_both]
  cases c <;> cases k <;> rfl

/-- A function type is compared with function types only. -/
theorem step_function_other {params : List Ty} {ret : Option Ty} {k : Ty}
    (hk : ∀ others other, k ≠ .function others other) :
    step check (.function params ret) k = pure false := by
  cases k with
  | function others other => exact absurd rfl (hk others other)
  | _ => rfl

/-- Every alternative that the candidate offers has to find a place. -/
theorem step_union (members : List Ty) (k : Ty) :
    step check (.union members) k = all? (fun k => some? (check · k) members) k.alternatives := by
  have hsingle : ∀ k, all? (fun k => some? (check · k) members) [k] = some? (check · k) members :=
    fun k => both_pure_true _
  cases k with
  | union others => rfl
  | _ => exact (hsingle _).symm

end Solve

end RuleScript
