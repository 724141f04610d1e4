import Mathlib.Data.List.Forall2
import Mathlib.Data.Option.Basic
import RuleScript.Proofs.Typing.Solving

/-!
# What a comparison shows

A comparison that succeeds has gone through the types along certain rules: natives of one name, the
items of arrays, parameters and return values, a place for every alternative of a union, and for a
generic the type that it is bound to. Any relation between types that follows these rules holds of
the two types. The bindings meant are those of some later moment, since a comparison never changes
what is bound.

## Main definitions

* `Solve.Rules`: a relation between types that follows the rules of comparison
* `Solve.Shows`: what is true if a comparison succeeds

## Main results

* `Solve.compare_shows`: a comparison shows every relation that follows the rules
-/

namespace RuleScript

namespace Solve

variable {α β : Type} {f : Bindings} {R : Ty → Ty → Prop}

/-- A relation that holds of a constraint and a candidate if it holds of the types that are compared
inside them, with generics bound in this way. -/
structure Rules (f : Bindings) (R : Ty → Ty → Prop) : Prop where
  any (k : Ty) : R .any k
  native (name : String) : R (.native name) (.native name)
  array {c k : Ty} : R c k → R (.array c) (.array k)
  function {cs ks : List Ty} {c k : Option Ty} :
    List.Forall₂ R cs ks → Option.Rel R c k → R (.function cs c) (.function ks k)
  variadic {inner k : Ty} : R inner k → R (.variadic inner) k
  same (name : String) (bound otherBound : Option Ty) :
    R (.generic name bound) (.generic name otherBound)
  /-- A generic stands for its binding. -/
  bound {name : String} {bound : Option Ty} {ty k : Ty} :
    f.get? name = some ty → R ty k → R (.generic name bound) k
  /-- A generic that takes the candidate is not compared with it. -/
  taken {name : String} {bound : Option Ty} {k : Ty} :
    f.get? name = some k → R (.generic name bound) k
  union {members : List Ty} {k : Ty} :
    (∀ a ∈ k.alternatives, ∃ c ∈ members, R c a) → R (.union members) k

/-- A comparison leaves alone what is bound, and if it succeeds then something is true wherever its
bindings are kept. -/
structure Shows (f : Bindings) (x : Solve Bool) (P : Prop) : Prop where
  growing : Growing x
  holds : ∀ {s s'}, x s = .ok true s' → s'.Grows f → P

namespace Shows

variable {x y : Solve Bool} {P Q : Prop}

theorem mono (h : Shows f x P) (hPQ : P → Q) : Shows f x Q :=
  ⟨h.growing, fun hx ht => hPQ (h.holds hx ht)⟩

theorem pure {b : Bool} (h : b = true → P) : Shows f (pure b) P := by
  refine ⟨fun s => .pure b, fun hb _ => ?_⟩
  cases hb
  exact h rfl

theorem both (hx : Shows f x P) (hy : Shows f y Q) : Shows f (both x y) (P ∧ Q) := by
  refine ⟨fun s => (hx.growing s).both (hy.growing s), fun h hf => ?_⟩
  obtain ⟨t, hxs, h⟩ := both_true.mp h
  exact ⟨hx.holds hxs ((hy.growing.ok h).trans hf), hy.holds h hf⟩

theorem either (hx : Shows f x P) (hy : Shows f y Q) : Shows f (either x y) (P ∨ Q) := by
  refine ⟨fun s => (hx.growing s).either (hy.growing s), fun h hf => ?_⟩
  rcases either_true.mp h with hxs | ⟨t, -, h⟩
  · exact .inl (hx.holds hxs hf)
  · exact .inr (hy.holds h hf)

theorem all? {check : α → Solve Bool} {S : α → Prop} (h : ∀ a, Shows f (check a) (S a))
    (as : List α) : Shows f (all? check as) (∀ a ∈ as, S a) := by
  induction as with
  | nil => exact pure fun _ a ha => by cases ha
  | cons a as ih => exact ((h a).both ih).mono List.forall_mem_cons.mpr

theorem some? {check : α → Solve Bool} {S : α → Prop} (h : ∀ a, Shows f (check a) (S a))
    (as : List α) : Shows f (some? check as) (∃ a ∈ as, S a) := by
  induction as with
  | nil => exact pure fun hfalse => by cases hfalse
  | cons a as ih => exact ((h a).either ih).mono fun hor => by simpa using hor

/-- A walk shows that there are enough partners, and something of each pair. -/
theorem eachWith {check : α → β → Solve Bool} {S : α → β → Prop}
    (h : ∀ a b, Shows f (check a b) (S a b)) (as : List α) (bs : List β) :
    Shows f (eachWith check as bs)
      (as.length ≤ bs.length ∧ List.Forall₂ S as (bs.take as.length)) := by
  induction as generalizing bs with
  | nil => exact pure fun _ => ⟨Nat.zero_le _, .nil⟩
  | cons a as ih =>
    cases bs with
    | nil => exact pure fun hfalse => by cases hfalse
    | cons b bs =>
      refine ((h a b).both (ih bs)).mono ?_
      rintro ⟨hab, hlen, hrest⟩
      exact ⟨Nat.succ_le_succ hlen, .cons hab hrest⟩

end Shows

variable {check : Ty → Ty → Solve Bool}

theorem returns_shows (h : ∀ c k, Shows f (check c k) (R c k)) (ret other : Option Ty) :
    Shows f (returns check ret other) (Option.Rel R ret other) := by
  cases ret with
  | none =>
    cases other with
    | none => exact .pure fun _ => .none
    | some k => exact .pure fun hfalse => by cases hfalse
  | some c =>
    cases other with
    | none => exact .pure fun hfalse => by cases hfalse
    | some k => exact (h c k).mono .some

/-- Two lists of parameters that are walked along each other have the same length. -/
theorem params_shows (h : ∀ c k, Shows f (check c k) (R c k)) (cs ks : List Ty) :
    Shows f (params check cs ks) (List.Forall₂ R cs ks) := by
  refine ((Shows.eachWith h cs ks).both (Shows.eachWith (fun k c => h c k) ks cs)).mono ?_
  rintro ⟨⟨hle, hforall⟩, hge, -⟩
  rw [Nat.le_antisymm hle hge, List.take_length] at hforall
  exact hforall

theorem step_generic_shows (hR : Rules f R) (h : ∀ c k, Shows f (check c k) (R c k))
    (name : String) (bound : Option Ty) (k : Ty) :
    Shows f (step check (.generic name bound) k) (R (.generic name bound) k) := by
  refine ⟨step_growing (fun c k => (h c k).growing) _ k, fun {s s'} hs hf => ?_⟩
  rcases k.generic_or_ne with ⟨other, otherBound, rfl⟩ | hk
  · rw [step_generic_generic] at hs
    split at hs
    case isTrue hname =>
      subst hname
      exact hR.same name bound otherBound
    case isFalse => cases hs
  · cases hname : s.get? name with
    | some ty =>
      rw [step_generic hk, hname] at hs
      exact hR.bound (hf name ty ((h ty k).growing.ok hs name ty hname)) ((h ty k).holds hs hf)
    | none =>
      obtain ⟨t, -, rfl⟩ := step_generic_true hk hname hs
      exact hR.taken (hf name k (Table.get?_insert_self t name k))

/-- **One level of a comparison shows a relation that follows the rules** if the comparisons inside
do. -/
theorem step_shows (hR : Rules f R) (h : ∀ c k, Shows f (check c k) (R c k)) (c k : Ty) :
    Shows f (step check c k) (R c k) := by
  cases c with
  | native name =>
    rw [step_native]
    refine .pure fun hname => ?_
    rcases of_decide_eq_true hname with rfl | rfl
    · exact hR.any k
    · exact hR.native name
  | array item =>
    rw [step_array]
    cases k with
    | array k => exact (h item k).mono hR.array
    | _ => exact .pure fun hfalse => by cases hfalse
  | function params ret =>
    cases k with
    | function others other =>
      rw [step_function]
      refine ((params_shows h params others).both (returns_shows h ret other)).mono ?_
      exact fun ⟨hparams, hret⟩ => hR.function hparams hret
    | _ =>
      rw [step_function_other (by exact nofun)]
      exact .pure fun hfalse => by cases hfalse
  | variadic inner =>
    rw [step_variadic]
    exact (h inner k).mono hR.variadic
  | generic name bound => exact step_generic_shows hR h name bound k
  | union members =>
    rw [step_union]
    exact (Shows.all? (fun k => Shows.some? (fun c => h c k) members) k.alternatives).mono hR.union

/-- **A comparison shows every relation that follows the rules.** -/
theorem compare_shows (hR : Rules f R) (depth : Nat) (c k : Ty) :
    Shows f (compare depth c k) (R c k) := by
  induction depth generalizing c k with
  | zero => exact ⟨compare_growing 0 c k, fun h => by cases h⟩
  | succ depth ih => exact step_shows hR ih c k

end Solve

end RuleScript
