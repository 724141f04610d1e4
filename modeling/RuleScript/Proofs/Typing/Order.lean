import Mathlib.Data.List.Forall2
import Mathlib.Data.Option.Basic
import RuleScript.Proofs.Typing.Solving

/-!
# The order of types without generics

Where no generics are about, comparing two types is a matter of the types alone: `Ty.accepts` goes
through both of them together and keeps nothing. A comparison gives the answer that it gives, with
any bindings, and leaves the bindings as they are. The types are ordered in this way: an accepted
type is accepted by whatever accepts the type that accepts it, and a type accepts itself unless
there is a variadic type in it, which accepts what its inner type accepts and is accepted by hardly
any type.

## Main definitions

* `Ty.accepts`: whether a type accepts another one in its place; a generic accepts none

## Main results

* `Ty.accepts_refl`, `Ty.accepts_trans`: the types are ordered
* `Solve.compare_accepts`: a comparison without generics answers as `Ty.accepts` does
* `Solve.satisfies_order`: comparing types without generics is a state-free order
-/

namespace RuleScript

namespace Ty

mutual

/-- Whether the type accepts another one in its place. A generic accepts none, as this depends on
what it stands for. -/
def accepts : Ty → Ty → Bool
  | native name, k => decide (name = "any" ∨ k = native name)
  | array item, k =>
    match k with
    | array other => item.accepts other
    | _ => false
  | function params ret, k =>
    match k with
    | function others other => acceptsEach params others && acceptsOption ret other
    | _ => false
  | variadic inner, k => inner.accepts k
  | generic _ _, _ => false
  | union members, k => k.alternatives.all fun a => acceptsSome members a
termination_by structural t => t

/-- Whether one of the types accepts another type. -/
def acceptsSome : List Ty → Ty → Bool
  | [], _ => false
  | t :: ts, k => t.accepts k || acceptsSome ts k
termination_by structural ts => ts

/-- Whether the types accept as many other types, each its own. -/
def acceptsEach : List Ty → List Ty → Bool
  | [], [] => true
  | t :: ts, k :: ks => t.accepts k && acceptsEach ts ks
  | _, _ => false
termination_by structural ts => ts

/-- Whether a type that may be missing accepts another one that may be missing. -/
def acceptsOption : Option Ty → Option Ty → Bool
  | none, none => true
  | some t, some k => t.accepts k
  | _, _ => false
termination_by structural t? => t?

end

/-! ## The forms of the constraint -/

theorem accepts_native {name : String} {k : Ty} :
    (native name).accepts k = true ↔ name = "any" ∨ k = native name := by
  rw [accepts, decide_eq_true_iff]

theorem accepts_any (k : Ty) : any.accepts k = true := accepts_native.mpr (.inl rfl)

example : any.accepts (array number) = true := by cbv

theorem accepts_array {item k : Ty} :
    (array item).accepts k = true ↔ ∃ other, k = array other ∧ item.accepts other = true := by
  cases k <;> simp [accepts]

theorem acceptsSome_iff {members : List Ty} {k : Ty} :
    acceptsSome members k = true ↔ ∃ m ∈ members, m.accepts k = true := by
  induction members with
  | nil => simp [acceptsSome]
  | cons t ts ih => simp [acceptsSome, ih]

theorem acceptsSome_eq_any (members : List Ty) (k : Ty) :
    acceptsSome members k = members.any (·.accepts k) := by
  rw [Bool.eq_iff_iff, acceptsSome_iff, List.any_eq_true]

theorem acceptsEach_iff {params others : List Ty} :
    acceptsEach params others = true ↔
      List.Forall₂ (fun p k => p.accepts k = true) params others := by
  induction params generalizing others with
  | nil => cases others <;> simp [acceptsEach]
  | cons t ts ih => cases others <;> simp [acceptsEach, ih]

/-- Each list is as long as the other one, and the types accept each other along both. -/
theorem acceptsEach_eq (params others : List Ty) :
    acceptsEach params others =
      ((decide (params.length ≤ others.length) &&
          (params.zip others).all fun x => x.1.accepts x.2) &&
        (decide (others.length ≤ params.length) &&
          (others.zip params).all fun x => x.2.accepts x.1)) := by
  induction params generalizing others with
  | nil => cases others <;> simp [acceptsEach]
  | cons t ts ih =>
    cases others with
    | nil => simp [acceptsEach]
    | cons k ks =>
      rw [acceptsEach, ih]
      simp only [List.length_cons, Nat.succ_le_succ_iff, List.zip_cons_cons, List.all_cons]
      cases t.accepts k <;> simp

theorem acceptsOption_iff {ret other : Option Ty} :
    acceptsOption ret other = true ↔ Option.Rel (fun r k => r.accepts k = true) ret other := by
  cases ret <;> cases other <;> simp [acceptsOption]

theorem accepts_function {params : List Ty} {ret : Option Ty} {k : Ty} :
    (function params ret).accepts k = true ↔ ∃ others other, k = function others other ∧
      List.Forall₂ (fun p k => p.accepts k = true) params others ∧
      Option.Rel (fun r k => r.accepts k = true) ret other := by
  cases k with
  | function others other =>
    simp [accepts, acceptsEach_iff, acceptsOption_iff]
  | _ => simp [accepts]

theorem accepts_variadic {inner k : Ty} :
    (variadic inner).accepts k = true ↔ inner.accepts k = true := by
  rw [accepts]

/-- A union accepts a type if there is a place for every alternative that the type offers. -/
theorem accepts_union {members : List Ty} {k : Ty} :
    (union members).accepts k = true ↔
      ∀ a ∈ k.alternatives, ∃ m ∈ members, m.accepts a = true := by
  rw [accepts, List.all_eq_true]
  simp only [acceptsSome_iff]

/-! ## The order -/

/-- **A type accepts itself** if there is neither a generic nor a variadic type in it. -/
theorem accepts_refl (t : Ty) (hgeneric : t.hasGeneric = false)
    (hvariadic : t.hasVariadic = false) : t.accepts t = true := by
  induction t using induct_parts with
  | h t ih =>
    have hparts : ∀ u ∈ t.parts, u.accepts u = true := fun u hu =>
      ih u hu (hasGeneric_of_mem_parts hgeneric hu) (hasVariadic_of_mem_parts hvariadic hu)
    cases t with
    | native name => exact accepts_native.mpr (.inr rfl)
    | array item => exact accepts_array.mpr ⟨item, rfl, hparts item (List.mem_singleton_self _)⟩
    | function params ret =>
      refine accepts_function.mpr ⟨params, ret, rfl, ?_, ?_⟩
      · exact List.forall₂_same.mpr fun p hp => hparts p (List.mem_append_left _ hp)
      · cases ret with
        | none => exact .none
        | some r =>
          exact .some (hparts r (List.mem_append_right _ (List.mem_singleton_self _)))
    | variadic inner => exact absurd hvariadic (by simp [hasVariadic, nodes, isVariadic])
    | generic => cases hgeneric
    | union members => exact accepts_union.mpr fun m hm => ⟨m, hm, hparts m hm⟩

/-- A type that accepts another one accepts each alternative that it offers. -/
theorem accepts_alternative {t k a : Ty} (h : t.accepts k = true) (ha : a ∈ k.alternatives) :
    t.accepts a = true := by
  induction t using induct_parts generalizing k a with
  | h t ih =>
    cases k with
    | union others =>
      cases t with
      | native name =>
        rcases accepts_native.mp h with hany | hk
        · exact accepts_native.mpr (.inl hany)
        · cases hk
      | array | function | generic => cases h
      | variadic inner => exact ih inner (List.mem_singleton_self _) h ha
      | union members =>
        obtain ⟨m, hm, hma⟩ := accepts_union.mp h a ha
        exact accepts_union.mpr fun b hb => ⟨m, hm, ih m hm hma hb⟩
    | _ => exact List.mem_singleton.mp ha ▸ h

theorem forall₂_trans {R : Ty → Ty → Prop} {as bs cs : List Ty}
    (h : ∀ a ∈ as, ∀ b c, R a b → R b c → R a c) (hab : List.Forall₂ R as bs)
    (hbc : List.Forall₂ R bs cs) : List.Forall₂ R as cs := by
  induction hab generalizing cs with
  | nil => exact hbc
  | cons hab _ ih =>
    cases hbc with
    | cons hbc hrest =>
      obtain ⟨ha, has⟩ := List.forall_mem_cons.mp h
      exact .cons (ha _ _ hab hbc) (ih has hrest)

/-- **A type accepts what is accepted by a type that it accepts.** -/
theorem accepts_trans {a b c : Ty} (hab : a.accepts b = true) (hbc : b.accepts c = true) :
    a.accepts c = true := by
  induction a using induct_parts generalizing b c with
  | h a ih =>
    cases a with
    | native name =>
      rcases accepts_native.mp hab with hany | rfl
      · exact accepts_native.mpr (.inl hany)
      · exact hbc
    | array item =>
      obtain ⟨item₁, rfl, hitem₁⟩ := accepts_array.mp hab
      obtain ⟨item₂, rfl, hitem₂⟩ := accepts_array.mp hbc
      exact accepts_array.mpr ⟨item₂, rfl, ih item (List.mem_singleton_self _) hitem₁ hitem₂⟩
    | function params ret =>
      obtain ⟨params₁, ret₁, rfl, hparams₁, hret₁⟩ := accepts_function.mp hab
      obtain ⟨params₂, ret₂, rfl, hparams₂, hret₂⟩ := accepts_function.mp hbc
      refine accepts_function.mpr ⟨params₂, ret₂, rfl, ?_, ?_⟩
      · refine forall₂_trans (fun p hp => ?_) hparams₁ hparams₂
        exact fun _ _ => ih p (List.mem_append_left _ hp)
      · cases hret₁ with
        | none => exact hret₂
        | some hr₁ =>
          cases hret₂ with
          | some hr₂ =>
            exact .some (ih _ (List.mem_append_right _ (List.mem_singleton_self _)) hr₁ hr₂)
    | variadic inner => exact ih inner (List.mem_singleton_self _) hab hbc
    | generic => cases hab
    | union members =>
      refine accepts_union.mpr fun x hx => ?_
      cases b with
      | union others =>
        obtain ⟨o, ho, hox⟩ := accepts_union.mp hbc x hx
        obtain ⟨m, hm, hmo⟩ := accepts_union.mp hab o ho
        exact ⟨m, hm, ih m hm hmo hox⟩
      | _ =>
        obtain ⟨m, hm, hmb⟩ := accepts_union.mp hab _ (List.mem_singleton_self _)
        exact ⟨m, hm, ih m hm hmb (accepts_alternative hbc hx)⟩

end Ty

/-! ## Comparisons without generics -/

namespace Solve

variable {α β : Type} {check : Ty → Ty → Solve Bool} {s : Bindings}

theorem both_of_answer {x y : Solve Bool} {p q : Bool} (hx : x s = .ok p s) (hy : y s = .ok q s) :
    both x y s = .ok (p && q) s := by
  cases p with
  | true => exact bind_ok.mpr ⟨true, s, hx, hy⟩
  | false => exact bind_ok.mpr ⟨false, s, hx, rfl⟩

theorem either_of_answer {x y : Solve Bool} {p q : Bool} (hx : x s = .ok p s)
    (hy : y s = .ok q s) : either x y s = .ok (p || q) s := by
  cases p with
  | true => exact bind_ok.mpr ⟨true, s, hx, rfl⟩
  | false => exact bind_ok.mpr ⟨false, s, hx, hy⟩

theorem some?_of_answer {check : α → Solve Bool} {p : α → Bool} {as : List α}
    (h : ∀ a ∈ as, check a s = .ok (p a) s) : some? check as s = .ok (as.any p) s := by
  induction as with
  | nil => rfl
  | cons a as ih =>
    obtain ⟨ha, has⟩ := List.forall_mem_cons.mp h
    exact either_of_answer ha (ih has)

theorem all?_of_answer {check : α → Solve Bool} {p : α → Bool} {as : List α}
    (h : ∀ a ∈ as, check a s = .ok (p a) s) : all? check as s = .ok (as.all p) s := by
  induction as with
  | nil => rfl
  | cons a as ih =>
    obtain ⟨ha, has⟩ := List.forall_mem_cons.mp h
    exact both_of_answer ha (ih has)

theorem eachWith_of_answer {check : α → β → Solve Bool} {p : α → β → Bool} {as : List α}
    {bs : List β} (h : ∀ a ∈ as, ∀ b ∈ bs, check a b s = .ok (p a b) s) :
    eachWith check as bs s =
      .ok (decide (as.length ≤ bs.length) && (as.zip bs).all fun x => p x.1 x.2) s := by
  induction as generalizing bs with
  | nil => simp [eachWith, EStateM.pure, Pure.pure]
  | cons a as ih =>
    cases bs with
    | nil => simp [eachWith, EStateM.pure, Pure.pure]
    | cons b bs =>
      have hfirst := h a List.mem_cons_self b List.mem_cons_self
      have hrest := ih fun a' ha b' hb =>
        h a' (List.mem_cons_of_mem _ ha) b' (List.mem_cons_of_mem _ hb)
      rw [eachWith_cons, both_of_answer hfirst hrest]
      simp [Bool.and_left_comm]

/-- Walking two lists of parameters along each other. -/
theorem params_of_answer {cs ks : List Ty}
    (h : ∀ c ∈ cs, ∀ k, check c k s = .ok (c.accepts k) s) :
    params check cs ks s = .ok (Ty.acceptsEach cs ks) s := by
  have hforth : eachWith check cs ks s = _ := eachWith_of_answer fun c hc k _ => h c hc k
  have hback : eachWith (fun k c => check c k) ks cs s = _ :=
    eachWith_of_answer fun k _ c hc => h c hc k
  rw [params, both_of_answer hforth hback, Ty.acceptsEach_eq]

theorem returns_of_answer {c k : Option Ty}
    (h : ∀ t ∈ c.toList, ∀ k, check t k s = .ok (t.accepts k) s) :
    returns check c k s = .ok (Ty.acceptsOption c k) s := by
  cases c with
  | none => cases k <;> rfl
  | some t =>
    cases k with
    | none => rfl
    | some k => exact h t (List.mem_singleton_self _) k

/-- **A comparison whose constraint has no generics** gives an answer that does not depend on the
bindings, and leaves them as they are. -/
theorem compare_accepts {depth : Nat} {c : Ty} (hc : c.hasGeneric = false)
    (hdepth : c.size ≤ depth) (k : Ty) (s : Bindings) :
    compare depth c k s = .ok (c.accepts k) s := by
  -- The constraint gets smaller with each level, so the bound on the depth is never met.
  induction depth generalizing c k with
  | zero => exact absurd hdepth (Nat.not_le.mpr c.size_pos)
  | succ depth ih =>
    have hparts : ∀ p ∈ c.parts, ∀ k, compare depth p k s = .ok (p.accepts k) s := fun p hp =>
      ih (Ty.hasGeneric_of_mem_parts hc hp)
        (Nat.le_of_lt_succ (Nat.lt_of_lt_of_le (Ty.size_lt_of_mem_parts hp) hdepth))
    rw [compare]
    cases c with
    | native name =>
      rw [step_native, Ty.accepts]
      rfl
    | array item =>
      rw [step_array]
      cases k with
      | array k => exact hparts item (List.mem_singleton_self _) k
      | _ => rfl
    | function cs c =>
      cases k with
      | function ks k =>
        rw [step_function]
        exact both_of_answer
          (params_of_answer fun p hp => hparts p (List.mem_append_left _ hp))
          (returns_of_answer fun t ht => hparts t (List.mem_append_right _ ht))
      | _ =>
        rw [step_function_other (by exact nofun)]
        rfl
    | variadic inner =>
      rw [step_variadic]
      exact hparts inner (List.mem_singleton_self _) k
    | generic => cases hc
    | union members =>
      rw [step_union]
      refine all?_of_answer fun a _ => ?_
      rw [Ty.acceptsSome_eq_any]
      exact some?_of_answer fun m hm => hparts m hm a

theorem satisfies_accepts {c : Ty} (hc : c.hasGeneric = false) (k : Ty) (s : Bindings) :
    satisfies c k s = .ok (c.accepts k) s := by
  have hdepth := lt_depthBound s c k
  exact compare_accepts hc (by omega) k s

/-- **Comparing types without generics is a state-free order.** Whatever the bindings are, the
comparison ends without an error, leaves the bindings as they are and gives the same answer; types
that satisfy each other in a row satisfy the first one; and a type in which nothing is variadic
satisfies itself. -/
theorem satisfies_order {a b c : Ty} (ha : a.hasGeneric = false) (hb : b.hasGeneric = false) :
    (∃ answer, ∀ s, satisfies a b s = .ok answer s) ∧
    (∀ s t, satisfies a b s = .ok true s → satisfies b c t = .ok true t →
      ∀ u, satisfies a c u = .ok true u) ∧
    (a.hasVariadic = false → ∀ s, satisfies a a s = .ok true s) := by
  refine ⟨⟨a.accepts b, satisfies_accepts ha b⟩, fun s t hab hbc u => ?_, fun hvariadic s => ?_⟩
  · rw [satisfies_accepts ha] at hab
    rw [satisfies_accepts hb] at hbc
    rw [satisfies_accepts ha, Ty.accepts_trans (EStateM.Result.ok.inj hab).1
      (EStateM.Result.ok.inj hbc).1]
  · rw [satisfies_accepts ha, Ty.accepts_refl a ha hvariadic]

/-- A union of a list and a function type, a union of the same forms whose function takes any
number of arguments, and a function type that only the function of the second union accepts. -/
theorem satisfies_order_unions :
    let a : Ty := .union [.array (.union [.number, .string]), .function [.any] (some .any)]
    let b : Ty := .union [.function [.variadic .number] (some (.union [.number])),
      .array (.union [.number])]
    let c : Ty := .function [.number] (some (.union [.number]))
    (∃ answer, ∀ s, satisfies a b s = .ok answer s) ∧
    (∀ u, satisfies a c u = .ok true u) ∧ ∀ s, satisfies a a s = .ok true s := by
  intro a b c
  obtain ⟨hanswer, htrans, hrefl⟩ := satisfies_order (a := a) (b := b) (c := c) rfl rfl
  have hab : satisfies a b .empty = .ok true .empty := by with_unfolding_all rfl
  have hbc : satisfies b c .empty = .ok true .empty := by with_unfolding_all rfl
  exact ⟨hanswer, htrans .empty .empty hab hbc, hrefl (by decide)⟩

end Solve

end RuleScript
