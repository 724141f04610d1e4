import RuleScript.Lowering.Typing
import RuleScript.Proofs.Typing.Ending
import RuleScript.Proofs.Typing.Order
import RuleScript.Proofs.Typing.Rules

/-!
# Types whose generics are replaced

Once generics are bound, a type that mentions them can be read with each of them replaced by its
binding. If a candidate without generics has been compared with the type, and the bindings have been
kept since, then the instance of the type accepts the candidate: wherever the comparison has taken
the candidate, or a part of it, as a binding, it is now compared with itself, and a type accepts
itself if nothing in it is variadic.

A type that accepts a candidate in this way is satisfied by it from any bindings without generics.
There may still be generics in the type, in members of unions that come to nothing; they may be
bound on the way, but no binding is needed where the candidate finds its place.

## Main definitions

* `Ty.Concrete`: neither a generic nor a variadic type occurs in a type
* `Ty.instantiate`: a type with its generics replaced by their bindings
* `Solve.Succeeds`: a comparison succeeds from all bindings with an invariant

## Main results

* `Solve.accepts_of_compare`: the instance of a constraint accepts what satisfies the constraint
* `Solve.compare_succeeds`: a type is satisfied by what it accepts
* `Ty.fits_of_accepts`: the same for values that have to fit
-/

namespace RuleScript

namespace Ty

/-! ## Concrete types -/

/-- There is neither a generic nor a variadic type in the type. -/
structure Concrete (t : Ty) : Prop where
  hasGeneric : t.hasGeneric = false
  hasVariadic : t.hasVariadic = false

instance : DecidablePred Concrete := fun t =>
  decidable_of_iff (t.hasGeneric = false ∧ t.hasVariadic = false)
    ⟨fun h => ⟨h.1, h.2⟩, fun h => ⟨h.hasGeneric, h.hasVariadic⟩⟩

theorem Concrete.part {t u : Ty} (h : t.Concrete) (hu : u ∈ t.parts) : u.Concrete :=
  ⟨hasGeneric_of_mem_parts h.hasGeneric hu, hasVariadic_of_mem_parts h.hasVariadic hu⟩

theorem Concrete.alternative {t a : Ty} (h : t.Concrete) (ha : a ∈ t.alternatives) :
    a.Concrete := by
  rcases mem_alternatives ha with rfl | ha
  · exact h
  · exact h.part ha

theorem passedDown_concrete : PassedDown Concrete := .of_parts fun _ _ h hu => h.part hu

/-! ## Instances -/

mutual

/-- The type with each generic that is bound replaced by its binding. A generic that is free stays,
with its bound treated in the same way. -/
def instantiate (s : Bindings) : Ty → Ty
  | native name => native name
  | array item => array (item.instantiate s)
  | function params ret => function (instantiateList s params) (instantiateOption s ret)
  | variadic inner => variadic (inner.instantiate s)
  | generic name bound => (s.get? name).getD (generic name (instantiateOption s bound))
  | union members => union (instantiateList s members)

/-- The types with their generics replaced. -/
def instantiateList (s : Bindings) : List Ty → List Ty
  | [] => []
  | t :: ts => t.instantiate s :: instantiateList s ts

/-- A type that may be missing with its generics replaced. -/
def instantiateOption (s : Bindings) : Option Ty → Option Ty
  | none => none
  | some t => some (t.instantiate s)

end

variable {s : Bindings}

theorem instantiateList_eq (s : Bindings) (ts : List Ty) :
    instantiateList s ts = ts.map (instantiate s) := by
  induction ts with
  | nil => rfl
  | cons t ts ih => rw [instantiateList, ih, List.map_cons]

theorem instantiateOption_eq (s : Bindings) (t? : Option Ty) :
    instantiateOption s t? = t?.map (instantiate s) := by
  cases t? <;> rfl

theorem instantiate_bound {name : String} {bound : Option Ty} {ty : Ty}
    (h : s.get? name = some ty) : (generic name bound).instantiate s = ty := by
  rw [instantiate, h, Option.getD_some]

theorem instantiateList_of_forall {ts : List Ty} (h : ∀ t ∈ ts, t.instantiate s = t) :
    instantiateList s ts = ts := by
  rw [instantiateList_eq, List.map_congr_left h, List.map_id']

/-- There is nothing to replace in a type without generics. -/
theorem instantiate_of_hasGeneric {t : Ty} (h : t.hasGeneric = false) : t.instantiate s = t := by
  induction t using induct_parts with
  | h t ih =>
    have hparts : ∀ u ∈ t.parts, u.instantiate s = u := fun u hu =>
      ih u hu (hasGeneric_of_mem_parts h hu)
    cases t with
    | native => rfl
    | array item => rw [instantiate, hparts item (List.mem_singleton_self _)]
    | function params ret =>
      have hparams := instantiateList_of_forall fun p hp => hparts p (List.mem_append_left _ hp)
      have hret : instantiateOption s ret = ret := by
        cases ret with
        | none => rfl
        | some r =>
          exact congrArg some (hparts r (List.mem_append_right _ (List.mem_singleton_self _)))
      rw [instantiate, hparams, hret]
    | variadic inner => rw [instantiate, hparts inner (List.mem_singleton_self _)]
    | generic => cases h
    | union members =>
      rw [instantiate]
      exact congrArg union (instantiateList_of_forall hparts)

end Ty

/-! ## What an instance accepts -/

namespace Solve

/-- Lists whose elements are related in pairs, with the elements at hand. -/
theorem forall₂_mem {α β : Type} {R : α → β → Prop} {as : List α} {bs : List β}
    (h : List.Forall₂ R as bs) : List.Forall₂ (fun a b => a ∈ as ∧ b ∈ bs ∧ R a b) as bs := by
  have hright : List.Forall₂ (fun a b => b ∈ bs ∧ R a b) as bs :=
    ((List.forall₂_and_left bs as).mpr ⟨fun _ hb => hb, h.flip⟩).flip
  exact (List.forall₂_and_left as bs).mpr ⟨fun _ ha => ha, hright⟩

/-- **Acceptance by an instance follows the rules of comparison**, with the generics replaced as
they are bound. -/
theorem rules_accepts {f : Bindings} (hf : f.All Ty.Concrete) :
    Rules f fun c k => k.Concrete → (c.instantiate f).accepts k = true where
  any k _ := Ty.accepts_any k
  native _ _ := Ty.accepts_native.mpr (.inr rfl)
  array h hk := Ty.accepts_array.mpr ⟨_, rfl, h (hk.part (List.mem_singleton_self _))⟩
  function {cs ks c k} hparams hret hk := by
    rw [Ty.instantiate, Ty.instantiateList_eq, Ty.instantiateOption_eq]
    refine Ty.accepts_function.mpr ⟨ks, k, rfl, ?_, ?_⟩
    · refine List.forall₂_map_left_iff.mpr ((forall₂_mem hparams).imp ?_)
      rintro _ k ⟨-, hmem, h⟩
      exact h (hk.part (List.mem_append_left _ hmem))
    · cases hret with
      | none => exact .none
      | some h =>
        exact .some (h (hk.part (List.mem_append_right _ (List.mem_singleton_self _))))
  variadic h hk := Ty.accepts_variadic.mpr (h hk)
  same _ _ _ hk := by cases hk.hasGeneric
  bound {_ _ ty _} hget h hk := by
    rw [Ty.instantiate_bound hget]
    rw [Ty.instantiate_of_hasGeneric (hf _ ty hget).hasGeneric] at h
    exact h hk
  taken hget hk := by
    rw [Ty.instantiate_bound hget]
    exact Ty.accepts_refl _ hk.hasGeneric hk.hasVariadic
  union {members k} h hk := by
    rw [Ty.instantiate, Ty.instantiateList_eq]
    refine Ty.accepts_union.mpr fun a ha => ?_
    obtain ⟨c, hc, haccepts⟩ := h a ha
    exact ⟨_, List.mem_map_of_mem hc, haccepts (hk.alternative ha)⟩

/-- A candidate that a comparison has let through is accepted by the instance of the constraint, as
long as the bindings have been kept. -/
theorem accepts_of_compare {depth : Nat} {c k : Ty} {s s' f : Bindings}
    (h : compare depth c k s = .ok true s') (hf : f.All Ty.Concrete) (hgrows : s'.Grows f)
    (hk : k.Concrete) : (c.instantiate f).accepts k = true :=
  (compare_shows (rules_accepts hf) depth c k).holds h hgrows hk

/-! ## Comparisons that succeed -/

variable {α β : Type} {I : Bindings → Prop}

/-- From all bindings with the invariant the comparison succeeds, and ends with such bindings. -/
def Succeeds (I : Bindings → Prop) (x : Solve Bool) : Prop :=
  ∀ s, I s → ∃ t, x s = .ok true t ∧ I t

namespace Succeeds

variable {x y : Solve Bool}

theorem pure : Succeeds I (Pure.pure true) := fun s hs => ⟨s, rfl, hs⟩

theorem both (hx : Succeeds I x) (hy : Succeeds I y) : Succeeds I (both x y) := by
  intro s hs
  obtain ⟨t, hxs, ht⟩ := hx s hs
  obtain ⟨u, hyt, hu⟩ := hy t ht
  exact ⟨u, both_true.mpr ⟨t, hxs, hyt⟩, hu⟩

theorem either_left (hx : Succeeds I x) (y : Solve Bool) : Succeeds I (either x y) := by
  intro s hs
  obtain ⟨t, hxs, ht⟩ := hx s hs
  exact ⟨t, either_true.mpr (.inl hxs), ht⟩

/-- Whatever the first comparison comes to, the second one would succeed after it. -/
theorem either_right (hy : Succeeds I y) (hx : Maintains I (fun _ _ => False) x) :
    Succeeds I (either x y) := by
  intro s hs
  cases hrun : x s with
  | error e t => exact (hx.error hs hrun).1.elim
  | ok b t =>
    obtain ⟨ht, -⟩ := hx.ok hs hrun
    cases b with
    | true => exact ⟨t, either_true.mpr (.inl hrun), ht⟩
    | false =>
      obtain ⟨u, hyt, hu⟩ := hy t ht
      exact ⟨u, either_true.mpr (.inr ⟨t, hrun, hyt⟩), hu⟩

theorem some? {check : α → Solve Bool} {as : List α}
    (hends : ∀ a ∈ as, Maintains I (fun _ _ => False) (check a))
    (h : ∃ a ∈ as, Succeeds I (check a)) : Succeeds I (some? check as) := by
  obtain ⟨b, hb, hsucceeds⟩ := h
  induction as with
  | nil => cases hb
  | cons a as ih =>
    obtain ⟨hfirst, hrest⟩ := List.forall_mem_cons.mp hends
    rcases List.mem_cons.mp hb with rfl | hb
    · exact hsucceeds.either_left _
    · exact (ih hrest hb).either_right hfirst

theorem all? {check : α → Solve Bool} {as : List α} (h : ∀ a ∈ as, Succeeds I (check a)) :
    Succeeds I (all? check as) := by
  induction as with
  | nil => exact pure
  | cons a as ih =>
    obtain ⟨ha, has⟩ := List.forall_mem_cons.mp h
    exact ha.both (ih has)

theorem eachWith {check : α → β → Solve Bool} {as : List α} {bs : List β}
    (h : List.Forall₂ (fun a b => Succeeds I (check a b)) as bs) :
    Succeeds I (eachWith check as bs) := by
  induction h with
  | nil => exact pure
  | cons hab _ ih => exact hab.both ih

end Succeeds

variable {m : Nat}

/-- **A type is satisfied by what it accepts**, from any small bindings. -/
theorem compare_succeeds {depth : Nat} {c k : Ty} (hk : k.Small m) (hdepth : c.size + m ≤ depth)
    (h : c.accepts k = true) : Succeeds (Bindings.All (Ty.Small m)) (compare depth c k) := by
  induction depth generalizing c k with
  | zero => exact absurd (Nat.le_trans (Nat.le_add_right _ _) hdepth) (Nat.not_le.mpr c.size_pos)
  | succ depth ih =>
    have hinside : ∀ {c' k'}, Inside c k c' k' → c'.accepts k' = true →
        Succeeds (Bindings.All (Ty.Small m)) (compare depth c' k') := by
      intro c' k' hpair haccepts
      have hlt := Ty.size_lt_of_mem_parts hpair.constraint
      exact ih (hpair.small hk) (by omega) haccepts
    rw [compare]
    cases c with
    | native name =>
      rw [step_native, decide_eq_true (Ty.accepts_native.mp h)]
      exact .pure
    | array item =>
      obtain ⟨other, rfl, hitem⟩ := Ty.accepts_array.mp h
      exact hinside .item hitem
    | function params ret =>
      obtain ⟨others, other, rfl, hparams, hret⟩ := Ty.accepts_function.mp h
      have hforth : List.Forall₂ (fun p k =>
          Succeeds (Bindings.All (Ty.Small m)) (compare depth p k)) params others := by
        refine (forall₂_mem hparams).imp ?_
        rintro p k ⟨hp, hk, haccepts⟩
        exact hinside (.param hp hk) haccepts
      rw [step_function]
      refine ((Succeeds.eachWith hforth).both (.eachWith hforth.flip)).both ?_
      cases hret with
      | none => exact .pure
      | some haccepts => exact hinside .ret haccepts
    | variadic inner =>
      rw [step_variadic]
      exact hinside .inner (Ty.accepts_variadic.mp h)
    | generic => cases h
    | union members =>
      rw [step_union]
      refine .all? fun a ha => .some? (fun c hc => ?_) ?_
      -- A member that comes to nothing may bind generics, but the comparison with it ends.
      · have hpair := Inside.member hc ha
        have hlt := Ty.size_lt_of_mem_parts hpair.constraint
        exact compare_ends (hpair.small hk) (by omega)
      · obtain ⟨c, hc, haccepts⟩ := Ty.accepts_union.mp h a ha
        exact ⟨c, hc, hinside (.member hc ha) haccepts⟩

end Solve

/-- A value may stand where a type is wanted that accepts its type. -/
theorem Ty.fits_of_accepts {c k : Ty} (hk : k.hasGeneric = false) (h : c.accepts k = true)
    (span : Span) : c.fits k span = .ok true := by
  have hdepth := Solve.lt_depthBound .empty c k
  have hsucceeds : Solve.Succeeds (Bindings.All (Small k.size))
      (Solve.compare (Solve.depthBound .empty c k) c k) :=
    Solve.compare_succeeds ⟨hk, Nat.le_refl _⟩ (by omega) h
  obtain ⟨t, hrun, -⟩ := hsucceeds .empty Bindings.all_empty
  rw [fits, fitsWith, EStateM.run, Solve.satisfies_eq, hrun]
  rfl

end RuleScript
