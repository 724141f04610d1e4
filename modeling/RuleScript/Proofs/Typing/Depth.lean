import Mathlib.Data.Finset.Prod
import RuleScript.Proofs.Typing.Solving

/-!
# The depth of a comparison

A comparison that goes down far enough meets a pair of types for the second time. If nothing has
been bound in between, then it is the same comparison again, and it never ends. All types that it
meets are inside the types and the bindings at hand, so there are only so many pairs; and each time
that a generic is bound, fewer are left that are free. Hence a comparison that ends at any depth
ends within the bound on the depth: it is given up only if it never ends.

## Main definitions

* `Bindings.openIn`: how many generics among some types are free
* `Solve.levelsLeft`: how far down comparisons among some types have to go

## Main results

* `Solve.satisfies_eq_compare`: the bound on the depth suffices
* `Solve.ends_satisfies_iff`: a comparison is given up if and only if it never ends
-/

namespace RuleScript

/-! ## Free generics -/

namespace Bindings

variable {U : Finset Ty} {s t : Bindings}

/-- Whether the type is a generic that is free. -/
def isOpen (s : Bindings) : Ty → Bool
  | .generic name _ => (s.get? name).isNone
  | _ => false

/-- How many of the types are generics that are free. -/
def openIn (s : Bindings) (U : Finset Ty) : Nat := (U.filter fun u => s.isOpen u = true).card

theorem openIn_le (s : Bindings) (U : Finset Ty) : s.openIn U ≤ U.card := Finset.card_filter_le _ _

theorem isOpen_of_grows (h : s.Grows t) {u : Ty} (hu : t.isOpen u = true) : s.isOpen u = true := by
  cases u with
  | generic name bound =>
    simp only [isOpen, Option.isNone_iff_eq_none] at hu ⊢
    exact h.get?_eq_none hu
  | _ => cases hu

/-- Binding a generic leaves fewer that are free. -/
theorem openIn_lt (h : s.Grows t) {name : String} {bound : Option Ty}
    (hmem : .generic name bound ∈ U) (hfree : s.get? name = none) {ty : Ty}
    (hbound : t.get? name = some ty) : t.openIn U < s.openIn U := by
  refine Finset.card_lt_card ((Finset.ssubset_iff_of_subset fun u hu => ?_).mpr
    ⟨.generic name bound, Finset.mem_filter.mpr ⟨hmem, ?_⟩, fun hnot => ?_⟩)
  · obtain ⟨hu, hopen⟩ := Finset.mem_filter.mp hu
    exact Finset.mem_filter.mpr ⟨hu, isOpen_of_grows h hopen⟩
  · rw [isOpen, hfree]
    rfl
  · have hopen := (Finset.mem_filter.mp hnot).2
    rw [isOpen, hbound] at hopen
    cases hopen

/-- All that was bound is kept, all bindings are among the types, and if anything has been bound
then fewer of their generics are free. -/
structure Within (U : Finset Ty) (s t : Bindings) : Prop where
  grows : s.Grows t
  mem : t.All (· ∈ U)
  fewer : t = s ∨ t.openIn U < s.openIn U

theorem Within.refl (h : s.All (· ∈ U)) : s.Within U s := ⟨.refl s, h, .inl rfl⟩

/-- A generic that is free may take one of the types. -/
theorem Within.insert (h : s.Within U t) {name : String} (hname : s.get? name = none)
    {bound : Option Ty} (hmem : .generic name bound ∈ U) {k : Ty} (hk : k ∈ U) :
    s.Within U (t.insert name k) :=
  have hgrows := h.grows.insert hname k
  ⟨hgrows, h.mem.insert hk, .inr (openIn_lt hgrows hmem hname (Table.get?_insert_self t name k))⟩

end Bindings

namespace Solve

variable {depth : Nat} {c k : Ty} {s : Bindings}

/-! ## Types that are met -/

variable {U : Finset Ty} {check check' : Ty → Ty → Solve Bool}

/-- One level of a comparison among the types. -/
theorem step_within (hU : ∀ t ∈ U, ∀ u ∈ t.parts, u ∈ U)
    (h : ∀ c ∈ U, ∀ k ∈ U, Tracks (s.Within U) (fun _ _ => True) (check c k) (check' c k))
    (hc : c ∈ U) (hk : k ∈ U) :
    Tracks (s.Within U) (fun _ _ => True) (step check c k) (step check' c k) := by
  refine step_tracks (fun {c' k'} hpair => h c' (hU c hc c' hpair.constraint) k' ?_) ?_
  · rcases hpair.candidate with rfl | hpart
    · exact hk
    · exact hU k hk k' hpart
  · rintro name bound rfl
    have hparts : ∀ b, bound = some b → b ∈ U := fun b hb =>
      hU _ hc b (Option.mem_toList.mpr hb)
    rcases k.generic_or_ne with ⟨other, otherBound, rfl⟩ | hne
    · refine step_generic_generic_tracks (fun t b ty ht hty hb => ?_) fun _ _ => trivial
      refine h b ?_ ty (ht.mem name ty hty)
      rcases hb with hb | hb
      · exact hparts b hb
      · exact hU _ hk b (Option.mem_toList.mpr hb)
    · refine step_generic_tracks hne (fun t ty ht hty => h ty (ht.mem name ty hty) k hk)
        (fun b hb => h b (hparts b hb) k hk) ?_
      exact fun t u ht hfree _ hu => hu.insert (ht.grows.get?_eq_none hfree) hc hk

theorem compare_within (hU : ∀ t ∈ U, ∀ u ∈ t.parts, u ∈ U) (depth : Nat) (hc : c ∈ U)
    (hk : k ∈ U) : Maintains (s.Within U) (fun _ _ => True) (compare depth c k) := by
  induction depth generalizing c k with
  | zero => exact fun t _ => ⟨trivial, fun _ => rfl⟩
  | succ depth ih => exact step_within hU (fun c hc k hk => ih hc hk) hc hk

/-! ## The bound on the depth -/

/-- How far down comparisons among `m` pairs of types have to go, if `free` generics are free and
`met` pairs have been met since the last of them was bound. -/
def levelsLeft (m free met : Nat) : Nat := free * (m + 1) + (m - met) + 1

theorem levelsLeft_met {m free met bound : Nat} (hmet : met + 1 ≤ m)
    (h : levelsLeft m free met ≤ bound + 1) : levelsLeft m free (met + 1) ≤ bound := by
  rw [levelsLeft] at h ⊢
  omega

theorem levelsLeft_bound {m free fewer met bound : Nat} (hfewer : fewer < free)
    (h : levelsLeft m free met ≤ bound + 1) : levelsLeft m fewer 0 ≤ bound := by
  have hmul : (fewer + 1) * (m + 1) ≤ free * (m + 1) := Nat.mul_le_mul_right _ hfewer
  rw [Nat.succ_mul] at hmul
  rw [levelsLeft] at h ⊢
  omega

/-- **A comparison that ends at any depth ends soon.** Pairs of types that do not end within this
depth, from the same bindings, are not met any more. -/
theorem compare_eq_of_ends (hU : ∀ t ∈ U, ∀ u ∈ t.parts, u ∈ U) {bound free : Nat}
    {met : Finset (Ty × Ty)} (hc : c ∈ U) (hk : k ∈ U) (hs : s.All (· ∈ U))
    (hfree : s.openIn U ≤ free) (hsub : met ⊆ U ×ˢ U)
    (hmet : ∀ p ∈ met, ¬ Ends (compare depth p.1 p.2) s)
    (hbound : levelsLeft (U ×ˢ U).card free met.card ≤ bound)
    (hends : Ends (compare depth c k) s) : compare bound c k s = compare depth c k s := by
  induction depth generalizing c k s bound free met with
  | zero => exact absurd rfl (hends s)
  | succ depth ih =>
    have hmet' : ∀ p ∈ met, ¬ Ends (compare depth p.1 p.2) s := fun p hp h =>
      hmet p hp (ends_deeper 1 h)
    by_cases hless : Ends (compare depth c k) s
    · rw [compare_deeper 1 hless]
      exact ih hc hk hs hfree hsub hmet' hbound hless
    -- The pair itself is met now, and was not met before.
    have hnew : (c, k) ∉ met := fun hmem => hmet _ hmem hends
    have hsub' : insert (c, k) met ⊆ U ×ˢ U :=
      Finset.insert_subset (Finset.mk_mem_product hc hk) hsub
    have hcard : (insert (c, k) met).card = met.card + 1 := Finset.card_insert_of_notMem hnew
    have hle : met.card + 1 ≤ (U ×ˢ U).card := hcard ▸ Finset.card_le_card hsub'
    obtain ⟨bound, rfl⟩ : ∃ less, bound = less + 1 :=
      Nat.exists_eq_succ_of_ne_zero (by rw [levelsLeft] at hbound; omega)
    have hinside : ∀ c ∈ U, ∀ k ∈ U,
        Tracks (s.Within U) (fun _ _ => True) (compare depth c k) (compare bound c k) := by
      intro c' hc' k' hk'
      refine .of_ends (compare_within hU depth hc' hk') fun t ht hends' => ?_
      rcases ht.fewer with rfl | hlt
      · refine ih hc' hk' ht.mem hfree hsub' ?_ ?_ hends'
        · exact (Finset.forall_mem_insert _ _ _).mpr ⟨hless, hmet'⟩
        · rw [hcard]
          exact levelsLeft_met hle hbound
      · refine ih hc' hk' ht.mem (Nat.le_refl _) (Finset.empty_subset _) (by simp) ?_ hends'
        exact levelsLeft_bound (Nat.lt_of_lt_of_le hlt hfree) hbound
    exact (step_within hU hinside hc hk).eq_of_ends (.refl hs) hends

end Solve

/-! ## The types at hand -/

namespace Solve

variable {depth : Nat} {c k : Ty} {s : Bindings}

/-- All types inside the constraint, the candidate and the bindings. -/
def atHand (c k : Ty) (s : Bindings) : List Ty :=
  c.nodes ++ k.nodes ++ s.entries.flatMap fun entry => entry.2.nodes

theorem length_atHand (c k : Ty) (s : Bindings) :
    (atHand c k s).length = c.size + k.size + bindingsSize s := by
  have hentries : ∀ entries : List (String × Ty),
      (entries.flatMap fun entry => entry.2.nodes).length =
        entries.foldr (fun entry n => entry.2.size + n) 0 := by
    intro entries
    induction entries with
    | nil => rfl
    | cons entry entries ih =>
      rw [List.flatMap_cons, List.length_append, ih, Ty.length_nodes, List.foldr_cons]
  rw [atHand, List.length_append, List.length_append, Ty.length_nodes, Ty.length_nodes, hentries,
    bindingsSize]

/-- What is inside a type at hand is at hand. -/
theorem mem_atHand_of_mem_nodes {t u : Ty} (ht : t ∈ atHand c k s) (hu : u ∈ t.nodes) :
    u ∈ atHand c k s := by
  simp only [atHand, List.mem_append, List.mem_flatMap] at ht ⊢
  rcases ht with (ht | ht) | ⟨entry, hentry, ht⟩
  · exact .inl (.inl (Ty.mem_nodes_trans hu ht))
  · exact .inl (.inr (Ty.mem_nodes_trans hu ht))
  · exact .inr ⟨entry, hentry, Ty.mem_nodes_trans hu ht⟩

theorem binding_mem_atHand {name : String} {ty : Ty} (h : s.get? name = some ty) :
    ty ∈ atHand c k s := by
  obtain ⟨before, behind, hentries, -⟩ := List.lookup_eq_some_iff.mp h
  refine List.mem_append_right _ (List.mem_flatMap.mpr ⟨(name, ty), ?_, ty.self_mem_nodes⟩)
  rw [hentries]
  exact List.mem_append_right _ List.mem_cons_self

theorem levelsLeft_le_depthBound {U : Finset Ty}
    (h : U.card ≤ c.size + k.size + bindingsSize s) :
    levelsLeft (U ×ˢ U).card U.card 0 ≤ depthBound s c k := by
  rw [levelsLeft, depthBound, Finset.card_product]
  generalize c.size + k.size + bindingsSize s = n at h ⊢
  have hsquare : n * n + 1 ≤ (n + 1) * (n + 1) := by
    rw [Nat.succ_mul, Nat.mul_succ]
    omega
  calc U.card * (U.card * U.card + 1) + (U.card * U.card - 0) + 1
      = (U.card + 1) * (U.card * U.card + 1) := by rw [Nat.sub_zero, Nat.succ_mul, Nat.add_assoc]
    _ ≤ (n + 1) * (n * n + 1) :=
        Nat.mul_le_mul (Nat.succ_le_succ h) (Nat.succ_le_succ (Nat.mul_le_mul h h))
    _ ≤ (n + 1) * ((n + 1) * (n + 1)) := Nat.mul_le_mul_left _ hsquare
    _ = (n + 1) * (n + 1) * (n + 1) := (Nat.mul_assoc _ _ _).symm

/-- **The bound on the depth suffices.** A comparison that ends at some depth ends within the bound,
and comes to the same. -/
theorem satisfies_eq_compare (h : Ends (compare depth c k) s) :
    satisfies c k s = compare depth c k s := by
  have hmem : ∀ {t}, t ∈ (atHand c k s).toFinset ↔ t ∈ atHand c k s := List.mem_toFinset
  have hcard : (atHand c k s).toFinset.card ≤ c.size + k.size + bindingsSize s :=
    length_atHand c k s ▸ List.toFinset_card_le _
  refine compare_eq_of_ends (U := (atHand c k s).toFinset) (fun t ht u hu => ?_) ?_ ?_ ?_
    (Bindings.openIn_le _ _) (Finset.empty_subset _) (by simp) (levelsLeft_le_depthBound hcard) h
  · exact hmem.mpr (mem_atHand_of_mem_nodes (hmem.mp ht) (Ty.mem_nodes_of_mem_parts hu))
  · exact hmem.mpr (List.mem_append_left _ (List.mem_append_left _ c.self_mem_nodes))
  · exact hmem.mpr (List.mem_append_left _ (List.mem_append_right _ k.self_mem_nodes))
  · exact fun name ty hty => hmem.mpr (binding_mem_atHand hty)

/-- **A comparison is given up if and only if it never ends.** -/
theorem ends_satisfies_iff : Ends (satisfies c k) s ↔ ∃ depth, Ends (compare depth c k) s := by
  constructor
  · exact fun h => ⟨depthBound s c k, h⟩
  · rintro ⟨depth, h⟩ t
    rw [satisfies_eq_compare h]
    exact h t

/-- A binding that mentions its own generic leads back to itself. -/
example :
    let s : Bindings := Table.empty.insert "T" (.generic "T" none)
    satisfies (.generic "T" none) .number s matches .error .endless _ := by
  decide +kernel

end Solve

end RuleScript
