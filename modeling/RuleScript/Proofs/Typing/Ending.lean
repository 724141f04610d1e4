import RuleScript.Proofs.Typing.Solving

/-!
# Comparisons that end

A generic that is bound leads to its binding, which is no part of the constraint, so a comparison
need not end: a binding may mention its own generic. It does end if there are no generics in the
bindings and in the candidate. From a binding the comparison then goes on without generics, so it
jumps once at most on its way down, and it is never asked what a generic on the side of the
candidate stands for. All that it binds are types inside the candidate, so there are still no
generics in the bindings afterwards, and the next comparison ends in the same way.

## Main definitions

* `Bindings.Extends`: what is bound in addition are types inside a candidate

## Main results

* `Solve.compare_ends`: with no generics but in the constraint, a comparison ends
* `Solve.compare_extends`: what is bound in addition are types inside the candidate
* `Solve.satisfies_ends`: both, for each of any number of comparisons one after the other
-/

namespace RuleScript

/-- All that was bound stands for the same type, and all else that is bound stands for a type inside
the candidate. -/
def Bindings.Extends (s : Bindings) (k : Ty) (t : Bindings) : Prop :=
  ∀ name, t.get? name = s.get? name ∨
    s.get? name = none ∧ ∃ ty ∈ k.nodes, t.get? name = some ty

namespace Bindings

theorem Extends.refl (s : Bindings) (k : Ty) : s.Extends k s := fun _ => .inl rfl

/-- A name that is free may be bound to a type inside the candidate. -/
theorem Extends.insert {s t : Bindings} {k : Ty} (h : s.Extends k t) {name : String}
    (hname : s.get? name = none) {ty : Ty} (hty : ty ∈ k.nodes) :
    s.Extends k (t.insert name ty) := by
  intro other
  by_cases hother : other = name
  · subst hother
    exact .inr ⟨hname, ty, hty, Table.get?_insert_self t other ty⟩
  · rw [Table.get?_insert_of_ne t ty hother]
    exact h other

/-- What is free now was free before. -/
theorem Extends.get?_eq_none {s t : Bindings} {k : Ty} (h : s.Extends k t) {name : String}
    (hname : t.get? name = none) : s.get? name = none := by
  rcases h name with heq | ⟨hfree, -⟩
  · exact heq.symm.trans hname
  · exact hfree

/-- The bindings stand for types without generics still. -/
theorem Extends.all_hasGeneric {s t : Bindings} {k : Ty} (h : s.Extends k t)
    (hs : s.All fun ty => ty.hasGeneric = false) (hk : k.hasGeneric = false) :
    t.All fun ty => ty.hasGeneric = false := by
  intro name ty hty
  rcases h name with heq | ⟨-, u, hu, heq⟩
  · exact hs name ty (heq.symm.trans hty)
  · obtain rfl := Option.some.inj (heq.symm.trans hty)
    exact Ty.throughout_hasGeneric hk _ hu

/-- No binding is larger than all bindings together. -/
theorem size_le_bindingsSize {s : Bindings} {name : String} {ty : Ty}
    (h : s.get? name = some ty) : ty.size ≤ Solve.bindingsSize s := by
  obtain ⟨entries⟩ := s
  simp only [Table.get?] at h
  simp only [Solve.bindingsSize]
  induction entries with
  | nil => cases h
  | cons entry entries ih =>
    rw [List.lookup_cons] at h
    rw [List.foldr_cons]
    split at h
    · obtain rfl := Option.some.inj h
      exact Nat.le_add_right _ _
    · exact Nat.le_trans (ih h) (Nat.le_add_left _ _)

end Bindings

/-- A type without generics, no larger than this. -/
structure Ty.Small (m : Nat) (t : Ty) : Prop where
  hasGeneric : t.hasGeneric = false
  size_le : t.size ≤ m

namespace Solve

variable {m : Nat} {s : Bindings} {c k : Ty}

theorem Inside.small {c' k' : Ty} (h : Inside c k c' k') (hk : k.Small m) : k'.Small m := by
  rcases h.candidate with rfl | hpart
  · exact hk
  · exact ⟨Ty.hasGeneric_of_mem_parts hk.hasGeneric hpart,
      Nat.le_trans (Nat.le_of_lt (Ty.size_lt_of_mem_parts hpart)) hk.size_le⟩

/-- **A comparison with a small candidate ends** if all bindings are small. It goes down along the
constraint until it meets a generic that is bound, and then along the binding. -/
theorem compare_ends {depth : Nat} (hk : k.Small m) (hdepth : c.size + m ≤ depth) :
    Maintains (Bindings.All (Ty.Small m)) (fun _ _ => False) (compare depth c k) := by
  -- A comparison without generics on either side needs only the size of its constraint.
  refine compare_maintains
    (R := fun depth c k => k.Small m ∧
      (c.size + m ≤ depth ∨ c.hasGeneric = false ∧ c.size ≤ depth)) ?_ ?_ ?_ ⟨hk, .inl hdepth⟩
  · rintro depth c k c' k' ⟨hk, hc⟩ hpair
    have hlt := Ty.size_lt_of_mem_parts hpair.constraint
    refine ⟨hpair.small hk, hc.imp (fun hc => by omega) fun hc => ?_⟩
    exact ⟨Ty.hasGeneric_of_mem_parts hc.1 hpair.constraint, by omega⟩
  · rintro depth ih name bound k ⟨hk, hc | hc⟩
    · have hne := Ty.ne_generic_of_hasGeneric hk.hasGeneric
      have hlt : ∀ b, bound = some b → b.size < (Ty.generic name bound).size := fun b hb =>
        Ty.size_lt_of_mem_parts (Option.mem_toList.mpr hb)
      have hpos := (Ty.generic name bound).size_pos
      refine step_generic_tracks hne (fun s ty hs hty => ih ⟨hk, .inr ?_⟩)
        (fun b hb => ih ⟨hk, .inl ?_⟩) fun _ _ _ _ _ ht => ht.insert hk
      · obtain ⟨hgeneric, hsize⟩ := hs name ty hty
        exact ⟨hgeneric, by omega⟩
      · have := hlt b hb
        omega
    · cases hc.1
  · rintro c k s ⟨-, hc⟩ -
    have hpos := c.size_pos
    omega

/-- **What a comparison binds in addition are types inside the candidate.** -/
theorem compare_extends (depth : Nat) (hk : k.hasGeneric = false) (c : Ty) (s : Bindings) :
    Keeps (s.Extends k) (compare depth c k) := by
  refine compare_keeps (R := fun _ k' => k' ∈ k.nodes) ?_ ?_ depth k.self_mem_nodes
  · rintro c k' c' k'' hk' hpair
    rcases hpair.candidate with rfl | hpart
    · exact hk'
    · exact Ty.mem_nodes_trans (Ty.mem_nodes_of_mem_parts hpart) hk'
  · rintro depth ih name bound k' hk'
    have hne := Ty.ne_generic_of_hasGeneric (Ty.throughout_hasGeneric hk _ hk')
    refine step_generic_tracks hne (fun _ _ _ _ => ih hk') (fun _ _ => ih hk') ?_
    exact fun t u ht hfree _ hu => hu.insert (ht.get?_eq_none hfree) hk'

/-- One comparison with a candidate and bindings that have no generics. -/
theorem satisfies_ok (hs : s.All fun ty => ty.hasGeneric = false) (hk : k.hasGeneric = false)
    (c : Ty) : ∃ b t, satisfies c k s = .ok b t ∧ s.Extends k t ∧
      ∀ depth, c.size + k.size + bindingsSize s ≤ depth → compare depth c k s = .ok b t := by
  have hsmall : s.All (Ty.Small (k.size + bindingsSize s)) := fun name ty hty =>
    ⟨hs name ty hty, Nat.le_trans (Bindings.size_le_bindingsSize hty) (Nat.le_add_left _ _)⟩
  have hends : Maintains (Bindings.All (Ty.Small (k.size + bindingsSize s))) (fun _ _ => False)
      (compare (c.size + k.size + bindingsSize s) c k) :=
    compare_ends ⟨hk, Nat.le_add_right _ _⟩ (Nat.le_of_eq (Nat.add_assoc _ _ _).symm)
  cases hrun : compare (c.size + k.size + bindingsSize s) c k s with
  | error e t => exact (hends.error hsmall hrun).1.elim
  | ok b t =>
    have hdeep : ∀ depth, c.size + k.size + bindingsSize s ≤ depth →
        compare depth c k s = .ok b t := by
      intro depth hdepth
      obtain ⟨more, rfl⟩ := Nat.exists_eq_add_of_le hdepth
      exact (compare_deeper more (ends_of_ok hrun)).trans hrun
    refine ⟨b, t, ?_, ?_, hdeep⟩
    · rw [satisfies_eq]
      exact hdeep _ (Nat.le_of_lt (lt_depthBound s c k))
    · exact compare_extends _ hk c s _ _ _ (.refl s k) hrun

/-- What one comparison keeps, a run of comparisons keeps. -/
theorem afterAll_hasGeneric (hs : s.All fun ty => ty.hasGeneric = false) {calls : List (Ty × Ty)}
    (hcalls : ∀ call ∈ calls, call.2.hasGeneric = false) :
    (afterAll calls s).All fun ty => ty.hasGeneric = false := by
  induction calls generalizing s with
  | nil => exact hs
  | cons call calls ih =>
    obtain ⟨hcall, hcalls⟩ := List.forall_mem_cons.mp hcalls
    refine ih ?_ hcalls
    obtain ⟨b, t, hrun, hextends, -⟩ := satisfies_ok hs hcall call.1
    show (after (satisfies call.1 call.2) s).All _
    rw [after, hrun]
    exact hextends.all_hasGeneric hs hcall

/-- **Comparing candidates without generics ends.** From bindings without generics, and after any
number of comparisons of such candidates, a comparison goes no further down than the types and the
bindings are large and ends without an error. What it binds in addition are types inside its
candidate, so there are no generics in the bindings afterwards. -/
theorem satisfies_ends (hs : s.All fun ty => ty.hasGeneric = false) (before : List (Ty × Ty))
    (hbefore : ∀ call ∈ before, call.2.hasGeneric = false) (c : Ty) (hk : k.hasGeneric = false) :
    let t := afterAll before s
    (t.All fun ty => ty.hasGeneric = false) ∧
    ∃ b t', satisfies c k t = .ok b t' ∧
      (∀ depth, c.size + k.size + bindingsSize t ≤ depth → compare depth c k t = .ok b t') ∧
      t.Extends k t' ∧ t'.All fun ty => ty.hasGeneric = false := by
  intro t
  have ht : t.All fun ty => ty.hasGeneric = false := afterAll_hasGeneric hs hbefore
  obtain ⟨b, t', hrun, hextends, hdeep⟩ := satisfies_ok ht hk c
  exact ⟨ht, b, t', hrun, hdeep, hextends, hextends.all_hasGeneric ht hk⟩

/-- A function type that is compared with a union whose members have generics and a bound that is a
generic itself, after a comparison that has bound one of them. -/
theorem satisfies_ends_boundByGeneric :
    let c : Ty := .union [.array (.generic "T" none), .function [.generic "T" none,
      .variadic (.generic "U" (some (.union [.string, .generic "T" none])))] none]
    let k : Ty := .function [.array .number, .array .number] none
    let t := afterAll [(.generic "T" none, .array .number)] (Table.empty.insert "V" .string)
    ∃ b t', satisfies c k t = .ok b t' ∧ t.Extends k t' ∧
      t'.get? "U" = some (.array .number) ∧ t'.All fun ty => ty.hasGeneric = false := by
  intro c k t
  have hs : Bindings.All (fun ty => ty.hasGeneric = false) (Table.empty.insert "V" .string) :=
    Bindings.all_empty.insert rfl
  obtain ⟨-, b, t', hrun, -, hextends, hall⟩ :=
    satisfies_ends (k := k) hs [(.generic "T" none, .array .number)] (by decide) c rfl
  have hbound : satisfies c k t = .ok true (t.insert "U" (.array .number)) := by
    with_unfolding_all rfl
  refine ⟨b, t', hrun, hextends, ?_, hall⟩
  rw [(EStateM.Result.ok.inj (hrun.symm.trans hbound)).2]
  rfl

end Solve

end RuleScript
