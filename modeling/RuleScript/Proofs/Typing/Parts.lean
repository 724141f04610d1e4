import RuleScript.Ty.Basic

/-!
# Everything inside a type

A property of types is often a property of all types inside a type, at any depth. The types inside
are listed, those inside the bounds of generics included, and a property of all of them is taken
apart along the type: it holds of a type if it holds of the type itself and of its parts.

## Main definitions

* `Ty.parts`, `Ty.nodes`: what a type is made of, and all types inside it
* `Ty.alternatives`: the members of a union
* `Ty.Throughout`: a property of all of them
* `Ty.hasVariadic`: whether a variadic type occurs in a type

## Main results

* `Ty.induct_parts`: induction along the parts of types
* `Ty.throughout_iff`: a property of all types inside a type, taken apart
* `Ty.throughout_hasGeneric`: nothing inside a type without generics has any
-/

namespace RuleScript

namespace Ty

variable {P Q : Ty → Prop}

/-- The types that a type is made of; a generic is made of its bound. -/
@[simp] def parts : Ty → List Ty
  | native _ => []
  | array item => [item]
  | function params ret => params ++ ret.toList
  | variadic inner => [inner]
  | generic _ bound => bound.toList
  | union members => members

/-- The members of a union; any other type is the only one it offers. -/
def alternatives : Ty → List Ty
  | union members => members
  | t => [t]

theorem mem_alternatives {t a : Ty} (h : a ∈ t.alternatives) : a = t ∨ a ∈ t.parts := by
  cases t with
  | union members => exact .inr h
  | _ => exact .inl (List.mem_singleton.mp h)

/-! ## Sizes -/

theorem size_le_sizeList {t : Ty} {ts : List Ty} (h : t ∈ ts) : t.size ≤ sizeList ts := by
  induction ts with
  | nil => cases h
  | cons u us ih =>
    rw [sizeList]
    rcases List.mem_cons.mp h with rfl | h
    · exact Nat.le_add_right _ _
    · exact Nat.le_trans (ih h) (Nat.le_add_left _ _)

theorem size_le_sizeOption {t : Ty} {r : Option Ty} (h : t ∈ r.toList) :
    t.size ≤ sizeOption r := by
  obtain rfl := Option.mem_toList.mp h
  exact Nat.le_refl _

/-- A part is smaller than the whole. -/
theorem size_lt_of_mem_parts {t u : Ty} (h : u ∈ t.parts) : u.size < t.size := by
  cases t with
  | native => cases h
  | array | variadic =>
    obtain rfl := List.mem_singleton.mp h
    exact Nat.lt_succ_self _
  | function params ret =>
    rw [size]
    rcases List.mem_append.mp h with h | h
    · have := size_le_sizeList h
      omega
    · have := size_le_sizeOption h
      omega
  | generic => exact Nat.lt_succ_of_le (size_le_sizeOption h)
  | union => exact Nat.lt_succ_of_le (size_le_sizeList h)

theorem size_pos (t : Ty) : 0 < t.size := by
  cases t <;> exact Nat.succ_pos _

/-- The type is a generic, or it is none. -/
theorem generic_or_ne (t : Ty) :
    (∃ name bound, t = generic name bound) ∨ ∀ name bound, t ≠ generic name bound := by
  cases t <;> simp

/-- What is true of a type if it is true of its parts is true of all types. -/
theorem induct_parts {M : Ty → Prop} (h : ∀ t, (∀ u ∈ t.parts, M u) → M t) (t : Ty) : M t :=
  (measure size).wf.induction t fun t ih => h t fun u hu => ih u (size_lt_of_mem_parts hu)

/-! ## The types inside a type -/

mutual

/-- The type and all types inside it, at any depth. -/
def nodes : Ty → List Ty
  | native name => [native name]
  | array item => array item :: item.nodes
  | function params ret => function params ret :: (nodesList params ++ nodesOption ret)
  | variadic inner => variadic inner :: inner.nodes
  | generic name bound => generic name bound :: nodesOption bound
  | union members => union members :: nodesList members

/-- Some types and all types inside them. -/
def nodesList : List Ty → List Ty
  | [] => []
  | t :: ts => t.nodes ++ nodesList ts

/-- A type that may be missing, and all types inside it. -/
def nodesOption : Option Ty → List Ty
  | none => []
  | some t => t.nodes

end

/-- The property holds of the type and of all types inside it. -/
def Throughout (P : Ty → Prop) (t : Ty) : Prop := ∀ u ∈ t.nodes, P u

instance [DecidablePred P] (t : Ty) : Decidable (t.Throughout P) :=
  inferInstanceAs (Decidable (∀ u ∈ t.nodes, P u))

theorem mem_nodesList {u : Ty} {ts : List Ty} : u ∈ nodesList ts ↔ ∃ t ∈ ts, u ∈ t.nodes := by
  induction ts with
  | nil => simp [nodesList]
  | cons t ts ih => simp [nodesList, ih]

theorem mem_nodesOption {u : Ty} {r : Option Ty} :
    u ∈ nodesOption r ↔ ∃ t ∈ r.toList, u ∈ t.nodes := by
  cases r <;> simp [nodesOption]

/-- What is inside a type is the type itself or inside one of its parts. -/
theorem mem_nodes {t u : Ty} : u ∈ t.nodes ↔ u = t ∨ ∃ p ∈ t.parts, u ∈ p.nodes := by
  cases t with
  | native | array | variadic => simp [nodes]
  | function params ret =>
    simp only [nodes, parts, List.mem_cons, List.mem_append, mem_nodesList, mem_nodesOption,
      or_and_right, exists_or]
  | generic => simp only [nodes, parts, List.mem_cons, mem_nodesOption]
  | union => simp only [nodes, parts, List.mem_cons, mem_nodesList]

theorem self_mem_nodes (t : Ty) : t ∈ t.nodes := mem_nodes.mpr (.inl rfl)

theorem mem_nodes_of_mem_parts {t u : Ty} (h : u ∈ t.parts) : u ∈ t.nodes :=
  mem_nodes.mpr (.inr ⟨u, h, u.self_mem_nodes⟩)

/-- What is inside a type that is inside another one is inside that one. -/
theorem mem_nodes_trans {t u v : Ty} (hu : u ∈ v.nodes) (hv : v ∈ t.nodes) : u ∈ t.nodes := by
  induction t using induct_parts with
  | h t ih =>
    rcases mem_nodes.mp hv with rfl | ⟨p, hp, hv⟩
    · exact hu
    · exact mem_nodes.mpr (.inr ⟨p, hp, ih p hp hv⟩)

/-- A property of all types inside a type is one of the type and of all inside its parts. -/
theorem throughout_iff (t : Ty) : t.Throughout P ↔ P t ∧ ∀ u ∈ t.parts, u.Throughout P := by
  simp only [Throughout, mem_nodes (t := t), forall_eq_or_imp, forall_exists_index, and_imp]
  constructor
  · rintro ⟨ht, hparts⟩
    exact ⟨ht, fun p hp u hu => hparts u p hp hu⟩
  · rintro ⟨ht, hparts⟩
    exact ⟨ht, fun u p hp hu => hparts p hp u hu⟩

theorem Throughout.self {t : Ty} (h : t.Throughout P) : P t := h t t.self_mem_nodes

theorem Throughout.part {t u : Ty} (h : t.Throughout P) (hu : u ∈ t.parts) : u.Throughout P :=
  ((throughout_iff t).mp h).2 u hu

theorem Throughout.mono {t : Ty} (h : t.Throughout P) (hPQ : ∀ u, P u → Q u) : t.Throughout Q :=
  fun u hu => hPQ u (h u hu)

mutual

/-- There are as many types inside a type as it is large. -/
theorem length_nodes : ∀ t : Ty, t.nodes.length = t.size
  | native _ => rfl
  | array item => by rw [nodes, size, List.length_cons, length_nodes item]
  | function params ret => by
    rw [nodes, size, List.length_cons, List.length_append, length_nodesList params,
      length_nodesOption ret]
  | variadic inner => by rw [nodes, size, List.length_cons, length_nodes inner]
  | generic _ bound => by rw [nodes, size, List.length_cons, length_nodesOption bound]
  | union members => by rw [nodes, size, List.length_cons, length_nodesList members]

theorem length_nodesList : ∀ ts : List Ty, (nodesList ts).length = sizeList ts
  | [] => rfl
  | t :: ts => by
    rw [nodesList, sizeList, List.length_append, length_nodes t, length_nodesList ts]

theorem length_nodesOption : ∀ t? : Option Ty, (nodesOption t?).length = sizeOption t?
  | none => rfl
  | some t => length_nodes t

end

/-! ## The names of generics -/

theorem mem_genericsList {name : String} {ts : List Ty} :
    name ∈ genericsList ts ↔ ∃ t ∈ ts, name ∈ t.generics := by
  induction ts with
  | nil => simp [genericsList]
  | cons t ts ih => simp [genericsList, ih]

theorem mem_genericsOption {name : String} {r : Option Ty} :
    name ∈ genericsOption r ↔ ∃ t ∈ r.toList, name ∈ t.generics := by
  cases r <;> simp [genericsOption]

/-- The names of the generics in a type are those of the generics inside it. -/
theorem mem_generics {name : String} {t : Ty} :
    name ∈ t.generics ↔ ∃ bound, generic name bound ∈ t.nodes := by
  induction t using induct_parts with
  | h t ih =>
    have hparts : (∃ u ∈ t.parts, name ∈ u.generics) ↔
        ∃ bound, ∃ u ∈ t.parts, generic name bound ∈ u.nodes := by
      rw [exists_comm]
      exact exists_congr fun u => (and_congr_right fun hu => ih u hu).trans exists_and_left.symm
    simp only [mem_nodes (t := t), exists_or, ← hparts]
    cases t with
    | native | array | variadic => simp [generics]
    | function params ret =>
      simp [generics, mem_genericsList, mem_genericsOption, or_and_right, exists_or]
    | generic other bound => simp [generics, mem_genericsOption]
    | union => simp [generics, mem_genericsList]

/-! ## Types without generics and without variadic types -/

theorem anyGeneric_eq_false {ts : List Ty} :
    anyGeneric ts = false ↔ ∀ t ∈ ts, t.hasGeneric = false := by
  induction ts with
  | nil => simp [anyGeneric]
  | cons t ts ih => simp [anyGeneric, ih]

theorem optionGeneric_eq_false {r : Option Ty} :
    optionGeneric r = false ↔ ∀ t, r = some t → t.hasGeneric = false := by
  cases r <;> simp [optionGeneric]

theorem ne_generic_of_hasGeneric {t : Ty} (h : t.hasGeneric = false) (name : String)
    (bound : Option Ty) : t ≠ generic name bound := by
  rintro rfl
  cases h

/-- The parts of a type without generics have none. -/
theorem hasGeneric_of_mem_parts {t u : Ty} (h : t.hasGeneric = false) (hu : u ∈ t.parts) :
    u.hasGeneric = false := by
  cases t with
  | native => cases hu
  | array | variadic =>
    obtain rfl := List.mem_singleton.mp hu
    exact h
  | function params ret =>
    rw [hasGeneric, Bool.or_eq_false_iff] at h
    rcases List.mem_append.mp hu with hu | hu
    · exact anyGeneric_eq_false.mp h.1 u hu
    · exact optionGeneric_eq_false.mp h.2 u (Option.mem_toList.mp hu)
  | generic => cases h
  | union => exact anyGeneric_eq_false.mp h u hu

/-- The types inside a type without generics have none. -/
theorem throughout_hasGeneric {t : Ty} (h : t.hasGeneric = false) :
    t.Throughout fun u => u.hasGeneric = false := by
  induction t using induct_parts with
  | h t ih => exact (throughout_iff t).mpr ⟨h, fun u hu => ih u hu (hasGeneric_of_mem_parts h hu)⟩

/-- Whether a variadic type occurs in the type, at any depth. -/
def hasVariadic (t : Ty) : Bool := t.nodes.any isVariadic

theorem hasVariadic_eq_false {t : Ty} :
    t.hasVariadic = false ↔ t.Throughout fun u => u.isVariadic = false := by
  simp [hasVariadic, Throughout]

theorem hasVariadic_of_mem_parts {t u : Ty} (h : t.hasVariadic = false) (hu : u ∈ t.parts) :
    u.hasVariadic = false :=
  hasVariadic_eq_false.mpr ((hasVariadic_eq_false.mp h).part hu)

end Ty

end RuleScript
