import Mathlib.Data.List.Perm.Subperm
import RuleScript.Proofs.Lowering.References

/-!
# What annotations depend on

A name in an annotation is a type of the scopes that can be seen, an alias, or a native type. So an
annotation depends on those types and on the aliases that it refers to, in however many steps; other
aliases make no difference, although expanding goes on for as many steps as there are aliases.

## Main definitions

* `Declarations.AgreeOn`: declarations that cannot be told apart by some references
* `Table.Expandable`: there are enough steps left to expand all aliases

## Main results

* `Table.Expandable.pos`: the steps do not run out before the aliases do
* `Env.resolveIn_agree`: what an annotation depends on
-/

namespace RuleScript

namespace TypeExpr

variable {meaning meaning' : Span → String → Except Error Ty}

mutual

/-- An annotation depends on what its names stand for. -/
theorem resolveWith_congr : ∀ e : TypeExpr,
    (∀ span name, .type name ∈ e.references → meaning span name = meaning' span name) →
      e.resolveWith meaning = e.resolveWith meaning'
  | named span name, h => h span name List.mem_cons_self
  | array _ item, h => by rw [resolveWith, resolveWith, resolveWith_congr item h]
  | function _ params ret, h => by
    simp only [references, List.mem_append] at h
    rw [resolveWith, resolveWith,
      resolveList_congr params fun span name hname => h span name (.inl hname),
      resolveOption_congr ret fun span name hname => h span name (.inr hname)]
  | variadic _ inner, h => by rw [resolveWith, resolveWith, resolveWith_congr inner h]
  | union _ members, h => by rw [resolveWith, resolveWith, resolveList_congr members h]

theorem resolveList_congr : ∀ es : List TypeExpr,
    (∀ span name, .type name ∈ referencesList es → meaning span name = meaning' span name) →
      resolveList meaning es = resolveList meaning' es
  | [], _ => rfl
  | e :: es, h => by
    simp only [referencesList, List.mem_append] at h
    rw [resolveList, resolveList,
      resolveWith_congr e fun span name hname => h span name (.inl hname),
      resolveList_congr es fun span name hname => h span name (.inr hname)]

theorem resolveOption_congr : ∀ e : Option TypeExpr,
    (∀ span name, .type name ∈ referencesOption e → meaning span name = meaning' span name) →
      resolveOption meaning e = resolveOption meaning' e
  | none, _ => rfl
  | some e, h => by rw [resolveOption, resolveOption, resolveWith_congr e h]

end

end TypeExpr

/-- Declarations that cannot be told apart by the known references: each stands for the same
declaration or for none, and what that refers to is known as well. -/
structure Declarations.AgreeOn (known : Reference → Prop) (d d' : Declarations) : Prop where
  lookup? : ∀ r, known r → d.lookup? r = d'.lookup? r
  closed : ∀ r item, known r → d.lookup? r = some item → ∀ r' ∈ item.references, known r'

namespace Declarations.AgreeOn

variable {known : Reference → Prop} {d d' : Declarations} {name : String}

theorem functions (h : AgreeOn known d d') (hknown : known (.function name)) :
    d.functions.get? name = d'.functions.get? name :=
  Option.map_injective (fun _ _ => Item.function.inj) (h.lookup? _ hknown)

theorem aliases (h : AgreeOn known d d') (hknown : known (.type name)) :
    d.aliases.get? name = d'.aliases.get? name :=
  Option.map_injective (fun _ _ => Item.typeAlias.inj) (h.lookup? _ hknown)

/-- What a function refers to is known if the function is. -/
theorem callee (h : AgreeOn known d d') (hknown : known (.function name)) {decl : FunctionDecl}
    (hdecl : d.functions.get? name = some decl) : ∀ r ∈ decl.references, known r :=
  h.closed _ (.function decl) hknown (by rw [Declarations.lookup?, hdecl]; rfl)

/-- What an alias refers to is known if the alias is. -/
theorem expansion (h : AgreeOn known d d') (hknown : known (.type name)) {decl : AliasDecl}
    (hdecl : d.aliases.get? name = some decl) : ∀ r ∈ decl.ty.references, known r :=
  h.closed _ (.typeAlias decl) hknown (by rw [Declarations.lookup?, hdecl]; rfl)

end Declarations.AgreeOn

/-- There are enough steps left to expand every alias that is not being expanded yet. -/
structure Table.Expandable (aliases : Table AliasDecl) (more : Nat) (expanding : List String) :
    Prop where
  nodup : expanding.Nodup
  contains : ∀ name ∈ expanding, aliases.contains name = true
  enough : aliases.size ≤ more + expanding.length

namespace Table.Expandable

variable {aliases : Table AliasDecl} {more : Nat} {expanding : List String} {name : String}

theorem start (aliases : Table AliasDecl) : aliases.Expandable aliases.size [] :=
  ⟨List.nodup_nil, nofun, Nat.le_refl _⟩

theorem mem_entries (h : aliases.contains name = true) : name ∈ aliases.entries.map (·.1) := by
  obtain ⟨decl, hdecl⟩ := Option.isSome_iff_exists.mp h
  obtain ⟨l₁, l₂, hl, -⟩ := List.lookup_eq_some_iff.mp hdecl
  rw [hl]
  simp

/-- An alias that is not being expanded yet can be expanded. -/
theorem pos (h : aliases.Expandable more expanding) (hname : aliases.contains name = true)
    (hnew : name ∉ expanding) : 0 < more := by
  have hnodup : (name :: expanding).Nodup := List.nodup_cons.mpr ⟨hnew, h.nodup⟩
  have hsubset : name :: expanding ⊆ aliases.entries.map (·.1) := by
    intro other hother
    rcases List.mem_cons.mp hother with rfl | hother
    · exact mem_entries hname
    · exact mem_entries (h.contains other hother)
  have hle := (List.Nodup.subperm hnodup hsubset).length_le
  have henough := h.enough
  rw [List.length_cons, List.length_map] at hle
  rw [Table.size] at henough
  omega

theorem step (h : aliases.Expandable (more + 1) expanding) (hname : aliases.contains name = true)
    (hnew : name ∉ expanding) : aliases.Expandable more (name :: expanding) := by
  refine ⟨List.nodup_cons.mpr ⟨hnew, h.nodup⟩, List.forall_mem_cons.mpr ⟨hname, h.contains⟩, ?_⟩
  have henough := h.enough
  rw [List.length_cons]
  omega

end Table.Expandable

/-- What a known name stands for does not depend on how many other aliases there are. -/
theorem Scopes.meaning_agree {known : Reference → Prop} {d d' : Declarations} {s s' : Scopes}
    (hd : d.AgreeOn known d') (htypes : ∀ name, s.type? name = s'.type? name) {more more' : Nat}
    {expanding : List String} (h : d.aliases.Expandable more expanding)
    (h' : d'.aliases.Expandable more' expanding) (span : Span) {name : String}
    (hname : known (.type name)) : s.meaning d.aliases more expanding span name =
      s'.meaning d'.aliases more' expanding span name := by
  induction more using Nat.strongRecOn generalizing more' expanding span name with
  | ind more ih =>
    have halias := hd.aliases hname
    rw [meaning, meaning, htypes name, ← halias]
    cases hty : s'.type? name with
    | some ty => rfl
    | none =>
      cases hdecl : d.aliases.get? name with
      | none => rfl
      | some decl =>
        by_cases hmem : name ∈ expanding
        · simp [hmem]
        · have hin : d.aliases.contains name = true := by simp [Table.contains, hdecl]
          have hin' : d'.aliases.contains name = true := by simp [Table.contains, ← halias, hdecl]
          -- Neither run has expanded all its aliases, so both expand this one.
          obtain ⟨fewer, rfl⟩ := Nat.exists_eq_add_one.mpr (h.pos hin hmem)
          obtain ⟨fewer', rfl⟩ := Nat.exists_eq_add_one.mpr (h'.pos hin' hmem)
          simp only [List.contains_eq_mem, hmem, decide_false, Bool.false_eq_true, if_false]
          exact TypeExpr.resolveWith_congr decl.ty fun span other hother =>
            ih fewer (Nat.lt_succ_self fewer) (h.step hin hmem) (h'.step hin' hmem) span
              (hd.expansion hname hdecl _ hother)

/-- **An annotation depends on the types that can be seen and on the declarations it refers to.** -/
theorem Env.resolveIn_agree {known : Reference → Prop} {env env' : Env} {s s' : Scopes}
    (hd : env.declarations.AgreeOn known env'.declarations)
    (htypes : ∀ name, s.type? name = s'.type? name) {e : TypeExpr}
    (hknown : ∀ r ∈ e.references, known r) : env.resolveIn s e = env'.resolveIn s' e :=
  TypeExpr.resolveWith_congr e fun span _ hname =>
    Scopes.meaning_agree hd htypes (.start _) (.start _) span (hknown _ hname)

end RuleScript
