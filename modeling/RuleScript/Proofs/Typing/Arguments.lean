import RuleScript.Proofs.Typing.Instances
import RuleScript.Proofs.Typing.Names

/-!
# Generics that are inferred from arguments

The generics of a function are declared one after the other, and the bound of each is read where
only the earlier ones have been declared. So all generics in bounds and in annotations of parameters
are the declared ones, and none of them is mentioned in its own bound, provided that their names
differ.

The arguments of a call are compared with the parameters one after the other, and what they bind is
bound for all that follow. When a generic takes a type, the type has been compared with the bound of
the generic. This may have bound earlier generics but not the generic itself, so nothing is replaced
and all bindings made so far are there at the end. Hence inference is sound: with each generic
replaced by what it has been bound to, every argument fits its parameter and every binding fits the
bound of its generic, without anything left to infer.

## Main definitions

* `Ty.DeclaredIn`: all generics in a type are those of a table
* `DeclaredGenerics`: a table of generics that are declared one after the other
* `Bindings.Suits`: all bindings fit the bounds of their generics

## Main results

* `FunctionDecl.declareGenerics_declared`: declaring generics leads to such a table
* `Solve.compare_suits`: a comparison keeps bindings that fit
* `FunctionDecl.inference_sound`: what is inferred from arguments is right about all of them
-/

namespace RuleScript

/-! ## Declared generics -/

/-- The generics in the type, those in bounds included, are those that the table has under their
names. -/
def Ty.DeclaredIn (types : Table Ty) (t : Ty) : Prop :=
  t.Throughout fun u => ∀ name bound, u = .generic name bound → types.get? name = some u

namespace Ty

variable {types : Table Ty}

theorem composed_declaredIn : Composed (DeclaredIn types) :=
  composed_throughout fun _ hne name bound heq => absurd heq (hne name bound)

theorem declaredIn_of_hasGeneric {t : Ty} (h : t.hasGeneric = false) : t.DeclaredIn types := by
  refine (throughout_hasGeneric h).mono fun u hu name bound heq => ?_
  rw [heq] at hu
  cases hu

theorem DeclaredIn.grows {t : Ty} {types' : Table Ty} (h : t.DeclaredIn types)
    (hgrows : Bindings.Grows types types') : t.DeclaredIn types' :=
  h.mono fun u hu name bound heq => hgrows name u (hu name bound heq)

/-- A name that is not in the table is not mentioned. -/
theorem DeclaredIn.not_mem_generics {t : Ty} {name : String} (h : t.DeclaredIn types)
    (hname : types.get? name = none) : name ∉ t.generics := by
  intro hmem
  obtain ⟨bound, hnode⟩ := mem_generics.mp hmem
  exact absurd (h _ hnode name bound rfl) (by simp [hname])

end Ty

/-- A table of generics under their names. The bound of each of them mentions generics of the table,
but not the generic itself. -/
structure DeclaredGenerics (types : Table Ty) : Prop where
  generic {name : String} {ty : Ty} : types.get? name = some ty →
    ∃ bound, ty = .generic name bound
  declared {name : String} {bound : Ty} : types.get? name = some (.generic name (some bound)) →
    bound.DeclaredIn types
  apart {name : String} {bound : Ty} : types.get? name = some (.generic name (some bound)) →
    name ∉ bound.generics

namespace DeclaredGenerics

variable {types : Table Ty}

theorem empty : DeclaredGenerics .empty := ⟨nofun, nofun, nofun⟩

/-- The generics of the table mention only each other. -/
theorem declaredIn (h : DeclaredGenerics types) {name : String} {ty : Ty}
    (hty : types.get? name = some ty) : ty.DeclaredIn types := by
  obtain ⟨bound, rfl⟩ := h.generic hty
  refine (Ty.throughout_iff _).mpr ⟨?_, fun b hb => ?_⟩
  · rintro _ _ ⟨⟩
    exact hty
  · obtain rfl := Option.mem_toList.mp hb
    exact h.declared hty

/-- A generic may be added under a new name, with a bound over those that are there. -/
theorem insert (h : DeclaredGenerics types) {name : String} (hname : types.get? name = none)
    {bound : Option Ty} (hbound : ∀ b, bound = some b → b.DeclaredIn types) :
    DeclaredGenerics (types.insert name (.generic name bound)) := by
  have hgrows : Bindings.Grows types (types.insert name (.generic name bound)) :=
    (Bindings.Grows.refl types).insert hname _
  have hcases : ∀ {other ty}, (types.insert name (.generic name bound)).get? other = some ty →
      other = name ∧ ty = .generic name bound ∨ types.get? other = some ty := by
    intro other ty hget
    by_cases hother : other = name
    · subst hother
      exact .inl ⟨rfl, Option.some.inj (hget.symm.trans (Table.get?_insert_self _ _ _))⟩
    · exact .inr ((Table.get?_insert_of_ne _ _ hother).symm.trans hget)
  refine ⟨fun hget => ?_, fun hget => ?_, fun hget => ?_⟩
  · rcases hcases hget with ⟨rfl, rfl⟩ | hget
    · exact ⟨bound, rfl⟩
    · exact h.generic hget
  · rcases hcases hget with ⟨rfl, heq⟩ | hget
    · exact (hbound _ (Ty.generic.inj heq).2.symm).grows hgrows
    · exact (h.declared hget).grows hgrows
  · rcases hcases hget with ⟨rfl, heq⟩ | hget
    · exact (hbound _ (Ty.generic.inj heq).2.symm).not_mem_generics hname
    · exact h.apart hget

end DeclaredGenerics

namespace FunctionDecl

/-- Annotations in the scope of a function have its generics. -/
theorem resolveIn_declaredIn {env : Env} {kind : ScopeKind} {vars : Table Binding}
    {types : Table Ty} {outer : List Scope} (hkind : kind.isFunction = true)
    (htypes : DeclaredGenerics types) {e : TypeExpr} {ty : Ty}
    (h : env.resolveIn ⟨⟨kind, vars, types⟩ :: outer⟩ e = .ok ty) : ty.DeclaredIn types := by
  refine Env.resolveIn_composed Ty.composed_declaredIn (fun _ => Ty.declaredIn_of_hasGeneric rfl)
    (fun name ty hseen => ?_) h
  rw [Scopes.type?_function hkind] at hseen
  exact htypes.declaredIn hseen

/-- **Generics are declared in order.** If their names differ, and those before them are declared in
this way, then so are all. -/
theorem declareGenerics_declared {env : Env} {kind : ScopeKind} {vars : Table Binding}
    {types types' : Table Ty} {outer : List Scope} {gs : List GenericParam}
    (hkind : kind.isFunction = true) (htypes : DeclaredGenerics types)
    (hnew : ∀ g ∈ gs, types.get? g.name = none) (hdistinct : (gs.map (·.name)).Nodup)
    (h : declareGenerics env ⟨⟨kind, vars, types⟩ :: outer⟩ gs =
      .ok ⟨⟨kind, vars, types'⟩ :: outer⟩) : DeclaredGenerics types' := by
  induction gs generalizing types with
  | nil =>
    cases h
    exact htypes
  | cons g gs ih =>
    obtain ⟨hg, hgs⟩ := List.forall_mem_cons.mp hnew
    obtain ⟨hnotin, hdistinct⟩ := List.nodup_cons.mp hdistinct
    obtain ⟨bound, hresolved, h⟩ := declareGenerics_cons_ok h
    have hbound : ∀ b, bound = some b → b.DeclaredIn types := by
      intro b hb
      obtain ⟨e, -, hty⟩ := hresolved b hb
      exact resolveIn_declaredIn hkind htypes hty
    refine ih (htypes.insert hg hbound) (fun g' hg' => ?_) hdistinct h
    have hne : g'.name ≠ g.name := fun heq => hnotin (List.mem_map.mpr ⟨g', hg', heq⟩)
    rw [Table.get?_insert_of_ne _ _ hne]
    exact hgs g' hg'

end FunctionDecl

/-! ## Bindings that fit -/

/-- All bindings are concrete. If they are still there in the end, then each of them is accepted by
the bound of its generic, with the generics in it replaced by what they are bound to in the end. -/
structure Bindings.Suits (types : Table Ty) (f s : Bindings) : Prop where
  concrete : s.All Ty.Concrete
  accepts : s.Grows f → ∀ {name bound ty}, types.get? name = some (.generic name (some bound)) →
    s.get? name = some ty → (bound.instantiate f).accepts ty = true

/-- The generic is free, and there are no generics in the bindings. -/
structure Bindings.Free (name : String) (s : Bindings) : Prop where
  hasGeneric : s.All fun ty => ty.hasGeneric = false
  get?_eq_none : s.get? name = none

namespace Solve

/-- A comparison binds no generic that is not mentioned. -/
theorem compare_unmentioned (depth : Nat) {name : String} {c k : Ty} (hc : name ∉ c.generics)
    (hk : k.hasGeneric = false) : Keeps (Bindings.Free name) (compare depth c k) := by
  refine compare_keeps
    (R := fun c k => (∀ bound, .generic name bound ∉ c.nodes) ∧ k.hasGeneric = false) ?_ ?_ depth
    ⟨fun bound hmem => hc (Ty.mem_generics.mpr ⟨bound, hmem⟩), hk⟩
  · rintro c k c' k' ⟨hc, hk⟩ hpair
    refine ⟨fun bound hmem => hc bound ?_, hpair.passedDown Ty.passedDown_hasGeneric hk⟩
    exact Ty.mem_nodes_trans hmem (Ty.mem_nodes_of_mem_parts hpair.constraint)
  · rintro depth ih other bound k ⟨hc, hk⟩
    have hother : name ≠ other := by
      rintro rfl
      exact hc bound (Ty.self_mem_nodes _)
    refine step_generic_tracks (Ty.ne_generic_of_hasGeneric hk)
      (fun s ty hs hty => ih ⟨fun b hmem => ?_, hk⟩)
      (fun b hb => ih ⟨fun b' hmem => hc b' ?_, hk⟩) fun s t _ _ _ ht => ?_
    · cases Ty.throughout_hasGeneric (hs.hasGeneric other ty hty) _ hmem
    · exact Ty.mem_nodes_trans hmem (Ty.mem_nodes_of_mem_parts (Option.mem_toList.mpr hb))
    · refine ⟨ht.hasGeneric.insert hk, ?_⟩
      rw [Table.get?_insert_of_ne t k hother]
      exact ht.get?_eq_none

/-- Looking at a bound does not bind a generic that the bound does not mention. -/
theorem within_unmentioned {depth : Nat} {name : String} {bound : Option Ty} {k : Ty}
    (hbound : ∀ b, bound = some b → name ∉ b.generics) (hk : k.hasGeneric = false) :
    Keeps (Bindings.Free name) (within (compare depth) bound k) := by
  cases bound with
  | none =>
    rintro s b s' hs ⟨⟩
    exact hs
  | some b => exact compare_unmentioned depth (hbound b rfl) hk

/-- **A comparison keeps bindings that fit**, if its constraint has the declared generics. -/
theorem compare_suits {types : Table Ty} {f : Bindings} (htypes : DeclaredGenerics types)
    (hf : f.All Ty.Concrete) (depth : Nat) {c k : Ty} (hc : c.DeclaredIn types)
    (hk : k.Concrete) : Keeps (Bindings.Suits types f) (compare depth c k) := by
  refine compare_keeps (R := fun c k => c.DeclaredIn types ∧ k.Concrete) ?_ ?_ depth ⟨hc, hk⟩
  · rintro c k c' k' ⟨hc, hk⟩ hpair
    exact ⟨hc.part hpair.constraint, hpair.passedDown Ty.passedDown_concrete hk⟩
  · rintro depth ih name bound k ⟨hc, hk⟩
    have hname : types.get? name = some (.generic name bound) := hc.self name bound rfl
    refine step_generic_tracks (Ty.ne_generic_of_hasGeneric hk.hasGeneric)
      (fun s ty hs hty => ih ⟨?_, hk⟩) (fun b hb => ih ⟨hc.part (Option.mem_toList.mpr hb), hk⟩)
      fun s t hs hfree hrun ht => ?_
    · exact Ty.declaredIn_of_hasGeneric (hs.concrete name ty hty).hasGeneric
    -- Looking at the bound has not bound the generic, so what it has bound is still there.
    have hfree' : t.get? name = none := by
      have hapart : ∀ b, bound = some b → name ∉ b.generics := by
        rintro b rfl
        exact htypes.apart hname
      have hs' : s.Free name := ⟨hs.concrete.mono fun _ h => h.hasGeneric, hfree⟩
      exact (within_unmentioned hapart hk.hasGeneric _ _ _ hs' hrun).get?_eq_none
    refine ⟨ht.concrete.insert hk, fun hgrows other b ty hother hty => ?_⟩
    have hgrows' : t.Grows f := ((Bindings.Grows.refl t).insert hfree' k).trans hgrows
    by_cases heq : other = name
    · subst heq
      obtain rfl := Option.some.inj ((Table.get?_insert_self _ _ _).symm.trans hty)
      obtain rfl := (Ty.generic.inj (Option.some.inj (hname.symm.trans hother))).2
      exact accepts_of_compare hrun hf hgrows' hk
    · exact ht.accepts hgrows' hother ((Table.get?_insert_of_ne _ _ heq).symm.trans hty)

end Solve

/-! ## Calls -/

namespace FunctionDecl

variable {env : Env} {types : Table Ty} {outer : List Scope} {kind : ScopeKind}
  {vars : Table Binding} {args : List (Param × Ty)} {bindings : Bindings}

/-- What concrete arguments bind fits the bounds of the generics. -/
theorem checkArguments_suits (hkind : kind.isFunction = true) (htypes : DeclaredGenerics types)
    (hargs : ∀ arg ∈ args, arg.2.Concrete) {function : String} {span : Span} {index : Nat}
    (h : checkArguments { env with scopes := ⟨⟨kind, vars, types⟩ :: outer⟩ } function span index
      .empty args = .ok bindings) : Bindings.Suits types bindings bindings := by
  have hconcrete : bindings.All Ty.Concrete := by
    refine checkArguments_keeps (fun arg harg wanted _ depth => ?_) Bindings.all_empty h
    exact Solve.compare_bound Ty.passedDown_concrete depth wanted (hargs arg harg)
  refine checkArguments_keeps (fun arg harg wanted hwanted depth => ?_)
    ⟨Bindings.all_empty, fun _ => nofun⟩ h
  exact Solve.compare_suits htypes hconcrete depth (resolveIn_declaredIn hkind htypes hwanted)
    (hargs arg harg)

/-- **Inference is sound.** If the arguments of a call suit the parameters, with the generics bound
on the way, then with every bound generic replaced by its binding each argument fits its parameter,
and each binding fits the bound of its generic. Nothing is bound beforehand in these comparisons,
and none depends on the others. -/
theorem inference_sound {decl : FunctionDecl} {given : List Ty} {span : Span} {scopes : Scopes}
    (hdistinct : (decl.generics.map (·.name)).Nodup) (hgiven : ∀ ty ∈ given, ty.Concrete)
    (hscopes : declareGenerics env (env.scopes.push (.function decl.name none)) decl.generics =
      .ok scopes)
    (h : checkArguments { env with scopes } decl.name span 0 .empty (decl.params.zip given) =
      .ok bindings) :
    (∀ p ty, (p, ty) ∈ decl.params.zip given →
      ∃ wanted, ({ env with scopes } : Env).resolve p.ty = .ok wanted ∧
        ∀ span, (wanted.instantiate bindings).fits ty span = .ok true) ∧
    ∀ g ∈ decl.generics, ∃ bound, scopes.type? g.name = some (.generic g.name bound) ∧
      ∀ b ty, bound = some b → bindings.get? g.name = some ty →
        ∀ span, (b.instantiate bindings).fits ty span = .ok true := by
  obtain ⟨types, rfl, hdeclared⟩ := declareGenerics_entered rfl hscopes
  have hentered := hdeclared env env.scopes.open_ rfl
  have htypes : DeclaredGenerics types :=
    declareGenerics_declared rfl .empty (fun _ _ => rfl) hdistinct hentered
  have hargs : ∀ arg ∈ decl.params.zip given, arg.2.Concrete := fun arg hmem =>
    hgiven arg.2 (List.of_mem_zip hmem).2
  have hsuits := checkArguments_suits rfl htypes hargs h
  constructor
  · intro p ty hmem
    obtain ⟨wanted, s, s', hwanted, hfits, hgrows⟩ := checkArguments_each h hmem
    have hty : ty.Concrete := hargs _ hmem
    exact ⟨wanted, hwanted, Ty.fits_of_accepts hty.hasGeneric
      (Solve.accepts_of_compare (Ty.fitsWith_ok hfits) hsuits.concrete hgrows hty)⟩
  · intro g hg
    rcases get?_declareGenerics hentered g.name with ⟨hnot, -⟩ | ⟨-, bound, hget⟩
    · exact absurd (List.mem_map_of_mem hg) hnot
    · refine ⟨bound, (Scopes.type?_function rfl).trans hget, ?_⟩
      rintro b ty rfl hty
      exact Ty.fits_of_accepts (hsuits.concrete _ _ hty).hasGeneric
        (hsuits.accepts (.refl bindings) hget hty)

/-- A function with a generic whose bound mentions two others. -/
def callsBack : FunctionDecl :=
  let z := Span.zero
  let t : TypeExpr := .named z "T"
  let u : TypeExpr := .named z "U"
  ⟨"f", [⟨"T", none, z⟩, ⟨"U", some (.union z [.array z t, .named z "string"]), z⟩,
      ⟨"V", some (.function z [u] (some t)), z⟩, ⟨"W", some u, z⟩],
    [⟨"a", .union z [.function z [t] (some (.named z "string")), .function z [t] (some t)], z⟩,
      ⟨"b", .named z "V", z⟩, ⟨"c", .union z [u, .array z (.named z "W")], z⟩], none, [], z⟩

/-- The first argument suits the second member of a union only, after the first member has bound a
generic. The second argument binds a generic by way of a bound, and the third one is compared with
that binding. The last generic stays free. -/
theorem inference_sound_callsBack :
    let env : Env := { declarations := {}, maxInlineDepth := 0 }
    let back : Ty := .function [.string] (some .number)
    let given : List Ty := [.function [.number] (some .number), back, .string]
    ∃ scopes bindings,
      declareGenerics env (env.scopes.push (.function "f" none)) callsBack.generics = .ok scopes ∧
      checkArguments { env with scopes } "f" Span.zero 0 .empty (callsBack.params.zip given) =
        .ok bindings ∧
      bindings.entries = [("V", back), ("U", .string), ("T", .number)] ∧
      (∀ p ty, (p, ty) ∈ callsBack.params.zip given →
        ∃ wanted, ({ env with scopes } : Env).resolve p.ty = .ok wanted ∧
          ∀ span, (wanted.instantiate bindings).fits ty span = .ok true) ∧
      ∃ bound, scopes.type? "V" = some (.generic "V" (some bound)) ∧
        ∀ span, (bound.instantiate bindings).fits back span = .ok true := by
  intro env back given
  let t : Ty := .generic "T" none
  let u : Ty := .generic "U" (some (.union [.array t, .string]))
  let types : Table Ty := (((Table.empty.insert "T" t).insert "U" u).insert "V"
    (.generic "V" (some (.function [u] (some t))))).insert "W" (.generic "W" (some u))
  let scopes : Scopes := ⟨[⟨.function "f" none, .empty, types⟩]⟩
  let bindings : Bindings := ((Table.empty.insert "T" .number).insert "U" .string).insert "V" back
  have hscopes : declareGenerics env (env.scopes.push (.function "f" none)) callsBack.generics =
      .ok scopes := by with_unfolding_all rfl
  have hchecked : checkArguments { env with scopes } "f" Span.zero 0 .empty
      (callsBack.params.zip given) = .ok bindings := by with_unfolding_all rfl
  have hdistinct : (callsBack.generics.map (·.name)).Nodup := by decide
  obtain ⟨hargs, hbounds⟩ := inference_sound hdistinct (by decide) hscopes hchecked
  obtain ⟨bound, htype, hbound⟩ := hbounds _ (.tail _ (.tail _ (.head _)))
  have hsome : bound = some (.function [u] (some t)) :=
    (Ty.generic.inj (Option.some.inj (htype.symm.trans rfl))).2
  rw [hsome] at htype
  exact ⟨scopes, bindings, hscopes, hchecked, rfl, hargs, _, htype, hbound _ back hsome rfl⟩

end FunctionDecl

end RuleScript
