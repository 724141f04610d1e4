import RuleScript.Proofs.Meaning.Types
import RuleScript.Proofs.Typing.Comparison

/-!
# Generics that stand for types

Inside a call a generic is a name of the type that it was bound to. A parameter is therefore looked
at twice: its argument is compared with an annotation in which generics are generics, and its
variable has the type of the same annotation in which they are names of types. Reading a generic as
all that its binding admits makes the second type admit what the first one does.

An argument whose own type has a generic would be read differently by the caller and by the call, so
the types of arguments are taken to have none.

## Main definitions

* `Kinds.open_`: generics admit everything
* `Kinds.bound`: generics admit what their bindings admit

## Main results

* `Ty.below_of_hasGeneric`: kinds that differ in generics matter to types with generics only
* `Env.resolve_below`: an annotation in which generics are names of types
* `FunctionDecl.Typed.below_param`: a parameter admits what its argument admits
-/

namespace RuleScript

variable {Thing : Type} {native : String → Datum Thing → Bool}

/-! ## Kinds that differ in generics -/

namespace Kinds

/-- Generics admit everything. -/
def open_ (native : String → Datum Thing → Bool) : Kinds Thing := ⟨native, fun _ _ => true⟩

/-- Generics admit what their bindings admit, and everything as long as they have none. -/
def bound (native : String → Datum Thing → Bool) (bindings : Bindings) : Kinds Thing :=
  ⟨native, fun name d => (bindings.get? name).all (·.admits (open_ native) d)⟩

end Kinds

namespace Ty

variable {free free' : String → Datum Thing → Bool}

mutual

/-- A type without generics admits the same whatever generics admit, and one with generics admits
no less when they do. -/
theorem below_of_hasGeneric : ∀ t : Ty,
    (t.hasGeneric = true → ∀ name d, free name d = true → free' name d = true) →
    Below ⟨native, free⟩ ⟨native, free'⟩ t t
  | .native _, _ => fun _ hd => hd
  | array item, h => (below_of_hasGeneric item h).array
  | function _ _, _ => .function
  | variadic inner, h => below_of_hasGeneric inner h
  | generic name _, h => h rfl name
  | union members, h => someAdmits_of_anyGeneric members h

theorem someAdmits_of_anyGeneric : ∀ ts : List Ty,
    (anyGeneric ts = true → ∀ name d, free name d = true → free' name d = true) →
    ∀ d, someAdmits ⟨native, free⟩ ts d = true → someAdmits ⟨native, free'⟩ ts d = true
  | [], _ => fun _ hd => hd
  | t :: ts, h => by
    intro d hd
    rw [someAdmits, Bool.or_eq_true] at hd ⊢
    rcases hd with hd | hd
    · exact .inl (below_of_hasGeneric t (fun ht => h (by simp [anyGeneric, ht])) d hd)
    · exact .inr (someAdmits_of_anyGeneric ts (fun hts => h (by simp [anyGeneric, hts])) d hd)

end

/-- What a caller makes of a type without generics is what a call makes of it. -/
theorem below_bound {t : Ty} (h : t.hasGeneric = false) (bindings : Bindings) :
    Below (.open_ native) (.bound native bindings) t t :=
  below_of_hasGeneric t fun ht => by rw [h] at ht; cases ht

end Ty

/-- Bindings are admitted by the generics that admit what the bindings do. -/
theorem Bindings.admitted_bound (native : String → Datum Thing → Bool) (bindings : Bindings) :
    bindings.Admitted (.bound native bindings) := by
  intro name ty hty d hd
  show (bindings.get? name).all _ = true
  rw [hty]
  exact Ty.below_of_hasGeneric ty (fun _ _ _ _ => rfl) d hd

/-! ## Annotations -/

section

variable {kinds kinds' : Kinds Thing} {meaning meaning' : Span → String → Except Error Ty}

namespace TypeExpr

mutual

/-- An annotation stands for a smaller type where its names do. -/
theorem resolveWith_below
    (hnames : ∀ span name t t', meaning span name = .ok t → meaning' span name = .ok t' →
      t.Below kinds kinds' t') : ∀ (e : TypeExpr) {t t' : Ty},
    e.resolveWith meaning = .ok t → e.resolveWith meaning' = .ok t' → t.Below kinds kinds' t'
  | named span name, _, _, h, h' => hnames span name _ _ h h'
  | array _ item, _, _, h, h' => by
    simp only [resolveWith, Except.bind_eq_ok] at h h'
    obtain ⟨u, hu, h⟩ := h
    obtain ⟨u', hu', h'⟩ := h'
    cases h
    cases h'
    exact (resolveWith_below hnames item hu hu').array
  | function _ params ret, _, _, h, _ => by
    simp only [resolveWith, Except.bind_eq_ok] at h
    obtain ⟨us, hus, r, hr, h⟩ := h
    cases h
    exact .function
  | variadic _ inner, _, _, h, h' => by
    simp only [resolveWith, Except.bind_eq_ok] at h h'
    obtain ⟨u, hu, h⟩ := h
    obtain ⟨u', hu', h'⟩ := h'
    cases h
    cases h'
    have hinner := resolveWith_below hnames inner hu hu'
    exact hinner
  | union _ members, _, _, h, h' => by
    simp only [resolveWith, Except.bind_eq_ok] at h h'
    obtain ⟨us, hus, h⟩ := h
    obtain ⟨us', hus', h'⟩ := h'
    cases h
    cases h'
    exact resolveList_below hnames members hus hus'

theorem resolveList_below
    (hnames : ∀ span name t t', meaning span name = .ok t → meaning' span name = .ok t' →
      t.Below kinds kinds' t') : ∀ (es : List TypeExpr) {ts ts' : List Ty},
    resolveList meaning es = .ok ts → resolveList meaning' es = .ok ts' →
    ∀ d, Ty.someAdmits kinds ts d = true → Ty.someAdmits kinds' ts' d = true
  | [], _, _, h, h' => by
    cases h
    cases h'
    exact fun _ hd => hd
  | e :: es, _, _, h, h' => by
    simp only [resolveList, Except.bind_eq_ok] at h h'
    obtain ⟨u, hu, us, hus, h⟩ := h
    obtain ⟨u', hu', us', hus', h'⟩ := h'
    cases h
    cases h'
    intro d hd
    rw [Ty.someAdmits, Bool.or_eq_true] at hd ⊢
    rcases hd with hd | hd
    · exact .inl (resolveWith_below hnames e hu hu' d hd)
    · exact .inr (resolveList_below hnames es hus hus' d hd)

end

end TypeExpr

/-- A name stands for a type that can be seen, for a native type, or for what its alias does. -/
theorem Scopes.meaning_ok {s : Scopes} {aliases : Table AliasDecl} {more : Nat}
    {expanding : List String} {span : Span} {name : String} {t : Ty}
    (h : s.meaning aliases more expanding span name = .ok t) :
    s.type? name = some t ∨
    s.type? name = none ∧ (aliases.get? name = none ∧ t = .native name ∨
      ∃ decl fewer, aliases.get? name = some decl ∧ more = fewer + 1 ∧
        decl.ty.resolveWith (s.meaning aliases fewer (name :: expanding)) = .ok t) := by
  rw [meaning] at h
  split at h
  case h_1 _ _ ty htype =>
    cases h
    exact .inl htype
  case h_2 htype halias =>
    cases h
    exact .inr ⟨htype, .inl ⟨halias, rfl⟩⟩
  case h_3 decl htype halias =>
    split at h
    case isTrue => cases h
    case isFalse =>
      cases more with
      | zero => cases h
      | succ fewer => exact .inr ⟨htype, .inr ⟨decl, fewer, halias, rfl, h⟩⟩

/-- Names stand for smaller types where the types that can be seen are smaller. -/
theorem Scopes.meaning_below {free free' : String → Datum Thing → Bool} {s s' : Scopes}
    (hseen : ∀ name, Option.Rel (Ty.Below ⟨native, free⟩ ⟨native, free'⟩) (s.type? name)
      (s'.type? name))
    (aliases : Table AliasDecl) (more : Nat) (expanding : List String) (span : Span) (name : String)
    {t t' : Ty} (h : s.meaning aliases more expanding span name = .ok t)
    (h' : s'.meaning aliases more expanding span name = .ok t') :
    t.Below ⟨native, free⟩ ⟨native, free'⟩ t' := by
  induction more using Nat.strongRecOn generalizing expanding span name t t' with
  | ind more ih =>
    have hname := hseen name
    rcases meaning_ok h with htype | ⟨htype, hrest⟩
    · rcases meaning_ok h' with htype' | ⟨htype', -⟩
      · rw [htype, htype'] at hname
        cases hname with
        | some hbelow => exact hbelow
      · rw [htype, htype'] at hname
        cases hname
    · rcases meaning_ok h' with htype' | ⟨-, hrest'⟩
      · rw [htype, htype'] at hname
        cases hname
      · rcases hrest with ⟨halias, rfl⟩ | ⟨decl, fewer, halias, rfl, hdecl⟩
        · rcases hrest' with ⟨-, rfl⟩ | ⟨decl, _, halias', -, -⟩
          · exact fun _ hd => hd
          · rw [halias] at halias'
            cases halias'
        · rcases hrest' with ⟨halias', -⟩ | ⟨decl', _, halias', hfewer, hdecl'⟩
          · rw [halias] at halias'
            cases halias'
          · -- Both names are aliases, and so of the same annotation.
            cases halias.symm.trans halias'
            cases hfewer
            exact TypeExpr.resolveWith_below
              (fun span name _ _ => ih fewer (Nat.lt_succ_self fewer) (_ :: expanding) span name)
              decl.ty hdecl hdecl'

/-- **An annotation stands for a smaller type where the types that can be seen are smaller.** -/
theorem Env.resolve_below {free free' : String → Datum Thing → Bool} {env env' : Env}
    (hd : env.declarations = env'.declarations)
    (hseen : ∀ name, Option.Rel (Ty.Below ⟨native, free⟩ ⟨native, free'⟩) (env.scopes.type? name)
      (env'.scopes.type? name)) {e : TypeExpr} {t t' : Ty} (h : env.resolve e = .ok t)
    (h' : env'.resolve e = .ok t') : t.Below ⟨native, free⟩ ⟨native, free'⟩ t' := by
  rw [resolve, resolveIn] at h h'
  rw [← hd] at h'
  exact TypeExpr.resolveWith_below
    (fun span name _ _ => Scopes.meaning_below hseen _ _ _ span name) e h h'

end

/-! ## Calls -/

namespace FunctionDecl

/-- A name that is declared as a generic stands for that generic. -/
theorem get?_declareGenerics {env : Env} {kind : ScopeKind} {vars : Table Binding}
    {types types' : Table Ty} {outer : List Scope} {gs : List GenericParam}
    (h : declareGenerics env ⟨⟨kind, vars, types⟩ :: outer⟩ gs =
      .ok ⟨⟨kind, vars, types'⟩ :: outer⟩) (name : String) :
    name ∉ gs.map (·.name) ∧ types'.get? name = types.get? name ∨
    name ∈ gs.map (·.name) ∧ ∃ bound, types'.get? name = some (.generic name bound) := by
  induction gs generalizing types with
  | nil =>
    cases h
    exact .inl ⟨List.not_mem_nil, rfl⟩
  | cons g gs ih =>
    obtain ⟨bound, -, h⟩ := declareGenerics_cons_ok h
    rcases ih h with ⟨hnot, hget⟩ | ⟨hmem, hget⟩
    · by_cases hname : name = g.name
      · subst hname
        exact .inr ⟨List.mem_cons_self, bound, hget.trans (Table.get?_insert_self _ _ _)⟩
      · refine .inl ⟨?_, hget.trans (Table.get?_insert_of_ne _ _ hname)⟩
        rw [List.map_cons, List.mem_cons]
        rintro (heq | hmem)
        · exact hname heq
        · exact hnot hmem
    · exact .inr ⟨List.mem_cons_of_mem _ hmem, hget⟩

/-- A generic that was bound is a name of its binding. -/
theorem get?_bindGenerics {bindings : Bindings} {kind : ScopeKind} {vars : Table Binding}
    {types types' : Table Ty} {outer : List Scope} {gs : List GenericParam}
    (h : bindGenerics bindings ⟨⟨kind, vars, types⟩ :: outer⟩ gs =
      ⟨⟨kind, vars, types'⟩ :: outer⟩) (name : String) :
    types'.get? name =
      if name ∈ gs.map (·.name) then (bindings.get? name).or (types.get? name)
      else types.get? name := by
  induction gs generalizing types with
  | nil =>
    cases h
    rfl
  | cons g gs ih =>
    simp only [bindGenerics, List.foldl_cons] at h
    by_cases hname : name = g.name
    · subst hname
      cases hfound : bindings.get? g.name with
      | none =>
        rw [hfound] at h
        rw [ih h, hfound]
        simp
      | some ty =>
        rw [hfound] at h
        rw [ih h, hfound, Table.get?_insert_self]
        simp
    · have hrest : types'.get? name =
          if name ∈ gs.map (·.name) then (bindings.get? name).or (types.get? name)
          else types.get? name := by
        cases hfound : bindings.get? g.name with
        | none =>
          rw [hfound] at h
          exact ih h
        | some ty =>
          rw [hfound] at h
          rw [ih h, Table.get?_insert_of_ne _ _ hname]
      rw [hrest]
      simp [hname]

/-- The steps of the first argument of a call. -/
theorem checkArguments_cons_ok {env : Env} {function : String} {span : Span} {index : Nat}
    {bindings bindings' : Bindings} {p : Param} {given : Ty} {args : List (Param × Ty)}
    (h : checkArguments env function span index bindings ((p, given) :: args) = .ok bindings') :
    ∃ wanted bindings₁, env.resolve p.ty = .ok wanted ∧
      Ty.fitsWith bindings wanted given span = .ok (true, bindings₁) ∧
      checkArguments env function span (index + 1) bindings₁ args = .ok bindings' := by
  rw [checkArguments, Except.bind_eq_ok] at h
  obtain ⟨wanted, hwanted, h⟩ := h
  rw [Except.bind_eq_ok] at h
  obtain ⟨bindings₁, hargument, h⟩ := h
  exact ⟨wanted, bindings₁, hwanted, Value.checkArgument_ok.mp hargument, h⟩

/-- What the comparisons of the arguments with their parameters keep is kept by the whole call. -/
theorem checkArguments_keeps {I : Bindings → Prop} {env : Env} {function : String} {span : Span}
    {index : Nat} {bindings bindings' : Bindings} {args : List (Param × Ty)}
    (hkeeps : ∀ arg ∈ args, ∀ wanted, env.resolve arg.1.ty = .ok wanted → ∀ depth,
      Solve.Keeps I (Solve.compare depth wanted arg.2))
    (hs : I bindings) (h : checkArguments env function span index bindings args = .ok bindings') :
    I bindings' := by
  induction args generalizing index bindings with
  | nil =>
    cases h
    exact hs
  | cons arg rest ih =>
    obtain ⟨harg, hrest⟩ := List.forall_mem_cons.mp hkeeps
    obtain ⟨wanted, bindings₁, hwanted, hfits, h⟩ := checkArguments_cons_ok h
    exact ih hrest (harg wanted hwanted _ _ _ _ hs (Ty.fitsWith_ok hfits)) h

/-- The arguments bind more generics but change none that is bound. -/
theorem checkArguments_grows {env : Env} {function : String} {span : Span} {index : Nat}
    {bindings bindings' : Bindings} {args : List (Param × Ty)}
    (h : checkArguments env function span index bindings args = .ok bindings') :
    bindings.Grows bindings' := by
  refine checkArguments_keeps (fun _ _ wanted _ depth => ?_) (.refl bindings) h
  intro s fits s' hs hrun
  exact hs.trans ((Solve.compare_growing depth wanted _).ok hrun)

/-- Each argument fits its parameter when it is looked at, and all that is bound by then stays
bound. -/
theorem checkArguments_each {env : Env} {function : String} {span : Span} {index : Nat}
    {bindings bindings' : Bindings} {args : List (Param × Ty)}
    (h : checkArguments env function span index bindings args = .ok bindings') {p : Param}
    {given : Ty} (hmem : (p, given) ∈ args) :
    ∃ wanted s s', env.resolve p.ty = .ok wanted ∧
      Ty.fitsWith s wanted given span = .ok (true, s') ∧ s'.Grows bindings' := by
  induction args generalizing index bindings with
  | nil => cases hmem
  | cons arg rest ih =>
    obtain ⟨wanted, bindings₁, hwanted, hfits, hrest⟩ := checkArguments_cons_ok h
    rcases List.mem_cons.mp hmem with rfl | hmem
    · exact ⟨wanted, bindings, bindings₁, hwanted, hfits, checkArguments_grows hrest⟩
    · exact ih hrest hmem

/-- The annotations of parameters admit what the arguments admit, with the bindings that all
arguments together lead to. -/
theorem checkArguments_below {env : Env} {function : String} {span : Span} {index : Nat}
    {bindings bindings' : Bindings} {args : List (Param × Ty)} {kinds : Kinds Thing}
    (h : checkArguments env function span index bindings args = .ok bindings')
    (hadmitted : bindings'.Admitted kinds) {p : Param} {given : Ty} (hmem : (p, given) ∈ args) :
    ∃ wanted, env.resolve p.ty = .ok wanted ∧ given.Below kinds kinds wanted := by
  obtain ⟨wanted, s, s', hwanted, hfits, hgrows⟩ := checkArguments_each h hmem
  exact ⟨wanted, hwanted, Ty.fitsWith_below hfits (hadmitted.of_grows hgrows)⟩

/-- **A parameter admits what its argument admits**, if the type of the argument has no generics. -/
theorem Typed.below_param {declarations : Declarations} {decl : FunctionDecl} {args : List Ty}
    {generics types : Table Ty} {p : Param} {given ty : Ty}
    (h : Typed declarations decl args generics types) (hgiven : given.hasGeneric = false)
    (hmem : (p, given) ∈ decl.params.zip args)
    (hty : (declarations.within types).resolve p.ty = .ok ty) :
    given.Below (.open_ native) (.open_ native) ty := by
  obtain ⟨bindings, hbindings, htypes⟩ := h.bound
  have hdeclared := h.declared { declarations, maxInlineDepth := 0 } rfl []
  have hadmitted := Bindings.admitted_bound native bindings
  obtain ⟨wanted, hwanted, hargument⟩ := checkArguments_below
    (hbindings { declarations, maxInlineDepth := 0 } rfl [] decl.span) hadmitted hmem
  have hresolved : wanted.Below (.bound native bindings) (.open_ native) ty := by
    refine Env.resolve_below ?_ (fun name => ?_) hwanted hty
    · rfl
    rw [Scopes.type?_function rfl, Declarations.type?_within, get?_bindGenerics (htypes [])]
    rcases get?_declareGenerics hdeclared name with ⟨hnot, hget⟩ | ⟨hname, bound, hget⟩
    -- A name that is no generic of the function is seen on neither side. A generic is seen as
    -- itself where the arguments are checked, and as the type it is bound to inside the call.
    · rw [if_neg hnot, hget]
      exact .none
    · rw [if_pos hname, hget]
      cases hfound : bindings.get? name with
      | none => exact .some fun _ _ => rfl
      | some found =>
        refine .some fun d hd => ?_
        have hd : (bindings.get? name).all (·.admits (.open_ native) d) = true := hd
        rw [hfound] at hd
        exact hd
  -- A datum goes from the type of the argument to the annotation as the check has read it, and
  -- from there to the annotation as the call reads it.
  intro d hd
  exact hresolved d (hargument d (Ty.below_bound hgiven bindings d hd))

end FunctionDecl

end RuleScript
