import RuleScript.Proofs.Lowering.Inversion

/-!
# Scopes while a program is lowered

The statements of a body change the scopes in one way only: each declares at most one variable in
the innermost scope, under a name that is not taken there. A function closes off what is outside it,
so that its types and those of its parameters do not depend on where it is called from.

## Main definitions

* `Scopes.Declares`: scopes after some more declarations in the innermost one
* `Scope.result?`: where the inlined function that a scope belongs to leaves its value
* `Scopes.Binds`, `Scopes.Constants`: what is bound in the open scopes

## Main results

* `Env.resolveIn_congr`: an annotation depends on the types that can be seen and on nothing else
* `FunctionDecl.declareGenerics_entered`, `FunctionDecl.bindGenerics_entered`: the types of a call
  do not depend on the scopes around it
-/

namespace RuleScript

/-- Where the inlined function that the scope belongs to leaves its value. -/
def Scope.result? (scope : Scope) : Option ReturnSlot :=
  match scope.kind with
  | .function _ ret => ret
  | _ => none

namespace Scopes

variable {s : Scopes} {scope : Scope} {outer : List Scope} {name : String} {b : Binding}

@[simp] theorem declare_cons : (⟨scope :: outer⟩ : Scopes).declare name b =
    ⟨{ scope with bindings := scope.bindings.insert name b } :: outer⟩ := rfl

@[simp] theorem declareType_cons {ty : Ty} : (⟨scope :: outer⟩ : Scopes).declareType name ty =
    ⟨{ scope with types := scope.types.insert name ty } :: outer⟩ := rfl

@[simp] theorem depth_declare : (s.declare name b).depth = s.depth := depth_modifyCurrent _ _

@[simp] theorem declaredHere_cons :
    (⟨scope :: outer⟩ : Scopes).declaredHere name = scope.bindings.contains name := rfl

/-- What can be seen is the innermost scope, and what can be seen behind it unless it belongs to a
function. -/
theorem visible_cons : (⟨scope :: outer⟩ : Scopes).visible =
    scope :: if scope.kind.isFunction then [] else (⟨outer⟩ : Scopes).visible := by
  show upToFunction (scope :: outer) = _
  rw [upToFunction]
  split
  · rfl
  · rfl

theorem visible_push {kind : ScopeKind} (h : kind.isFunction = false) :
    (s.push kind).visible = { kind } :: s.visible := by
  show (⟨{ kind } :: s.open_⟩ : Scopes).visible = _
  rw [visible_cons]
  simp [h]

theorem type?_push {kind : ScopeKind} (h : kind.isFunction = false) :
    (s.push kind).type? name = s.type? name := by
  rw [type?, visible_push h]
  rfl

theorem type?_function (h : scope.kind.isFunction = true) :
    (⟨scope :: outer⟩ : Scopes).type? name = scope.types.get? name := by
  rw [type?, visible_cons, if_pos h]
  simp

theorem type?_singleton : (⟨[scope]⟩ : Scopes).type? name = scope.types.get? name := by
  rw [type?, visible_cons]
  cases hty : scope.types.get? name <;> split <;> simp [hty, visible, upToFunction]

theorem type?_declare {other : String} : (s.declare name b).type? other = s.type? other := by
  obtain ⟨l⟩ := s
  cases l with
  | nil => rfl
  | cons scope outer =>
    rw [declare_cons, type?, type?, visible_cons, visible_cons]
    rfl

theorem enclosingLoop?_declare : (s.declare name b).enclosingLoop? = s.enclosingLoop? := by
  obtain ⟨l⟩ := s
  cases l <;> rfl

theorem enclosingFunction?_declare :
    (s.declare name b).enclosingFunction? = s.enclosingFunction? := by
  obtain ⟨l⟩ := s
  cases l <;> rfl

/-- The nearest function is the one whose scope is the last that can be seen. -/
theorem enclosingFunction?_eq_some {function : String} {r : ReturnSlot}
    (h : s.enclosingFunction? = some (function, some r)) :
    ∃ scope ∈ s.visible, scope.result? = some r ∧ scope.kind.isFunction = true := by
  obtain ⟨l⟩ := s
  induction l with
  | nil => cases h
  | cons scope outer ih =>
    rw [visible_cons]
    cases hk : scope.kind with
    | function name ret =>
      simp only [enclosingFunction?, List.findSome?_cons, hk, Option.some.injEq,
        Prod.mk.injEq] at h
      obtain ⟨-, rfl⟩ := h
      exact ⟨scope, List.mem_cons_self, by simp [Scope.result?, hk],
        by simp [hk, ScopeKind.isFunction]⟩
    | block =>
      simp only [enclosingFunction?, List.findSome?_cons, hk] at h
      obtain ⟨found, hmem, hfound⟩ := ih h
      exact ⟨found, List.mem_cons_of_mem _ (by simpa [ScopeKind.isFunction] using hmem), hfound⟩
    | loop step =>
      simp only [enclosingFunction?, List.findSome?_cons, hk] at h
      obtain ⟨found, hmem, hfound⟩ := ih h
      exact ⟨found, List.mem_cons_of_mem _ (by simpa [ScopeKind.isFunction] using hmem), hfound⟩

/-- A function is the last whose scope can be seen. -/
theorem getLast?_visible (h : scope ∈ s.visible) (hscope : scope.kind.isFunction = true) :
    s.visible.getLast? = some scope := by
  obtain ⟨l⟩ := s
  -- From the innermost scope outwards: nothing behind the scope of a function can be seen.
  induction l with
  | nil => cases h
  | cons first outer ih =>
    rw [visible_cons] at h ⊢
    split at h
    case isTrue hfirst =>
      obtain rfl := List.mem_singleton.mp h
      rw [if_pos hfirst]
      rfl
    case isFalse hfirst =>
      rw [if_neg hfirst]
      rcases List.mem_cons.mp h with rfl | h
      · exact absurd hscope hfirst
      · rw [List.getLast?_cons, ih h]
        rfl

theorem visible_prefix (s : Scopes) : s.visible <+: s.open_ := by
  obtain ⟨l⟩ := s
  induction l with
  | nil => exact List.prefix_refl _
  | cons scope outer ih =>
    rw [visible_cons]
    refine List.cons_prefix_cons.mpr ⟨rfl, ?_⟩
    split
    · exact List.nil_prefix
    · exact ih

/-- The place of a scope that can be seen. -/
theorem exists_of_mem_visible (h : scope ∈ s.visible) :
    ∃ i < s.visible.length, s.open_[i]? = some scope := by
  obtain ⟨i, hlt, rfl⟩ := List.mem_iff_getElem.mp h
  obtain ⟨rest, hrest⟩ := s.visible_prefix
  refine ⟨i, hlt, ?_⟩
  rw [← hrest, List.getElem?_append_left hlt, List.getElem?_eq_getElem hlt]

/-! ## Declarations -/

/-- Scopes after some more declarations in the innermost one. Each variable has the slot of its name
at the depth of the scope. -/
inductive Declares (slots : Slots) (s : Scopes) : Scopes → Prop
  | refl : Declares slots s s
  | declare {s' : Scopes} {name : String} {b : Binding} {slot : Slot} :
    Declares slots s s' → s'.declaredHere name = false → b.value = .slot slot →
    slots.get? ⟨name, s'.depth⟩ = some slot → Declares slots s (s'.declare name b)

namespace Declares

variable {slots : Slots} {s' : Scopes}

theorem depth_eq (h : Declares slots s s') : s'.depth = s.depth := by
  induction h with
  | refl => rfl
  | declare _ _ _ _ ih => rw [depth_declare, ih]

theorem type?_eq (h : Declares slots s s') : s'.type? name = s.type? name := by
  induction h with
  | refl => rfl
  | declare _ _ _ _ ih => rw [type?_declare, ih]

theorem enclosingLoop?_eq (h : Declares slots s s') : s'.enclosingLoop? = s.enclosingLoop? := by
  induction h with
  | refl => rfl
  | declare _ _ _ _ ih => rw [enclosingLoop?_declare, ih]

theorem enclosingFunction?_eq (h : Declares slots s s') :
    s'.enclosingFunction? = s.enclosingFunction? := by
  induction h with
  | refl => rfl
  | declare _ _ _ _ ih => rw [enclosingFunction?_declare, ih]

theorem trans {s'' : Scopes} (h : Declares slots s s') (h' : Declares slots s' s'') :
    Declares slots s s'' := by
  induction h' with
  | refl => exact h
  | declare _ hhere hb hslot ih => exact ih.declare hhere hb hslot

theorem extend {slots' : Slots} (h : Declares slots s s')
    (hget : ∀ {key slot}, slots.get? key = some slot → slots'.get? key = some slot) :
    Declares slots' s s' := by
  induction h with
  | refl => exact .refl
  | declare _ hhere hb hslot ih => exact ih.declare hhere hb (hget hslot)

/-- The innermost scope has the same kind, the same types and all its variables, and there is
nothing new behind it. -/
theorem cons (h : Declares slots ⟨scope :: outer⟩ s') : ∃ bindings,
    s' = ⟨{ scope with bindings } :: outer⟩ ∧
      ∀ {name b}, scope.bindings.get? name = some b → bindings.get? name = some b := by
  induction h with
  | refl => exact ⟨scope.bindings, rfl, id⟩
  | @declare s' name b slot _ hhere _ _ ih =>
    obtain ⟨bindings, rfl, hkept⟩ := ih
    refine ⟨bindings.insert name b, rfl, fun {other b'} hother => ?_⟩
    have hne : other ≠ name := by
      rintro rfl
      have hnone : bindings.get? other = none := by simpa [Table.contains] using hhere
      rw [hkept hother] at hnone
      cases hnone
    rw [Table.get?_insert_of_ne _ _ hne]
    exact hkept hother

theorem declaredHere_eq_false (h : Declares slots s s') (hhere : s'.declaredHere name = false) :
    s.declaredHere name = false := by
  obtain ⟨l⟩ := s
  cases l with
  | nil => rfl
  | cons scope outer =>
    obtain ⟨bindings, rfl, hkept⟩ := h.cons
    have hnone : bindings.get? name = none := by simpa [Table.contains] using hhere
    have : scope.bindings.get? name = none := by
      rw [Option.eq_none_iff_forall_ne_some]
      intro b hb
      rw [hkept hb] at hnone
      cases hnone
    simp [Table.contains, this]

end Declares

end Scopes

/-! ## Annotations -/

/-- What a name stands for depends on the types that can be seen. -/
theorem Scopes.meaning_congr {s s' : Scopes} (h : ∀ name, s.type? name = s'.type? name)
    (aliases : Table AliasDecl) (more : Nat) (expanding : List String) :
    s.meaning aliases more expanding = s'.meaning aliases more expanding := by
  induction more generalizing expanding with
  | zero =>
    funext span name
    rw [meaning, meaning, h name]
  | succ more ih =>
    funext span name
    rw [meaning, meaning, h name]
    simp only [ih]

/-- **An annotation depends on the types that can be seen and on nothing else.** -/
theorem Env.resolveIn_congr {env env' : Env} {s s' : Scopes}
    (hd : env.declarations = env'.declarations) (h : ∀ name, s.type? name = s'.type? name)
    (ty : TypeExpr) : env.resolveIn s ty = env'.resolveIn s' ty := by
  rw [Env.resolveIn, Env.resolveIn, Scopes.meaning_congr h, hd]

theorem Env.resolve?_congr {env env' : Env} (hd : env.declarations = env'.declarations)
    (h : ∀ name, env.scopes.type? name = env'.scopes.type? name) (ty : Option TypeExpr) :
    env.resolve? ty = env'.resolve? ty := by
  cases ty with
  | none => rfl
  | some ty => rw [Env.resolve?, Env.resolve?, Env.resolve, Env.resolve, Env.resolveIn_congr hd h]

/-- Where a comparison of types is asked for does not matter to its answer. -/
theorem Ty.fitsWith_span {bindings : Bindings} {constraint candidate : Ty} {span span' : Span}
    {answer : Bool × Bindings}
    (h : Ty.fitsWith bindings constraint candidate span = .ok answer) :
    Ty.fitsWith bindings constraint candidate span' = .ok answer := by
  rw [Ty.fitsWith] at h ⊢
  split at h
  · exact h
  · cases h

/-- An answer to whether a value fits is that of a comparison. -/
theorem Ty.fitsWith_ok {bindings bindings' : Bindings} {constraint candidate : Ty} {span : Span}
    {fits : Bool} (h : Ty.fitsWith bindings constraint candidate span = .ok (fits, bindings')) :
    Solve.compare (Solve.depthBound bindings constraint candidate) constraint candidate bindings =
      .ok fits bindings' := by
  unfold fitsWith at h
  split at h
  · rename_i hrun
    cases h
    exact hrun
  · cases h

/-- An argument that suits its parameter fits it. -/
theorem Value.checkArgument_ok {function : String} {index : Nat} {wanted given : Ty} {span : Span}
    {bindings bindings' : Bindings} :
    checkArgument function index wanted given span bindings = .ok bindings' ↔
      Ty.fitsWith bindings wanted given span = .ok (true, bindings') := by
  rw [checkArgument, Except.bind_eq_ok]
  constructor
  · rintro ⟨⟨fits, b⟩, hfits, h⟩
    cases fits with
    | true =>
      cases h
      exact hfits
    | false => cases h
  · intro h
    exact ⟨_, h, rfl⟩

theorem Value.checkArgument_span {function : String} {index : Nat} {wanted given : Ty}
    {span span' : Span} {bindings bindings' : Bindings}
    (h : checkArgument function index wanted given span bindings = .ok bindings') :
    checkArgument function index wanted given span' bindings = .ok bindings' :=
  checkArgument_ok.mpr (Ty.fitsWith_span (checkArgument_ok.mp h))

namespace FunctionDecl

variable {env env' : Env} {scope : Scope} {outer : List Scope}

/-- The first generic is declared with what its bound stands for in the scopes at hand. -/
theorem declareGenerics_cons_ok {scopes scopes' : Scopes} {g : GenericParam}
    {gs : List GenericParam} (h : declareGenerics env scopes (g :: gs) = .ok scopes') :
    ∃ bound, (∀ b, bound = some b → ∃ e, g.bound = some e ∧ env.resolveIn scopes e = .ok b) ∧
      declareGenerics env (scopes.declareType g.name (.generic g.name bound)) gs = .ok scopes' := by
  rw [declareGenerics] at h
  cases hbound : g.bound with
  | none =>
    rw [hbound] at h
    refine ⟨none, ?_, h⟩
    rintro _ ⟨⟩
  | some e =>
    simp only [hbound, pure_bind, Except.bind_eq_ok] at h
    obtain ⟨ty, hty, h⟩ := h
    refine ⟨some ty, ?_, h⟩
    rintro _ ⟨⟩
    exact ⟨e, rfl, hty⟩

/-- Declaring the generics of a function changes the types of its scope, in a way that does not
depend on the scopes around it. -/
theorem declareGenerics_entered {gs : List GenericParam} {scopes : Scopes}
    (hscope : scope.kind.isFunction = true)
    (h : declareGenerics env ⟨scope :: outer⟩ gs = .ok scopes) :
    ∃ types, scopes = ⟨{ scope with types } :: outer⟩ ∧
      ∀ (env' : Env) (outer' : List Scope), env.declarations = env'.declarations →
        declareGenerics env' ⟨scope :: outer'⟩ gs = .ok ⟨{ scope with types } :: outer'⟩ := by
  induction gs generalizing scope with
  | nil =>
    cases h
    exact ⟨scope.types, rfl, fun _ _ _ => rfl⟩
  | cons g gs ih =>
    have hseen : ∀ outer' name, (⟨scope :: outer⟩ : Scopes).type? name =
        (⟨scope :: outer'⟩ : Scopes).type? name := by
      intro outer' name
      rw [Scopes.type?_function hscope, Scopes.type?_function hscope]
    rw [declareGenerics] at h
    cases hbound : g.bound with
    | none =>
      simp only [hbound, pure_bind, Scopes.declareType_cons] at h
      obtain ⟨types, rfl, hdone⟩ := ih (by exact hscope) h
      refine ⟨types, rfl, fun env' outer' hd => ?_⟩
      simp only [declareGenerics, hbound, pure_bind, Scopes.declareType_cons]
      exact hdone env' outer' hd
    | some bound =>
      simp only [hbound, pure_bind, Except.bind_eq_ok, Scopes.declareType_cons] at h
      obtain ⟨ty, hty, h⟩ := h
      obtain ⟨types, rfl, hdone⟩ := ih (by exact hscope) h
      refine ⟨types, rfl, fun env' outer' hd => ?_⟩
      simp only [declareGenerics, hbound, pure_bind, Except.bind_eq_ok, Scopes.declareType_cons,
        ← Env.resolveIn_congr hd (hseen outer')]
      exact ⟨ty, hty, hdone env' outer' hd⟩

/-- Letting the generics stand for types changes the types of the innermost scope only. -/
theorem bindGenerics_entered (bindings : Bindings) (scope : Scope) (gs : List GenericParam) :
    ∃ types, ∀ outer, bindGenerics bindings ⟨scope :: outer⟩ gs =
      ⟨{ scope with types } :: outer⟩ := by
  induction gs generalizing scope with
  | nil => exact ⟨scope.types, fun _ => rfl⟩
  | cons g gs ih =>
    simp only [bindGenerics, List.foldl_cons]
    cases bindings.get? g.name with
    | none => exact ih scope
    | some ty => exact ih { scope with types := scope.types.insert g.name ty }

/-- Whether the arguments of a call suit its parameters does not depend on the scopes around it, nor
on where the call stands. -/
theorem checkArguments_entered {function : String} {span span' : Span} {index : Nat}
    {bindings bindings' : Bindings} {args : List (Param × Ty)}
    (hd : env.declarations = env'.declarations)
    (hseen : ∀ name, env.scopes.type? name = env'.scopes.type? name)
    (h : checkArguments env function span index bindings args = .ok bindings') :
    checkArguments env' function span' index bindings args = .ok bindings' := by
  induction args generalizing index bindings with
  | nil => exact h
  | cons arg rest ih =>
    obtain ⟨p, given⟩ := arg
    rw [checkArguments, Except.bind_eq_ok] at h
    obtain ⟨ty, hty, h⟩ := h
    rw [Except.bind_eq_ok] at h
    obtain ⟨bindings₁, hargument, h⟩ := h
    rw [checkArguments, Env.resolve, ← Env.resolveIn_congr hd hseen, ← Env.resolve, hty]
    show (Value.checkArgument function index ty given span' bindings >>= _) = _
    rw [Except.bind_eq_ok]
    exact ⟨bindings₁, Value.checkArgument_span hargument, ih h⟩

/-! ## Entering a call -/

/-- What is bound at the start of a call, before the parameters are. -/
def returnBindings : Option ReturnSlot → Table Binding
  | none => .empty
  | some r => Table.empty.insert returnLabel ⟨r.ty, false, .slot r.slot⟩

/-- The scopes at the start of a call. -/
def enteredScopes (function : String) (types : Table Ty) (ret : Option ReturnSlot)
    (outer : List Scope) : Scopes :=
  ⟨⟨.function function ret, returnBindings ret, types⟩ :: outer⟩

theorem declareReturn_entered (function : String) (types : Table Ty) (ret : Option ReturnSlot)
    (outer : List Scope) :
    declareReturn ⟨⟨.function function none, .empty, types⟩ :: outer⟩ function ret =
      enteredScopes function types ret outer := by
  cases ret with
  | none => rfl
  | some r => rfl

theorem get?_returnBindings {ret : Option ReturnSlot} {name : String} {b : Binding}
    (h : (returnBindings ret).get? name = some b) :
    name = returnLabel ∧ ∃ r, ret = some r ∧ b = ⟨r.ty, false, .slot r.slot⟩ := by
  cases ret with
  | none => cases h
  | some r =>
    by_cases hname : name = returnLabel
    · subst hname
      have hb : some ⟨r.ty, false, .slot r.slot⟩ = some b :=
        (Table.get?_insert_self _ _ _).symm.trans h
      cases hb
      exact ⟨rfl, r, rfl, rfl⟩
    · have hb := (Table.get?_insert_of_ne _ _ hname).symm.trans h
      cases hb

/-- The environment of the body of a call, before its parameters are declared. -/
def enteredEnv (env : Env) (decl : FunctionDecl) (types : Table Ty) (ret : Option ReturnSlot) :
    Env :=
  { env with
    inlining := decl.name :: env.inlining
    scopes := enteredScopes decl.name types ret env.scopes.open_ }

/-- The environment of the body of a call has the scope of the function in front. -/
theorem entered_eq {decl : FunctionDecl} {generics : Scopes} (bindings : Bindings)
    (ret : Option ReturnSlot)
    (h : declareGenerics env (env.scopes.push (.function decl.name none)) decl.generics =
      .ok generics) :
    ∃ types, entered env decl (bindGenerics bindings generics decl.generics) ret =
      enteredEnv env decl types ret := by
  obtain ⟨gtypes, rfl, -⟩ := declareGenerics_entered rfl h
  obtain ⟨types, htypes⟩ :=
    bindGenerics_entered bindings ⟨.function decl.name none, .empty, gtypes⟩ decl.generics
  refine ⟨types, ?_⟩
  rw [entered, enteredEnv, ← declareReturn_entered, ← htypes]

/-- The types of a call: those of its generics as declared, and as bound by its arguments. They do
not depend on the scopes around the call. -/
structure Typed (declarations : Declarations) (decl : FunctionDecl) (args : List Ty)
    (generics types : Table Ty) : Prop where
  declared : ∀ env : Env, env.declarations = declarations → ∀ outer,
    declareGenerics env ⟨⟨.function decl.name none, .empty, .empty⟩ :: outer⟩ decl.generics =
      .ok ⟨⟨.function decl.name none, .empty, generics⟩ :: outer⟩
  bound : ∃ bindings, (∀ env : Env, env.declarations = declarations → ∀ outer span,
      checkArguments { env with scopes := ⟨⟨.function decl.name none, .empty, generics⟩ :: outer⟩ }
        decl.name span 0 .empty (decl.params.zip args) = .ok bindings) ∧
    ∀ outer, bindGenerics bindings ⟨⟨.function decl.name none, .empty, generics⟩ :: outer⟩
      decl.generics = ⟨⟨.function decl.name none, .empty, types⟩ :: outer⟩

/-- A call whose arguments suit its parameters has types, and its scope holds them. -/
theorem typed_of_ok {decl : FunctionDecl} {args : List Ty} {span : Span} {generics : Scopes}
    {bindings : Bindings}
    (hgenerics : declareGenerics env (env.scopes.push (.function decl.name none)) decl.generics =
      .ok generics)
    (hbindings : checkArguments { env with scopes := generics } decl.name span 0 .empty
      (decl.params.zip args) = .ok bindings) :
    ∃ gtypes types, Typed env.declarations decl args gtypes types ∧
      bindGenerics bindings generics decl.generics =
        ⟨⟨.function decl.name none, .empty, types⟩ :: env.scopes.open_⟩ := by
  obtain ⟨gtypes, rfl, hdeclared⟩ := declareGenerics_entered rfl hgenerics
  obtain ⟨types, htypes⟩ :=
    bindGenerics_entered bindings ⟨.function decl.name none, .empty, gtypes⟩ decl.generics
  refine ⟨gtypes, types, ⟨fun env' hd outer => hdeclared env' outer hd.symm, bindings,
    fun env' hd outer span' => ?_, htypes⟩, htypes env.scopes.open_⟩
  refine checkArguments_entered ?_ (fun name => ?_) hbindings
  · exact hd.symm
  -- Nothing behind the scope of the function can be seen from the annotations.
  · show (⟨_ :: _⟩ : Scopes).type? name = (⟨_ :: _⟩ : Scopes).type? name
    rw [Scopes.type?_function rfl, Scopes.type?_function rfl]

/-- The steps of the body of a call, with the scope of the function written out. -/
theorem inline_entered_ok {splice? : Option Splice} {decl : FunctionDecl} {args : List Value}
    {span : Span} {out : Spliced} {st st' : LowerState}
    (h : inline splice? env decl args span st = .ok out st') :
    ∃ generics types ret scopes params body t₁ t₂,
      Typed env.declarations decl (args.map (·.ty)) generics types ∧
      reserveReturn { env with scopes := ⟨⟨.function decl.name none, .empty, types⟩ ::
        env.scopes.open_⟩ } decl span
        { st with log := .inlining decl.name env.inlining.length :: st.log } = .ok ret t₁ ∧
      bindParams (enteredEnv env decl types ret) (decl.params.zip args) t₁ =
        .ok (scopes, params) t₂ ∧
      Stmt.lowerBody { enteredEnv env decl types ret with scopes } splice? decl.body t₂ =
        .ok body st' ∧
      out = ⟨params ++ body, ret⟩ := by
  obtain ⟨generics, bindings, ret, scopes', params, body, t₁, t₂, hgenerics, hbindings, hret,
    hparams, hbody, rfl⟩ := inline_ok h
  obtain ⟨gtypes, types, htyped, hentered⟩ := typed_of_ok hgenerics hbindings
  simp only [hentered, entered, declareReturn_entered] at hret hparams hbody
  exact ⟨gtypes, types, ret, scopes', params, body, t₁, t₂, htyped, hret, hparams, hbody, rfl⟩

end FunctionDecl

/-! ## What is bound -/

namespace Scopes

variable {s : Scopes} {scope : Scope} {outer : List Scope} {b b' : Binding} {name : String}

/-- Something is bound so in an open scope. -/
def Binds (s : Scopes) (b : Binding) : Prop :=
  ∃ scope ∈ s.open_, ∃ name, scope.bindings.get? name = some b

theorem binds_cons : (⟨scope :: outer⟩ : Scopes).Binds b ↔
    (∃ name, scope.bindings.get? name = some b) ∨ (⟨outer⟩ : Scopes).Binds b := by
  simp [Binds]

theorem binds_push {kind : ScopeKind} : (s.push kind).Binds b ↔ s.Binds b := by
  rw [push, binds_cons]
  exact or_iff_right fun ⟨_, h⟩ => by cases h

theorem binds_of_binding? (h : s.binding? name = some b) : s.Binds b := by
  obtain ⟨scope, hscope, hb⟩ := List.exists_of_findSome?_eq_some h
  exact ⟨scope, s.visible_prefix.subset hscope, name, hb⟩

theorem binds_of_declare (h : (s.declare name b').Binds b) : b = b' ∨ s.Binds b := by
  obtain ⟨l⟩ := s
  cases l with
  | nil => exact .inr h
  | cons scope outer =>
    rw [declare_cons, binds_cons] at h
    rcases h with ⟨other, hother⟩ | houter
    · by_cases hname : other = name
      · subst hname
        rw [Table.get?_insert_self] at hother
        cases hother
        exact .inl rfl
      · rw [Table.get?_insert_of_ne _ _ hname] at hother
        exact .inr (binds_cons.mpr (.inl ⟨other, hother⟩))
    · exact .inr (binds_cons.mpr (.inr houter))

/-- The constants that are bound in open scopes have a property, with the types that they have. -/
def Constants (C : Ty → String → Prop) (s : Scopes) : Prop :=
  ∀ ty mutable text, s.Binds ⟨ty, mutable, .constant text⟩ → C ty text

namespace Constants

variable {C : Ty → String → Prop}

theorem empty : Scopes.empty.Constants C := fun _ _ _ ⟨_, hscope, _⟩ => by cases hscope

theorem of_binds {s' : Scopes} (h : s.Constants C) (hbinds : ∀ {b}, s'.Binds b → s.Binds b) :
    s'.Constants C :=
  fun ty mutable text hb => h ty mutable text (hbinds hb)

theorem push (h : s.Constants C) (kind : ScopeKind) : (s.push kind).Constants C :=
  h.of_binds binds_push.mp

theorem declare (h : s.Constants C) (name : String)
    (hb : ∀ text, b.value = .constant text → C b.ty text) : (s.declare name b).Constants C := by
  intro ty mutable text hdeclared
  rcases binds_of_declare hdeclared with rfl | hbound
  · exact hb text rfl
  · exact h ty mutable text hbound

/-- A variable is no constant. -/
theorem declareSlot (h : s.Constants C) (name : String) (ty : Ty) (mutable : Bool) (slot : Slot) :
    (s.declare name ⟨ty, mutable, .slot slot⟩).Constants C :=
  h.declare name fun _ htext => by cases htext

/-- What is bound at the start of a call is no constant. -/
theorem enter (h : s.Constants C) (function : String) (types : Table Ty)
    (ret : Option ReturnSlot) :
    (FunctionDecl.enteredScopes function types ret s.open_).Constants C := by
  intro ty mutable text hb
  rcases binds_cons.mp hb with ⟨name, hb⟩ | hb
  · obtain ⟨-, r, -, heq⟩ := FunctionDecl.get?_returnBindings hb
    cases heq
  · exact h ty mutable text hb

end Constants

end Scopes

/-- What a trigger provides has a property. -/
theorem EventDecl.declareArgs_constants {C : Ty → String → Prop} {span : Span}
    {args : List (String × EventArg)} {s scopes : Scopes} (hs : s.Constants C)
    (hargs : ∀ arg ∈ args, C arg.2.ty arg.2.target)
    (h : declareArgs span s args = .ok scopes) : scopes.Constants C := by
  induction args generalizing s with
  | nil =>
    cases h
    exact hs
  | cons arg rest ih =>
    obtain ⟨harg, hrestArgs⟩ := List.forall_mem_cons.mp hargs
    obtain ⟨-, hrest⟩ := declareArgs_cons_ok h
    refine ih (hs.declare arg.1 fun text htext => ?_) hrestArgs hrest
    cases htext
    exact harg

end RuleScript
