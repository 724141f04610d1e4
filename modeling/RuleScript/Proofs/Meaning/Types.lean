import RuleScript.Proofs.Lowering.Scopes
import RuleScript.Proofs.Run.Program

/-!
# Lowering and running agree on types

Running a program reads types off the variables that are there (`Expr.ty?`), and lowering reads them
off the scopes. Where both see the same variables and the same generics, an expression that is
lowered has the type that a run gives it, and a call has the types that a run gives it.

## Main definitions

* `Env.Sees`: an environment sees these types and these variables
* `Splice.Typed`: a call that is inlined has the types of its signature

## Main results

* `Expr.lower_ty`: an expression has the type of its lowered value
* `FunctionDecl.inline_signature`: the return value of a call has the type of its signature
-/

namespace RuleScript

/-- An environment sees these types and variables of these types. -/
structure Env.Sees (env : Env) (declarations : Declarations) (types : Table Ty)
    (vars : String → Option Ty) : Prop where
  declarations_eq : env.declarations = declarations
  type?_eq : ∀ name, env.scopes.type? name = types.get? name
  binding?_eq : ∀ name, (env.scopes.binding? name).map (·.ty) = vars name

/-- A call that is inlined has the types of its signature. -/
structure Splice.Typed (splice? : Option Splice) : Prop where
  signature : ∀ {splice env decl args span st out st'}, splice? = some splice →
    args.length = decl.params.length → splice env decl args span st = .ok out st' →
    ∃ signature, decl.signature? env.declarations (args.map (·.ty)) = some signature ∧
      out.ret.map (·.ty) = signature.ret

section

variable {env : Env} {declarations : Declarations} {types : Table Ty} {vars : String → Option Ty}

theorem Declarations.type?_within (name : String) :
    (declarations.within types).scopes.type? name = types.get? name :=
  Scopes.type?_singleton

/-- Where only types are seen, an annotation stands for what it stands for here. -/
theorem Env.Sees.resolve_within (h : env.Sees declarations types vars) (ty : TypeExpr) :
    (declarations.within types).resolve ty = env.resolve ty := by
  refine Env.resolveIn_congr h.declarations_eq.symm (fun name => ?_) ty
  rw [h.type?_eq, Declarations.type?_within]

theorem Env.Sees.resolve?_eq (h : env.Sees declarations types vars) {ty : TypeExpr} {t : Ty}
    (hty : env.resolve ty = .ok t) : declarations.resolve? types ty = some t := by
  rw [Declarations.resolve?, h.resolve_within, hty]
  rfl

namespace BinOp

/-- The type of an operation whose left operand has this type. -/
def typeOn (left : Ty) : BinOp → Ty
  | add => left
  | sub | mul | div => .number
  | eq | ne | lt | le | gt | ge | and | or => .boolean

theorem uniformType_ok {op : BinOp} {wanted left right ty : Ty} {span : Span}
    (h : op.uniformType wanted left right span = .ok ty) :
    ty = wanted ∧ left = wanted ∧ right = wanted := by
  unfold uniformType at h
  split at h
  · cases h
  case isFalse hne =>
    cases h
    simpa using hne

theorem comparisonType_ok {op : BinOp} {left right ty : Ty} {span : Span}
    (h : op.comparisonType left right span = .ok ty) : ty = .boolean := by
  rw [comparisonType, Except.bind_eq_ok] at h
  obtain ⟨⟨forth, bindings⟩, -, h⟩ := h
  cases forth with
  | false => cases h
  | true =>
    simp only [if_true, Except.bind_eq_ok] at h
    obtain ⟨⟨back, bindings'⟩, -, h⟩ := h
    cases back with
    | true =>
      cases h
      rfl
    | false => cases h

theorem sumType_ok {op : BinOp} {left right ty : Ty} {span : Span}
    (h : op.sumType left right span = .ok ty) :
    ty = left ∧ right = left ∧ (left = .number ∨ left = .string) := by
  unfold sumType at h
  split at h
  · cases h
  case isFalse hne =>
    split at h
    · cases h
    case isFalse hprimitive =>
      cases h
      refine ⟨rfl, ?_, ?_⟩
      · exact (Decidable.not_not.mp hne).symm
      · by_cases hnumber : left = .number
        · exact .inl hnumber
        · by_cases hstring : left = .string
          · exact .inr hstring
          · exact absurd ⟨hnumber, hstring⟩ hprimitive

/-- The type of an operation depends on its left operand at most. -/
theorem resultType_ok {op : BinOp} {left right ty : Ty} {span : Span}
    (h : op.resultType left right span = .ok ty) : ty = op.typeOn left := by
  cases op with
  | add => exact (sumType_ok h).1
  | sub | mul | div | and | or => exact (uniformType_ok h).1
  | eq | ne | lt | le | gt | ge => exact comparisonType_ok h

end BinOp

namespace Value

/-- The items of an array literal and its type. -/
theorem ofItems_ok {explicit : Option Ty} {items : List Value} {span : Span} {v : Value}
    (h : ofItems explicit items span = .ok v) : ∃ item, itemType explicit items span = .ok item ∧
      checkItems item span .empty items = .ok () ∧ v = .array (.array item) items := by
  simp only [ofItems, Except.bind_eq_ok] at h
  obtain ⟨item, hitem, u, hcheck, h⟩ := h
  cases h
  exact ⟨item, hitem, hcheck, rfl⟩

end Value

namespace Expr

/-- The value of a name has the type of the variable, or of the constant. -/
theorem ident_ty {span : Span} {name : String} {v : Value}
    (h : env.Sees declarations types vars) (hv : env.ident span name = .ok v) :
    (vars name).or ((ConstantDef.find? name).map (·.ty)) = some v.ty := by
  rw [← h.binding?_eq]
  unfold Env.ident at hv
  split at hv
  case h_1 ty _ slot hb =>
    cases hv
    rw [hb]
    rfl
  case h_2 ty _ text hb =>
    cases hv
    rw [hb]
    rfl
  case h_3 hb =>
    rw [hb]
    split at hv
    case h_1 c hc =>
      cases hv
      rw [hc]
      rfl
    case h_2 => cases hv

variable {splice? : Option Splice}

theorem lowerList_length {es : List Expr} {vs : LoweredList} {st st' : LowerState}
    (h : lowerList env splice? es st = .ok vs st') : vs.values.length = es.length := by
  induction es generalizing st vs with
  | nil =>
    obtain ⟨rfl, -⟩ := lowerList_nil_ok h
    rfl
  | cons e es ih =>
    obtain ⟨v, t, rest, -, hrest, rfl⟩ := lowerList_cons_ok h
    simp [ih hrest]

mutual

/-- **An expression has the type of its lowered value.** -/
theorem lower_ty {e : Expr} {out : Lowered} {st st' : LowerState} (hs : Splice.Typed splice?)
    (henv : env.Sees declarations types vars) (h : e.lower env splice? st = .ok out st') :
    e.ty? declarations types vars = some out.value.ty := by
  match e with
  | .number span x =>
    obtain ⟨rfl, rfl⟩ := Lower.pure_ok.mp h
    rfl
  | .boolean span b =>
    obtain ⟨rfl, rfl⟩ := Lower.pure_ok.mp h
    rfl
  | .string span s =>
    obtain ⟨rfl, rfl⟩ := lower_string_ok h
    rfl
  | .ident span name =>
    obtain ⟨v, hv, rfl, rfl⟩ := lower_ident_ok h
    exact ident_ty henv hv
  | .array span (some item) items =>
    obtain ⟨explicit, vs, v, hexplicit, hvs, hv, rfl⟩ := lower_array_ok h
    obtain ⟨ty, hty, -, rfl⟩ := Value.ofItems_ok hv
    simp only [Env.resolve?, Except.bind_eq_ok] at hexplicit
    obtain ⟨t, ht, hexplicit⟩ := hexplicit
    cases hexplicit
    cases hty
    rw [ty?, henv.resolve?_eq ht]
    rfl
  | .array span none [] =>
    obtain ⟨explicit, vs, v, hexplicit, hvs, hv, rfl⟩ := lower_array_ok h
    obtain ⟨ty, hty, -, rfl⟩ := Value.ofItems_ok hv
    obtain ⟨rfl, -⟩ := lowerList_nil_ok hvs
    cases hexplicit
    cases hty
  | .array span none (first :: rest) =>
    obtain ⟨explicit, vs, v, hexplicit, hvs, hv, rfl⟩ := lower_array_ok h
    obtain ⟨ty, hty, -, rfl⟩ := Value.ofItems_ok hv
    obtain ⟨a, t, as, ha, -, rfl⟩ := lowerList_cons_ok hvs
    cases hexplicit
    cases hty
    rw [ty?, lower_ty hs henv ha]
    rfl
  | .binary span op left right =>
    obtain ⟨lhs, t, rhs, v, hlhs, hrhs, hv, rfl⟩ := lower_binary_ok h
    simp only [Value.combine, Except.bind_eq_ok] at hv
    obtain ⟨ty, hty, hv⟩ := hv
    cases hv
    have hl := lower_ty hs henv hlhs
    have hty' := BinOp.resultType_ok hty
    show _ = some ty
    rw [hty']
    cases op with
    | add => exact hl
    | _ => rfl
  | .not span operand =>
    obtain ⟨o, ho, -, rfl⟩ := lower_not_ok h
    rfl
  | .typeOf span operand =>
    obtain ⟨o, ho, rfl⟩ := lower_typeOf_ok h
    rfl
  | .index span object place =>
    obtain ⟨a, t, i, item, ha, hi, hitem, -, rfl⟩ := lower_index_ok h
    rw [ty?, lower_ty hs henv ha, hitem]
    rfl
  | .call span name args =>
    rcases lower_call_ok h with
      ⟨decl, splice, vs, t, body, r, hdecl, hcall, hvs, hspliced, rfl⟩ |
      ⟨f, vs, ty, hdecl, hf, hvs, hret, rfl⟩
    -- The types of the arguments decide the signature of a call, and with it the type.
    · have hlen : vs.values.length = decl.params.length := by
        rw [lowerList_length hvs, hcall.arity]
      obtain ⟨signature, hsignature, hret⟩ := hs.signature hcall.splice hlen hspliced
      rw [henv.declarations_eq] at hdecl hsignature
      simp only [ty?, hdecl, lowerList_ty hs henv hvs, hsignature, Option.bind_eq_bind,
        Option.bind_some, ← hret]
      rfl
    · rw [henv.declarations_eq] at hdecl
      simp only [ty?, hdecl, hf]
      exact hret

theorem lowerList_ty {es : List Expr} {vs : LoweredList} {st st' : LowerState}
    (hs : Splice.Typed splice?) (henv : env.Sees declarations types vars)
    (h : lowerList env splice? es st = .ok vs st') :
    tyList? declarations types vars es = some (vs.values.map (·.ty)) := by
  match es with
  | [] =>
    obtain ⟨rfl, rfl⟩ := lowerList_nil_ok h
    rfl
  | e :: es =>
    obtain ⟨v, t, rest, hv, hrest, rfl⟩ := lowerList_cons_ok h
    rw [tyList?, lower_ty hs henv hv, lowerList_ty hs henv hrest]
    rfl

end

end Expr

end

namespace FunctionDecl

/-- The types of a call are those of its signature. -/
theorem signature?_eq {declarations : Declarations} {decl : FunctionDecl} {args : List Ty}
    {generics types : Table Ty} {params : List Ty} {ret : Option Ty}
    (h : Typed declarations decl args generics types)
    (hparams : decl.params.mapM (fun p => (declarations.within types).resolve p.ty) = .ok params)
    (hret : (declarations.within types).resolve? decl.ret = .ok ret) :
    decl.signature? declarations args = some ⟨types, params, ret⟩ := by
  obtain ⟨bindings, hbindings, htypes⟩ := h.bound
  let env : Env := { declarations, maxInlineDepth := 0 }
  let inner : Env :=
    { env with scopes := ⟨[⟨.function decl.name none, .empty, types⟩]⟩ }
  have hseen : ∀ name, (declarations.within types).scopes.type? name = inner.scopes.type? name :=
    fun name => (Declarations.type?_within name).trans (Eq.symm (by exact Scopes.type?_singleton))
  have hresolve : (fun p : Param => (declarations.within types).resolve p.ty) =
      fun p => inner.resolve p.ty :=
    funext fun p => Env.resolveIn_congr rfl hseen p.ty
  have hresolve? : (declarations.within types).resolve? decl.ret = inner.resolve? decl.ret :=
    Env.resolve?_congr (by rfl) hseen _
  rw [hresolve] at hparams
  rw [hresolve?] at hret
  have hdeclared := h.declared env rfl []
  have hchecked := hbindings env rfl [] decl.span
  have hsome : ∀ {x : Except Error Signature} {signature}, x = .ok signature →
      x.toOption = some signature := by
    rintro x signature rfl
    rfl
  refine hsome ?_
  simp only [Except.bind_eq_ok]
  refine ⟨_, hdeclared, bindings, hchecked, ret, ?_, params, ?_, ?_⟩
  · rw [htypes]
    exact hret
  · rw [htypes]
    exact hparams
  · rw [htypes]
    rfl

/-- The types of the parameters that are bound. -/
theorem bindParams_types {declarations : Declarations} {types : Table Ty} {params : List Param}
    {args : List Value} {scopes : Scopes} {actions : List Action} {st st' : LowerState} {env : Env}
    (hd : env.declarations = declarations)
    (hseen : ∀ name, env.scopes.type? name = types.get? name)
    (hlen : args.length = params.length)
    (h : bindParams env (params.zip args) st = .ok (scopes, actions) st') :
    ∃ tys, params.mapM (fun p => (declarations.within types).resolve p.ty) = .ok tys := by
  induction params generalizing args st actions env with
  | nil => exact ⟨[], rfl⟩
  | cons p params ih =>
    cases args with
    | nil => cases hlen
    | cons v args =>
      obtain ⟨-, ty, slot, t, actions', hty, -, hrest, -⟩ := bindParams_cons_ok h
      obtain ⟨tys, htys⟩ := ih (by exact hd)
        (by exact fun name => Scopes.type?_declare.trans (hseen name)) (Nat.succ.inj hlen) hrest
      refine ⟨ty :: tys, ?_⟩
      have hresolve : (declarations.within types).resolve p.ty = env.resolve p.ty :=
        Env.resolveIn_congr hd.symm
          (fun name => (Declarations.type?_within name).trans (hseen name).symm) p.ty
      simp only [List.mapM_cons, Except.bind_eq_ok]
      exact ⟨ty, hresolve.trans hty, tys, htys, rfl⟩

/-- The type of the slot for the return value. -/
theorem resolve?_reserved {env : Env} {decl : FunctionDecl} {types : Table Ty}
    {outer : List Scope} {function : String} {span : Span} {ret : Option ReturnSlot}
    {st st' : LowerState}
    (h : reserveReturn { env with scopes := ⟨⟨.function function none, .empty, types⟩ :: outer⟩ }
      decl span st = .ok ret st') :
    (env.declarations.within types).resolve? decl.ret = .ok (ret.map (·.ty)) := by
  have hresolve : (env.declarations.within types).resolve? decl.ret =
      ({ env with scopes := ⟨⟨.function function none, .empty, types⟩ :: outer⟩ } : Env).resolve?
        decl.ret :=
    Env.resolve?_congr (by rfl)
      (fun name => (Declarations.type?_within name).trans
        (Eq.symm (by exact Scopes.type?_function rfl))) _
  rw [hresolve]
  rcases reserveReturn_ok h with ⟨hnone, rfl, -⟩ | ⟨ty, slot, hty, -, -, rfl⟩
  · exact hnone
  · exact hty

/-- **The return value of a call has the type of its signature.** -/
theorem inline_signature {splice? : Option Splice} {env : Env} {decl : FunctionDecl}
    {args : List Value} {span : Span} {out : Spliced} {st st' : LowerState}
    (hlen : args.length = decl.params.length)
    (h : inline splice? env decl args span st = .ok out st') :
    ∃ signature, decl.signature? env.declarations (args.map (·.ty)) = some signature ∧
      out.ret.map (·.ty) = signature.ret := by
  obtain ⟨generics, types, ret, scopes, params, body, t₁, t₂, htyped, hret, hparams, -, rfl⟩ :=
    inline_entered_ok h
  obtain ⟨tys, htys⟩ := bindParams_types rfl (fun _ => Scopes.type?_function rfl) hlen hparams
  refine ⟨⟨types, tys, ret.map (·.ty)⟩, signature?_eq htyped htys ?_, rfl⟩
  exact resolve?_reserved hret

end FunctionDecl

/-- Calls that are inlined have the types of their signatures, however deeply they are inlined. -/
theorem spliceWithin_typed (depth : Nat) : Splice.Typed (spliceWithin depth) := by
  refine ⟨fun hsplice hlen h => ?_⟩
  cases depth with
  | zero => cases hsplice
  | succ depth =>
    cases hsplice
    exact FunctionDecl.inline_signature hlen h

end RuleScript
