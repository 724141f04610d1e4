import RuleScript.Lowering.Program

/-!
# What lowering does when it succeeds

A successful lowering is taken apart once and for all: for each form of expression, statement and
declaration there is one statement that names the successful steps it consists of. Everything that
is proved about lowering starts from these, and nothing else unfolds the definitions.

## Main results

* `Lower.bind_ok`: a successful computation consists of successful steps
* `Expr.lower_binary_ok`, ...: the steps for each form of expression
* `Stmt.lower_branch_ok`, ...: the steps for each form of statement
* `FunctionDecl.inline_ok`: the steps for the body of a call
* `Program.lower_ok`: the steps for a program
-/

namespace RuleScript

/-- A successful check consists of successful steps. -/
theorem Except.bind_eq_ok {α β : Type} {x : Except Error α} {f : α → Except Error β} {b : β} :
    (x >>= f) = .ok b ↔ ∃ a, x = .ok a ∧ f a = .ok b := by
  cases x with
  | ok a =>
    change f a = .ok b ↔ _
    simp
  | error e =>
    change Except.error e = .ok b ↔ _
    simp

namespace Lower

variable {α β : Type} {st st' : LowerState}

theorem bind_ok {x : Lower α} {f : α → Lower β} {b : β} :
    (x >>= f) st = .ok b st' ↔ ∃ a t, x st = .ok a t ∧ f a t = .ok b st' := by
  simp only [bind, EStateM.bind]
  cases x st with
  | ok a t =>
    constructor
    · intro h
      exact ⟨a, t, rfl, h⟩
    · rintro ⟨_, _, hat, h⟩
      cases hat
      exact h
  | error e t => simp

/-- What is lowered twice in the same state is lowered to the same. -/
theorem ok_unique {x : Lower α} {a b : α} {t t' : LowerState} (h : x st = .ok a t)
    (h' : x st = .ok b t') : a = b ∧ t = t' := by
  rw [h] at h'
  cases h'
  exact ⟨rfl, rfl⟩

theorem pure_ok {a b : α} : (pure a : Lower α) st = .ok b st' ↔ a = b ∧ st = st' := by
  change EStateM.Result.ok a st = _ ↔ _
  simp

theorem fail_ok {fault : Fault} {span : Span} {b : α} :
    (fail fault span : Lower α) st = .ok b st' ↔ False := by
  change EStateM.Result.error _ st = _ ↔ _
  simp

theorem ofExcept_ok {x : Except Error α} {b : α} :
    ofExcept x st = .ok b st' ↔ x = .ok b ∧ st = st' := by
  cases x with
  | ok a =>
    change EStateM.Result.ok a st = _ ↔ _
    simp
  | error e =>
    change EStateM.Result.error e st = _ ↔ _
    simp

/-- A check that fails ends the computation, so it went on. -/
theorem check_ok {c : Prop} [Decidable c] {fault : Fault} {span : Span} {k : Unit → Lower β}
    {b : β} : (if c then fail fault span >>= k else k ()) st = .ok b st' ↔
      ¬ c ∧ k () st = .ok b st' := by
  by_cases hc : c
  · simp only [if_pos hc, bind_ok, fail_ok]
    simp [hc]
  · simp [hc]

/-- What handing out a slot leaves behind. -/
theorem grant_ok {take : Slots → Option Grant} {span : Span} {slot : Slot}
    (h : grant take span st = .ok slot st') :
    ∃ g, take st.slots = some g ∧ slot = g.slot ∧ st'.slots = g.slots := by
  have hget : (get : Lower LowerState) st = .ok st st := rfl
  rw [grant, bind_ok] at h
  obtain ⟨_, _, hget', h⟩ := h
  rw [hget] at hget'
  cases hget'
  cases htake : take st.slots with
  | none => simp only [htake, fail_ok] at h
  | some g =>
    simp only [htake] at h
    cases hnew : g.new? with
    | none =>
      simp only [hnew] at h
      cases h
      exact ⟨g, rfl, rfl, rfl⟩
    | some key =>
      simp only [hnew] at h
      cases h
      exact ⟨g, rfl, rfl, rfl⟩

theorem declareSlot_ok {scopes scopes' : Scopes} {name : String} {ty : Ty} {mutable : Bool}
    {span : Span} {slot : Slot}
    (h : declareSlot scopes name ty mutable span st = .ok (slot, scopes') st') :
    intern name scopes.depth span st = .ok slot st' ∧
      scopes' = scopes.declare name ⟨ty, mutable, .slot slot⟩ := by
  simp only [declareSlot, bind_ok, pure_ok] at h
  obtain ⟨s, t, hs, he, rfl⟩ := h
  cases he
  exact ⟨hs, rfl⟩

end Lower

section

variable {env : Env} {splice? : Option Splice} {st st' : LowerState} {span : Span}

open Lower

/-! ## Expressions -/

/-- A call that may be inlined. -/
structure Env.MayCall (env : Env) (splice? : Option Splice) (decl : FunctionDecl) (given : Nat)
    (splice : Splice) : Prop where
  not_inlining : decl.name ∉ env.inlining
  splice : splice? = some splice
  arity : given = decl.params.length

theorem Env.checkCall_ok {decl : FunctionDecl} {given : Nat} {wantsValue : Bool} {splice : Splice}
    (h : env.checkCall splice? decl given wantsValue span = .ok splice) :
    env.MayCall splice? decl given splice := by
  unfold Env.checkCall at h
  by_cases hrec : env.inlining.contains decl.name
  · rw [if_pos hrec] at h
    cases h
  rw [if_neg hrec] at h
  cases splice? with
  | none => cases h
  | some s =>
    by_cases hret : wantsValue ∧ decl.ret.isNone
    · simp only [if_pos hret] at h
      cases h
    by_cases harity : given ≠ decl.params.length
    · simp only [if_neg hret, if_pos harity] at h
      cases h
    simp only [if_neg hret, if_neg harity] at h
    cases h
    exact ⟨by simpa using hrec, rfl, by simpa using harity⟩

namespace Expr

theorem lower_string_ok {s : String} {out : Lowered}
    (h : (Expr.string span s).lower env splice? st = .ok out st') :
    out = ⟨[], .ofText s⟩ ∧ st = st' := by
  simp only [lower, bind_ok, pure_ok, ofExcept_ok] at h
  obtain ⟨v, t, ⟨hv, rfl⟩, rfl, rfl⟩ := h
  unfold Value.literalText at hv
  split at hv
  · cases hv
  · cases hv
    exact ⟨rfl, rfl⟩

example : (Expr.string span "a").lower env splice? st = .ok ⟨[], .ofText "a"⟩ st := by cbv

theorem lower_ident_ok {name : String} {out : Lowered}
    (h : (Expr.ident span name).lower env splice? st = .ok out st') :
    ∃ v, env.ident span name = .ok v ∧ out = ⟨[], v⟩ ∧ st = st' := by
  simp only [lower, bind_ok, pure_ok, ofExcept_ok] at h
  obtain ⟨v, t, ⟨hv, rfl⟩, rfl, rfl⟩ := h
  exact ⟨v, hv, rfl, rfl⟩

theorem lower_array_ok {item : Option TypeExpr} {items : List Expr} {out : Lowered}
    (h : (Expr.array span item items).lower env splice? st = .ok out st') :
    ∃ explicit vs v, env.resolve? item = .ok explicit ∧
      lowerList env splice? items st = .ok vs st' ∧
      Value.ofItems explicit vs.values span = .ok v ∧ out = ⟨vs.before, v⟩ := by
  simp only [lower, bind_ok, pure_ok, ofExcept_ok] at h
  obtain ⟨explicit, t, ⟨hexplicit, rfl⟩, vs, t', hvs, v, t'', ⟨hv, rfl⟩, rfl, rfl⟩ := h
  exact ⟨explicit, vs, v, hexplicit, hvs, hv, rfl⟩

theorem lower_binary_ok {op : BinOp} {left right : Expr} {out : Lowered}
    (h : (Expr.binary span op left right).lower env splice? st = .ok out st') :
    ∃ lhs t rhs v, left.lower env splice? st = .ok lhs t ∧ right.lower env splice? t = .ok rhs st' ∧
      Value.combine op lhs.value rhs.value span = .ok v ∧
      out = ⟨lhs.before ++ rhs.before, v⟩ := by
  simp only [lower, bind_ok, pure_ok, ofExcept_ok] at h
  obtain ⟨lhs, t, hlhs, rhs, t', hrhs, v, t'', ⟨hv, rfl⟩, rfl, rfl⟩ := h
  exact ⟨lhs, t, rhs, v, hlhs, hrhs, hv, rfl⟩

theorem lower_not_ok {operand : Expr} {out : Lowered}
    (h : (Expr.not span operand).lower env splice? st = .ok out st') :
    ∃ o, operand.lower env splice? st = .ok o st' ∧ o.value.ty = .boolean ∧
      out = ⟨o.before, o.value.negate⟩ := by
  simp only [lower, bind_ok, pure_ok, ofExcept_ok] at h
  obtain ⟨o, t, ho, v, t', ⟨hv, rfl⟩, rfl, rfl⟩ := h
  unfold Value.negated at hv
  split at hv
  · cases hv
    exact ⟨o, ho, by assumption, rfl⟩
  · cases hv

theorem lower_typeOf_ok {operand : Expr} {out : Lowered}
    (h : (Expr.typeOf span operand).lower env splice? st = .ok out st') :
    ∃ o, operand.lower env splice? st = .ok o st' ∧ out = ⟨[], .ofText o.value.ty.text⟩ := by
  simp only [lower, bind_ok, pure_ok] at h
  obtain ⟨o, t, ho, rfl, rfl⟩ := h
  exact ⟨o, ho, rfl⟩

theorem lower_index_ok {object place : Expr} {out : Lowered}
    (h : (Expr.index span object place).lower env splice? st = .ok out st') :
    ∃ a t i item, object.lower env splice? st = .ok a t ∧ place.lower env splice? t = .ok i st' ∧
      a.value.ty = .array item ∧ i.value.ty = .number ∧
      out = ⟨a.before ++ i.before, .index item a.value i.value⟩ := by
  simp only [lower, bind_ok] at h
  obtain ⟨a, t, ha, h⟩ := h
  cases hty : a.value.ty with
  | array item =>
    simp only [hty, Ty.item?, bind_ok] at h
    obtain ⟨i, t', hi, h⟩ := h
    obtain ⟨hnumber, h⟩ := check_ok.mp h
    obtain ⟨rfl, rfl⟩ := pure_ok.mp h
    exact ⟨a, t, i, item, ha, hi, hty, by simpa using hnumber, rfl⟩
  | _ =>
    simp only [hty, Ty.item?] at h
    exact (fail_ok.mp h).elim

/-- The steps of a call for a value: of one of the program's own functions, or of the target's. -/
theorem lower_call_ok {name : String} {args : List Expr} {out : Lowered}
    (h : (Expr.call span name args).lower env splice? st = .ok out st') :
    (∃ decl splice vs t body r, env.declarations.functions.get? name = some decl ∧
      env.MayCall splice? decl args.length splice ∧ lowerList env splice? args st = .ok vs t ∧
      splice env decl vs.values span t = .ok ⟨body, some r⟩ st' ∧
      out = ⟨vs.before ++ [.block body], .read r.ty r.slot⟩) ∨
    (∃ f vs ty, env.declarations.functions.get? name = none ∧ FunctionDef.find? name = some f ∧
      lowerArgs env splice? f args.length span 0 f.params .empty args st = .ok vs st' ∧
      f.ret = some ty ∧ out = ⟨vs.before, .call ty f.target vs.values⟩) := by
  rw [lower] at h
  cases hdecl : env.declarations.functions.get? name with
  | some decl =>
    simp only [hdecl, bind_ok, ofExcept_ok] at h
    obtain ⟨splice, t, ⟨hcheck, rfl⟩, vs, t', hvs, ⟨body, ret⟩, t'', hspliced, h⟩ := h
    cases ret with
    | none => exact (fail_ok.mp h).elim
    | some r =>
      obtain ⟨rfl, rfl⟩ := pure_ok.mp h
      exact .inl ⟨decl, splice, vs, t', body, r, rfl, Env.checkCall_ok hcheck, hvs, hspliced, rfl⟩
  | none =>
    cases hf : FunctionDef.find? name with
    | none =>
      simp only [hdecl, hf, bind_ok, unknownFunction, fail_ok] at h
      obtain ⟨_, _, _, h⟩ := h
      exact h.elim
    | some f =>
      simp only [hdecl, hf, bind_ok] at h
      obtain ⟨vs, t, hvs, h⟩ := h
      cases hret : f.ret with
      | none =>
        simp only [hret, fail_ok] at h
      | some ty =>
        simp only [hret, pure_ok] at h
        obtain ⟨rfl, rfl⟩ := h
        exact .inr ⟨f, vs, ty, rfl, rfl, hvs, hret, rfl⟩

theorem lowerList_nil_ok {vs : LoweredList} (h : lowerList env splice? [] st = .ok vs st') :
    vs = ⟨[], []⟩ ∧ st = st' := by
  simp only [lowerList, pure_ok] at h
  exact ⟨h.1.symm, h.2⟩

theorem lowerList_cons_ok {e : Expr} {es : List Expr} {vs : LoweredList}
    (h : lowerList env splice? (e :: es) st = .ok vs st') :
    ∃ v t rest, e.lower env splice? st = .ok v t ∧ lowerList env splice? es t = .ok rest st' ∧
      vs = ⟨v.before ++ rest.before, v.value :: rest.values⟩ := by
  simp only [lowerList, bind_ok, pure_ok] at h
  obtain ⟨v, t, hv, rest, t', hrest, rfl, rfl⟩ := h
  exact ⟨v, t, rest, hv, hrest, rfl⟩

section

variable {f : FunctionDef} {given index : Nat} {params : List ParamDef} {bindings : Bindings}

theorem lowerArgs_nil_ok {vs : LoweredList}
    (h : lowerArgs env splice? f given span index params bindings [] st = .ok vs st') :
    ∃ values, Value.defaults? params = some values ∧ vs = ⟨[], values⟩ ∧ st = st' := by
  rw [lowerArgs] at h
  cases hd : Value.defaults? params with
  | none => simp only [hd, fail_ok] at h
  | some values =>
    simp only [hd, pure_ok] at h
    exact ⟨values, rfl, h.1.symm, h.2⟩

/-- The steps of the first argument of a target function: it is a template, or it is lowered and the
arguments after it are for the same parameter or for the next. -/
theorem lowerArgs_cons_ok {e : Expr} {es : List Expr} {vs : LoweredList}
    (h : lowerArgs env splice? f given span index params bindings (e :: es) st = .ok vs st') :
    ∃ p ps, params = p :: ps ∧
      ((p.template = true ∧ ∃ s text rest, e = .string s text ∧
        lowerArgs env splice? f given span (index + 1) ps bindings es st = .ok rest st' ∧
        vs = ⟨rest.before, .template .string text :: rest.values⟩) ∨
      (p.template = false ∧ ∃ v t bindings' rest, e.lower env splice? st = .ok v t ∧
        Value.checkArgument f.name index p.ty v.value.ty span bindings = .ok bindings' ∧
        lowerArgs env splice? f given span (if p.ty.isVariadic then index else index + 1)
          (if p.ty.isVariadic then p :: ps else ps) bindings' es t = .ok rest st' ∧
        vs = ⟨v.before ++ rest.before, v.value :: rest.values⟩)) := by
  cases params with
  | nil =>
    simp only [lowerArgs, fail_ok] at h
  | cons p ps =>
    refine ⟨p, ps, rfl, ?_⟩
    cases ht : p.template with
    | true =>
      simp only [lowerArgs, ht, if_true, bind_ok, ofExcept_ok, pure_ok] at h
      obtain ⟨template, t, ⟨htemplate, rfl⟩, rest, t', hrest, rfl, rfl⟩ := h
      cases e with
      | string s text =>
        cases htemplate
        exact .inl ⟨rfl, s, text, rest, rfl, hrest, rfl⟩
      | _ => cases htemplate
    | false =>
      simp only [lowerArgs, ht, Bool.false_eq_true, if_false, bind_ok, ofExcept_ok] at h
      obtain ⟨v, t, hv, bindings', t', ⟨hb, rfl⟩, h⟩ := h
      by_cases hvar : p.ty.isVariadic
      · simp only [if_pos hvar, bind_ok, pure_ok] at h
        obtain ⟨rest, t'', hrest, rfl, rfl⟩ := h
        refine .inr ⟨rfl, v, t, bindings', rest, hv, hb, ?_, rfl⟩
        rw [if_pos hvar, if_pos hvar]
        exact hrest
      · simp only [if_neg hvar, bind_ok, pure_ok] at h
        obtain ⟨rest, t'', hrest, rfl, rfl⟩ := h
        refine .inr ⟨rfl, v, t, bindings', rest, hv, hb, ?_, rfl⟩
        rw [if_neg hvar, if_neg hvar]
        exact hrest

end

end Expr

/-! ## Statements -/

namespace Stmt

theorem lowerCondition_ok {statement : Conditional} {e : Expr} {out : Lowered}
    (h : lowerCondition env splice? statement e st = .ok out st') :
    e.lower env splice? st = .ok out st' ∧ out.value.ty = .boolean := by
  simp only [lowerCondition, bind_ok] at h
  obtain ⟨v, t, hv, h⟩ := h
  obtain ⟨hboolean, h⟩ := check_ok.mp h
  obtain ⟨rfl, rfl⟩ := pure_ok.mp h
  exact ⟨hv, by simpa using hboolean⟩

theorem checkFits_ok {wanted : Ty} {value : Value} {fault : Fault} {u : Unit}
    (h : checkFits wanted value fault span st = .ok u st') :
    wanted.fits value.ty span = .ok true ∧ st = st' := by
  simp only [checkFits, bind_ok, ofExcept_ok] at h
  obtain ⟨fits, t, ⟨hfits, rfl⟩, h⟩ := h
  cases fits with
  | false =>
    simp only [Bool.false_eq_true, if_false, fail_ok] at h
  | true =>
    simp only [if_true, pure_ok] at h
    exact ⟨hfits, h.2⟩

theorem checkBound_ok {bound : Value} {u : Unit} (h : checkBound bound span st = .ok u st') :
    bound.ty = .number ∧ st = st' := by
  unfold checkBound at h
  split at h
  · exact (fail_ok.mp h).elim
  · obtain ⟨-, rfl⟩ := pure_ok.mp h
    exact ⟨by simp_all, rfl⟩

theorem lowerOption_ok {e : Option Expr} {out : Option Lowered}
    (h : lowerOption env splice? e st = .ok out st') :
    (e = none ∧ out = none ∧ st = st') ∨
      ∃ e' v, e = some e' ∧ e'.lower env splice? st = .ok v st' ∧ out = some v := by
  cases e with
  | none =>
    simp only [lowerOption, pure_ok] at h
    exact .inl ⟨rfl, h.1.symm, h.2⟩
  | some e =>
    simp only [lowerOption, bind_ok, pure_ok] at h
    obtain ⟨v, t, hv, rfl, rfl⟩ := h
    exact .inr ⟨e, v, rfl, hv, rfl⟩

/-- The steps of a declaration, with or without a value. -/
theorem lower_declare_ok {name : String} {ty : Option TypeExpr} {value : Option Expr}
    {constant : Bool} {scopes : Scopes} {action : Action}
    (h : (Stmt.declare span name ty value constant).lower env splice? st =
      .ok (scopes, action) st') :
    env.scopes.declaredHere name = false ∧ ∃ annotated lowered t ty' slot,
      env.resolve? ty = .ok annotated ∧ lowerOption env splice? value st = .ok lowered t ∧
      declaredType span annotated (lowered.map (·.value)) = .ok ty' ∧
      intern name env.scopes.depth span t = .ok slot st' ∧
      scopes = env.scopes.declare name ⟨ty', !constant, .slot slot⟩ ∧
      action = match lowered with
        | none => .noop
        | some v => .behind v.before (.declare slot ty' v.value) := by
  rw [lower, lowerDeclare] at h
  obtain ⟨hhere, h⟩ := check_ok.mp h
  obtain ⟨-, h⟩ := check_ok.mp h
  simp only [bind_ok, ofExcept_ok] at h
  obtain ⟨annotated, t, ⟨hann, rfl⟩, lowered, t', hlow, ty', t'', ⟨hty, rfl⟩, ⟨slot, scopes'⟩, t₃,
    hdeclare, h⟩ := h
  obtain ⟨hslot, rfl⟩ := declareSlot_ok hdeclare
  refine ⟨by simpa using hhere, annotated, lowered, t', ty', slot, hann, hlow, hty, ?_⟩
  cases lowered with
  | none =>
    simp only [pure_ok, Prod.mk.injEq] at h
    obtain ⟨⟨rfl, rfl⟩, rfl⟩ := h
    exact ⟨hslot, rfl, rfl⟩
  | some v =>
    simp only [pure_ok, Prod.mk.injEq] at h
    obtain ⟨⟨rfl, rfl⟩, rfl⟩ := h
    exact ⟨hslot, rfl, rfl⟩

theorem lower_block_ok {body : List Stmt} {scopes : Scopes} {action : Action}
    (h : (Stmt.block span body).lower env splice? st = .ok (scopes, action) st') :
    ∃ actions, lowerBody (env.push .block) splice? body st = .ok actions st' ∧
      scopes = env.scopes ∧ action = .block actions := by
  simp only [lower, bind_ok, pure_ok, Prod.mk.injEq] at h
  obtain ⟨actions, t, hbody, ⟨rfl, rfl⟩, rfl⟩ := h
  exact ⟨actions, hbody, rfl, rfl⟩

example : (Stmt.block span []).lower env splice? st = .ok (env.scopes, .block []) st := by cbv

theorem lower_assign_ok {name : String} {value : Expr} {scopes : Scopes} {action : Action}
    (h : (Stmt.assign span name value).lower env splice? st = .ok (scopes, action) st') :
    ∃ ty slot v, env.scopes.binding? name = some ⟨ty, true, .slot slot⟩ ∧
      value.lower env splice? st = .ok v st' ∧ ty.fits v.value.ty span = .ok true ∧
      scopes = env.scopes ∧ action = .behind v.before (.assign slot v.value) := by
  simp only [lower, lowerAssign, bind_ok, pure_ok, Prod.mk.injEq] at h
  obtain ⟨a, t, h, ⟨rfl, rfl⟩, rfl⟩ := h
  cases hbinding : env.scopes.binding? name with
  | none =>
    simp only [hbinding, fail_ok] at h
  | some b =>
    obtain ⟨ty, mutable, storage⟩ := b
    cases mutable with
    | false =>
      simp only [hbinding, fail_ok] at h
    | true =>
      cases storage with
      | constant text =>
        simp only [hbinding, fail_ok] at h
      | slot slot =>
        simp only [hbinding, bind_ok, pure_ok] at h
        obtain ⟨v, t', hv, _, t'', hcheck, rfl, rfl⟩ := h
        obtain ⟨hfits, rfl⟩ := checkFits_ok hcheck
        exact ⟨ty, slot, v, rfl, hv, hfits, rfl, rfl⟩

theorem lower_assignField_ok {object value : Expr} {field : String} {scopes : Scopes}
    {action : Action}
    (h : (Stmt.assignField span object field value).lower env splice? st =
      .ok (scopes, action) st') :
    ∃ o t v, object.lower env splice? st = .ok o t ∧ value.lower env splice? t = .ok v st' ∧
      scopes = env.scopes ∧
      action = .behind (o.before ++ v.before) (.assignField o.value field v.value) := by
  simp only [lower, lowerAssignField, bind_ok, pure_ok, Prod.mk.injEq] at h
  obtain ⟨a, t, ⟨o, t₁, ho, _, t₂, hfits, v, t₃, hv, rfl, rfl⟩, ⟨rfl, rfl⟩, rfl⟩ := h
  obtain ⟨-, rfl⟩ := checkFits_ok hfits
  exact ⟨o, t₁, v, ho, hv, rfl, rfl⟩

theorem lower_branch_ok {condition : Expr} {body : List Stmt} {scopes : Scopes} {action : Action}
    (h : (Stmt.branch span condition body none).lower env splice? st = .ok (scopes, action) st') :
    ∃ v t actions, condition.lower env splice? st = .ok v t ∧ v.value.ty = .boolean ∧
      lowerBody (env.push .block) splice? body t = .ok actions st' ∧ scopes = env.scopes ∧
      action = .behind v.before (.branch v.value actions) := by
  simp only [lower, bind_ok, pure_ok, Prod.mk.injEq] at h
  obtain ⟨v, t, hv, actions, t', hbody, ⟨rfl, rfl⟩, rfl⟩ := h
  obtain ⟨hv, hboolean⟩ := lowerCondition_ok hv
  exact ⟨v, t, actions, hv, hboolean, hbody, rfl, rfl⟩

/-- The condition of a branch with an alternative: a literal stays where it is, anything else gets a
slot of its own. -/
theorem saveCondition_ok {condition saved : Value} {save : List Action}
    (h : saveCondition condition span st = .ok (save, saved) st') :
    (condition.isLiteral = true ∧ save = [] ∧ saved = condition ∧ st = st') ∨
      ∃ slot, fresh conditionLabel span st = .ok slot st' ∧
        save = [.declare slot .boolean condition] ∧ saved = .read .boolean slot := by
  unfold saveCondition at h
  split at h
  · simp only [pure_ok, Prod.mk.injEq] at h
    obtain ⟨⟨rfl, rfl⟩, rfl⟩ := h
    exact .inl ⟨by assumption, rfl, rfl, rfl⟩
  · simp only [bind_ok, pure_ok, Prod.mk.injEq] at h
    obtain ⟨slot, t, hslot, ⟨rfl, rfl⟩, rfl⟩ := h
    exact .inr ⟨slot, hslot, rfl, rfl⟩

theorem lower_branchElse_ok {condition : Expr} {body otherwise : List Stmt} {scopes : Scopes}
    {action : Action}
    (h : (Stmt.branch span condition body (some otherwise)).lower env splice? st =
      .ok (scopes, action) st') :
    ∃ v t save saved t₁ actions t₂ actions', condition.lower env splice? st = .ok v t ∧
      v.value.ty = .boolean ∧ saveCondition v.value span t = .ok (save, saved) t₁ ∧
      lowerBody (env.push .block) splice? body t₁ = .ok actions t₂ ∧
      lowerBody (env.push .block) splice? otherwise t₂ = .ok actions' st' ∧
      scopes = env.scopes ∧
      action = .behind v.before
        (.block (save ++ [.branch saved actions, .branch saved.negate actions'])) := by
  simp only [lower, bind_ok, pure_ok, Prod.mk.injEq] at h
  obtain ⟨v, t, hv, ⟨save, saved⟩, t₁, hsave, actions, t₂, hbody, actions', t₃, hother, ⟨rfl, rfl⟩,
    rfl⟩ := h
  obtain ⟨hv, hboolean⟩ := lowerCondition_ok hv
  exact ⟨v, t, save, saved, t₁, actions, t₂, actions', hv, hboolean, hsave, hbody, hother, rfl, rfl⟩

theorem lower_loop_ok {condition : Expr} {body : List Stmt} {scopes : Scopes} {action : Action}
    (h : (Stmt.loop span condition body).lower env splice? st = .ok (scopes, action) st') :
    ∃ v t actions, condition.lower env splice? st = .ok v t ∧ v.value.ty = .boolean ∧
      lowerBody (env.push (.loop none)) splice? body t = .ok actions st' ∧ scopes = env.scopes ∧
      action = .loopWith v.before v.value actions := by
  simp only [lower, bind_ok, pure_ok, Prod.mk.injEq] at h
  obtain ⟨v, t, hv, actions, t', hbody, ⟨rfl, rfl⟩, rfl⟩ := h
  obtain ⟨hv, hboolean⟩ := lowerCondition_ok hv
  exact ⟨v, t, actions, hv, hboolean, hbody, rfl, rfl⟩

/-- The scopes inside a counting loop: one that holds the marker, and that of the body. -/
def countScopes (scopes : Scopes) (marker : String) (slot : Slot) : Scopes :=
  ((scopes.push .block).declare marker ⟨.number, true, .slot slot⟩).push
    (.loop (some (countStep slot)))

theorem lower_count_ok {marker : String} {first limit : Expr} {body : List Stmt} {scopes : Scopes}
    {action : Action}
    (h : (Stmt.count span marker first limit body).lower env splice? st =
      .ok (scopes, action) st') :
    ∃ a t₁ b t₂ slot t₃ actions, first.lower (env.push .block) splice? st = .ok a t₁ ∧
      limit.lower (env.push .block) splice? t₁ = .ok b t₂ ∧ a.value.ty = .number ∧
      b.value.ty = .number ∧ intern marker (env.scopes.depth + 1) span t₂ = .ok slot t₃ ∧
      lowerBody { env with scopes := countScopes env.scopes marker slot } splice? body t₃ =
        .ok actions st' ∧
      scopes = env.scopes ∧
      action = .behind a.before (.block
        [.declare slot .number a.value,
         .loopWith b.before (.binary .boolean .lt (.read .number slot) b.value)
          (actions ++ [countStep slot])]) := by
  simp only [lower, bind_ok, pure_ok, Prod.mk.injEq] at h
  obtain ⟨a, t₁, ha, b, t₂, hb, _, t₃, hcheck, _, t₄, hcheck', ⟨slot, scopes'⟩, t₅, hdeclare,
    actions, t₆, hbody, ⟨rfl, rfl⟩, rfl⟩ := h
  obtain ⟨hnumber, rfl⟩ := checkBound_ok hcheck
  obtain ⟨hnumber', rfl⟩ := checkBound_ok hcheck'
  obtain ⟨hslot, rfl⟩ := declareSlot_ok hdeclare
  exact ⟨a, t₁, b, t₂, slot, t₅, actions, ha, hb, hnumber, hnumber', hslot, hbody, rfl, rfl⟩

/-- The steps of what a function returns: nothing, or a value that goes to the return slot. -/
theorem lower_ret_ok {value : Option Expr} {scopes : Scopes} {action : Action}
    (h : (Stmt.ret span value).lower env splice? st = .ok (scopes, action) st') :
    scopes = env.scopes ∧
      ((value = none ∧ action = .noop ∧ st = st') ∨
        ∃ function r e v, value = some e ∧
          env.scopes.enclosingFunction? = some (function, some r) ∧
          e.lower env splice? st = .ok v st' ∧ r.ty.fits v.value.ty span = .ok true ∧
          action = .behind v.before (.assign r.slot v.value)) := by
  simp only [lower, lowerReturn, bind_ok, pure_ok, Prod.mk.injEq] at h
  obtain ⟨a, t, h, ⟨rfl, rfl⟩, rfl⟩ := h
  refine ⟨rfl, ?_⟩
  cases hf : env.scopes.enclosingFunction? with
  | none =>
    simp only [hf, fail_ok] at h
  | some found =>
    obtain ⟨function, ret⟩ := found
    cases value with
    | none =>
      simp only [hf, pure_ok] at h
      exact .inl ⟨rfl, h.1.symm, h.2⟩
    | some e =>
      cases ret with
      | none =>
        simp only [hf, fail_ok] at h
      | some r =>
        simp only [hf, bind_ok, pure_ok] at h
        obtain ⟨v, t', hv, _, t'', hcheck, rfl, rfl⟩ := h
        obtain ⟨hfits, rfl⟩ := checkFits_ok hcheck
        exact .inr ⟨function, r, e, v, rfl, rfl, hv, hfits, rfl⟩

theorem lower_stop_ok {scopes : Scopes} {action : Action}
    (h : (Stmt.stop span).lower env splice? st = .ok (scopes, action) st') :
    ∃ step, env.scopes.enclosingLoop? = some step ∧ scopes = env.scopes ∧ action = .stop ∧
      st = st' := by
  simp only [lower, lowerStop, bind_ok, pure_ok, Prod.mk.injEq] at h
  obtain ⟨a, t, h, ⟨rfl, rfl⟩, rfl⟩ := h
  cases hl : env.scopes.enclosingLoop? with
  | none =>
    simp only [hl, fail_ok] at h
  | some step =>
    simp only [hl, pure_ok] at h
    exact ⟨step, rfl, rfl, h.1.symm, h.2⟩

theorem lower_next_ok {scopes : Scopes} {action : Action}
    (h : (Stmt.next span).lower env splice? st = .ok (scopes, action) st') :
    scopes = env.scopes ∧ st = st' ∧
      ((env.scopes.enclosingLoop? = some none ∧ action = .next) ∨
        ∃ step, env.scopes.enclosingLoop? = some (some step) ∧ action = .block [step, .next]) := by
  simp only [lower, lowerNext, bind_ok, pure_ok, Prod.mk.injEq] at h
  obtain ⟨a, t, h, ⟨rfl, rfl⟩, rfl⟩ := h
  refine ⟨rfl, ?_⟩
  cases hl : env.scopes.enclosingLoop? with
  | none =>
    simp only [hl, fail_ok] at h
  | some step =>
    cases step with
    | none =>
      simp only [hl, pure_ok] at h
      exact ⟨h.2, .inl ⟨rfl, h.1.symm⟩⟩
    | some step =>
      simp only [hl, pure_ok] at h
      exact ⟨h.2, .inr ⟨step, rfl, h.1.symm⟩⟩

/-- The steps of a call that stands as a statement. -/
theorem lower_call_ok {name : String} {args : List Expr} {scopes : Scopes} {action : Action}
    (h : (Stmt.call span name args).lower env splice? st = .ok (scopes, action) st') :
    scopes = env.scopes ∧
    ((∃ decl splice vs t spliced, env.declarations.functions.get? name = some decl ∧
      env.MayCall splice? decl args.length splice ∧ Expr.lowerList env splice? args st = .ok vs t ∧
      splice env decl vs.values span t = .ok spliced st' ∧
      action = .behind (vs.before ++ [.block spliced.body]) .noop) ∨
    (∃ f vs, env.declarations.functions.get? name = none ∧ FunctionDef.find? name = some f ∧
      Expr.lowerArgs env splice? f args.length span 0 f.params .empty args st = .ok vs st' ∧
      action = .behind vs.before (.call f.target vs.values))) := by
  simp only [lower, lowerCall, bind_ok, pure_ok, Prod.mk.injEq] at h
  obtain ⟨a, t, h, ⟨rfl, rfl⟩, rfl⟩ := h
  refine ⟨rfl, ?_⟩
  cases hdecl : env.declarations.functions.get? name with
  | some decl =>
    simp only [hdecl, bind_ok, ofExcept_ok, pure_ok] at h
    obtain ⟨splice, t, ⟨hcheck, rfl⟩, vs, t', hvs, spliced, t'', hspliced, rfl, rfl⟩ := h
    exact .inl ⟨decl, splice, vs, t', spliced, rfl, Env.checkCall_ok hcheck, hvs, hspliced, rfl⟩
  | none =>
    cases hf : FunctionDef.find? name with
    | none =>
      simp only [hdecl, hf, bind_ok, Expr.unknownFunction, fail_ok] at h
      obtain ⟨_, _, _, h⟩ := h
      exact h.elim
    | some f =>
      simp only [hdecl, hf, bind_ok, pure_ok] at h
      obtain ⟨vs, t, hvs, rfl, rfl⟩ := h
      exact .inr ⟨f, vs, rfl, rfl, hvs, rfl⟩

theorem lowerBody_nil_ok {actions : List Action}
    (h : lowerBody env splice? [] st = .ok actions st') : actions = [] ∧ st = st' := by
  simp only [lowerBody, pure_ok] at h
  exact ⟨h.1.symm, h.2⟩

theorem lowerBody_cons_ok {s : Stmt} {body : List Stmt} {actions : List Action}
    (h : lowerBody env splice? (s :: body) st = .ok actions st') :
    ∃ scopes action t rest, s.lower env splice? st = .ok (scopes, action) t ∧
      lowerBody { env with scopes } splice? body t = .ok rest st' ∧ actions = action :: rest := by
  simp only [lowerBody, bind_ok, pure_ok] at h
  obtain ⟨⟨scopes, action⟩, t, hs, rest, t', hrest, rfl, rfl⟩ := h
  exact ⟨scopes, action, t, rest, hs, hrest, rfl⟩

end Stmt

/-! ## Calls, events and programs -/

namespace FunctionDecl

/-- The steps of the slot for a return value: there is none, or it is a fresh one. -/
theorem reserveReturn_ok {decl : FunctionDecl} {ret : Option ReturnSlot}
    (h : reserveReturn env decl span st = .ok ret st') :
    (env.resolve? decl.ret = .ok none ∧ ret = none ∧ st = st') ∨
      ∃ ty slot, env.resolve? decl.ret = .ok (some ty) ∧ ty.hasGeneric = false ∧
        fresh returnLabel span st = .ok slot st' ∧ ret = some ⟨slot, ty⟩ := by
  simp only [reserveReturn, bind_ok, ofExcept_ok] at h
  obtain ⟨resolved, t, ⟨hresolved, rfl⟩, h⟩ := h
  cases resolved with
  | none =>
    simp only [pure_ok] at h
    exact .inl ⟨hresolved, h.1.symm, h.2⟩
  | some ty =>
    obtain ⟨hgeneric, h⟩ := check_ok.mp h
    simp only [bind_ok, pure_ok] at h
    obtain ⟨slot, t', hslot, rfl, rfl⟩ := h
    exact .inr ⟨ty, slot, hresolved, by simpa using hgeneric, hslot, rfl⟩

theorem bindParams_nil_ok {scopes : Scopes} {actions : List Action}
    (h : bindParams env [] st = .ok (scopes, actions) st') :
    scopes = env.scopes ∧ actions = [] ∧ st = st' := by
  simp only [bindParams, pure_ok, Prod.mk.injEq] at h
  exact ⟨h.1.1.symm, h.1.2.symm, h.2⟩

theorem bindParams_cons_ok {p : Param} {v : Value} {rest : List (Param × Value)} {scopes : Scopes}
    {actions : List Action} (h : bindParams env ((p, v) :: rest) st = .ok (scopes, actions) st') :
    env.scopes.declaredHere p.name = false ∧ ∃ ty slot t actions', env.resolve p.ty = .ok ty ∧
      intern p.name env.scopes.depth p.span st = .ok slot t ∧
      bindParams { env with scopes := env.scopes.declare p.name ⟨ty, false, .slot slot⟩ } rest t =
        .ok (scopes, actions') st' ∧
      actions = .declare slot ty v :: actions' := by
  rw [bindParams] at h
  obtain ⟨hhere, h⟩ := check_ok.mp h
  simp only [bind_ok, ofExcept_ok] at h
  obtain ⟨ty, t, ⟨hty, rfl⟩, ⟨slot, scopes'⟩, t', hdeclare, ⟨_, actions'⟩, _, hrest, h⟩ := h
  simp only [pure_ok, Prod.mk.injEq] at h
  obtain ⟨⟨rfl, rfl⟩, rfl⟩ := h
  obtain ⟨hslot, rfl⟩ := declareSlot_ok hdeclare
  exact ⟨by simpa using hhere, ty, slot, t', actions', hty, hslot, hrest, rfl⟩

/-- The environment of the body of a call, before its parameters are declared. -/
def entered (env : Env) (decl : FunctionDecl) (scopes : Scopes) (ret : Option ReturnSlot) : Env :=
  { env with
    inlining := decl.name :: env.inlining
    scopes := declareReturn scopes decl.name ret }

/-- The steps of the body of a call. -/
theorem inline_ok {decl : FunctionDecl} {args : List Value} {out : Spliced}
    (h : inline splice? env decl args span st = .ok out st') :
    ∃ generics bindings ret scopes params body t₁ t₂,
      declareGenerics env (env.scopes.push (.function decl.name none)) decl.generics =
        .ok generics ∧
      checkArguments { env with scopes := generics } decl.name span 0 .empty
        (decl.params.zip (args.map (·.ty))) = .ok bindings ∧
      reserveReturn { env with scopes := bindGenerics bindings generics decl.generics } decl span
        { st with log := .inlining decl.name env.inlining.length :: st.log } = .ok ret t₁ ∧
      bindParams (entered env decl (bindGenerics bindings generics decl.generics) ret)
        (decl.params.zip args) t₁ = .ok (scopes, params) t₂ ∧
      Stmt.lowerBody
        { entered env decl (bindGenerics bindings generics decl.generics) ret with scopes } splice?
        decl.body t₂ = .ok body st' ∧
      out = ⟨params ++ body, ret⟩ := by
  simp only [inline, bind_ok, ofExcept_ok, pure_ok] at h
  obtain ⟨_, t₀, hlog, generics, _, ⟨hgenerics, rfl⟩, bindings, _, ⟨hbindings, rfl⟩, ret, t₁, hret,
    ⟨scopes, params⟩, t₂, hparams, body, t₃, hbody, rfl, rfl⟩ := h
  cases hlog
  exact ⟨generics, bindings, ret, scopes, params, body, t₁, t₂, hgenerics, hbindings, hret,
    hparams, hbody, rfl⟩

end FunctionDecl

theorem EventDecl.declareArgs_cons_ok {span : Span} {s scopes : Scopes} {name : String}
    {arg : EventArg} {rest : List (String × EventArg)}
    (h : declareArgs span s ((name, arg) :: rest) = .ok scopes) :
    s.declaredHere name = false ∧
      declareArgs span (s.declare name ⟨arg.ty, false, .constant arg.target⟩) rest =
        .ok scopes := by
  rw [declareArgs] at h
  by_cases hhere : s.declaredHere name
  · rw [if_pos hhere] at h
    cases h
  · rw [if_neg hhere] at h
    exact ⟨by simpa using hhere, h⟩

theorem EventDecl.lower_ok {declarations : Declarations} {maxInlineDepth : Nat} {event : EventDecl}
    {rule : Rule} (h : event.lower declarations maxInlineDepth st = .ok rule st') :
    ∃ trigger scopes body t, EventDef.find? event.name = some trigger ∧
      declareArgs event.span (Scopes.empty.push .block) (event.args.zip trigger.args) =
        .ok scopes ∧
      Stmt.lowerBody { declarations, maxInlineDepth, scopes } (spliceWithin maxInlineDepth)
        event.body st = .ok body t ∧
      st'.slots = t.slots ∧ rule = ⟨event.name, trigger.target, body⟩ := by
  rw [EventDecl.lower] at h
  cases htrigger : EventDef.find? event.name with
  | none =>
    simp only [htrigger, fail_ok] at h
  | some trigger =>
    simp only [htrigger] at h
    obtain ⟨-, h⟩ := check_ok.mp h
    simp only [bind_ok, ofExcept_ok, pure_ok] at h
    obtain ⟨scopes, _, ⟨hscopes, rfl⟩, body, t, hbody, _, t', hlog, rfl, rfl⟩ := h
    have hslots : t'.slots = t.slots := by
      cases hlog
      rfl
    exact ⟨trigger, scopes, body, t, rfl, hscopes, hbody, hslots, rfl⟩

namespace Program

theorem lowerEvents_nil_ok {declarations : Declarations} {maxInlineDepth : Nat} {rules : List Rule}
    (h : lowerEvents declarations maxInlineDepth [] st = .ok rules st') :
    rules = [] ∧ st = st' := by
  simp only [lowerEvents, pure_ok] at h
  exact ⟨h.1.symm, h.2⟩

theorem lowerEvents_cons_ok {declarations : Declarations} {maxInlineDepth : Nat} {e : EventDecl}
    {es : List EventDecl} {rules : List Rule}
    (h : lowerEvents declarations maxInlineDepth (e :: es) st = .ok rules st') :
    ∃ rule t rest, e.lower declarations maxInlineDepth st = .ok rule t ∧
      lowerEvents declarations maxInlineDepth es t = .ok rest st' ∧ rules = rule :: rest := by
  simp only [lowerEvents, bind_ok, pure_ok] at h
  obtain ⟨rule, t, hrule, rest, t', hrest, rfl, rfl⟩ := h
  exact ⟨rule, t, rest, hrule, hrest, rfl⟩

theorem lowerEvents_append_ok {declarations : Declarations} {maxInlineDepth : Nat}
    {es es' : List EventDecl} {rules : List Rule} {st : LowerState}
    (h : lowerEvents declarations maxInlineDepth (es ++ es') st = .ok rules st') :
    ∃ rules₁ t rules₂, lowerEvents declarations maxInlineDepth es st = .ok rules₁ t ∧
      lowerEvents declarations maxInlineDepth es' t = .ok rules₂ st' ∧
      rules = rules₁ ++ rules₂ := by
  induction es generalizing st rules with
  | nil => exact ⟨[], st, rules, rfl, h, rfl⟩
  | cons e es ih =>
    obtain ⟨rule, t, rest, he, hrest, rfl⟩ := lowerEvents_cons_ok h
    obtain ⟨rules₁, t', rules₂, hes, hes', rfl⟩ := ih hrest
    refine ⟨rule :: rules₁, t', rules₂, ?_, hes', rfl⟩
    simp only [lowerEvents, bind_ok, pure_ok]
    exact ⟨rule, t, he, rules₁, t', hes, rfl, rfl⟩

/-- The state in which the first event of a program is lowered. -/
def start (options : Options) (declarations : Declarations) : LowerState :=
  { slots := .empty options.maxSlots
    log := [.collected declarations.functions.size declarations.aliases.size] }

/-- The steps of a program. -/
theorem lower_ok {options : Options} {program : Program} {rules : List Rule}
    (h : program.lower options = .ok rules st') :
    ∃ declarations t, Declarations.collect program = .ok declarations ∧
      lowerEvents declarations options.maxInlineDepth program.events
        (start options declarations) = .ok rules t := by
  simp only [lower, EStateM.run, lowerAll, bind_ok, ofExcept_ok, pure_ok] at h
  obtain ⟨declarations, _, ⟨hcollect, rfl⟩, _, t₀, hlog, rules', t, hrules, _, _, _, _, _, _, rfl,
    rfl⟩ := h
  cases hlog
  exact ⟨declarations, t, hcollect, hrules⟩

end Program

end

end RuleScript
