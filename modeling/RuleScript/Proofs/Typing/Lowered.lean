import RuleScript.Proofs.Lowering.Isolation
import RuleScript.Proofs.Typing.Consistency
import RuleScript.Proofs.Typing.Names

/-!
# The types in lowered code

Lowering writes types into rules in many places: the types of operators, those of variables and
parameters, those that annotations stand for, and those of saved conditions and return values. They
are looked at all at once, for any property of types that a type inherits from the types it is made
of. If every call binds its generics to types with the property, then every type in the rules has
it; and whatever the calls do, the types in the rules are consistent.

## Main definitions

* `Ty.Inherited`: a type has the property if the types that it is made of have it
* `Action.WellTyped`: the types in a body are consistent and have a property
* `Program.BindsTo`: every call that lowering comes to binds its generics to types with a property

## Main results

* `Stmt.lowerBody_wellTyped`: what one body is lowered to is well typed if its calls are
* `Program.lower_wellTyped`: what a program is lowered to is well typed
* `Program.lower_consistent`: the types of a lowered program are consistent, also once folded
-/

namespace RuleScript

variable {T : Ty → Prop}

/-! ## Properties of types -/

namespace Ty

/-- A type has the property if the types that it is made of have it, and the items of an array have
it if the array has it. Nothing is said about generics. -/
structure Inherited (T : Ty → Prop) : Prop where
  native (name : String) : T (.native name)
  array {item : Ty} : T item → T (.array item)
  item {item : Ty} : T (.array item) → T item
  function {params : List Ty} {ret : Option Ty} :
    (∀ p ∈ params, T p) → (∀ r, ret = some r → T r) → T (.function params ret)
  variadic {inner : Ty} : T inner → T (.variadic inner)
  union {members : List Ty} : (∀ m ∈ members, T m) → T (.union members)

theorem inherited_true : Inherited fun _ => True := by
  constructor <;> intros <;> trivial

theorem inherited_hasGeneric : Inherited fun ty => ty.hasGeneric = false where
  native _ := rfl
  array h := h
  item h := h
  function hparams hret := by
    rw [hasGeneric, anyGeneric_eq_false.mpr hparams, optionGeneric_eq_false.mpr hret]
    rfl
  variadic h := h
  union h := anyGeneric_eq_false.mpr h

namespace Inherited

theorem composed (hT : Inherited T) : Composed T := ⟨hT.array, hT.function, hT.variadic, hT.union⟩

mutual

/-- A type without generics has every inherited property. -/
theorem of_hasGeneric (hT : Inherited T) : ∀ t : Ty, t.hasGeneric = false → T t
  | .native name, _ => hT.native name
  | .array item, h => hT.array (of_hasGeneric hT item h)
  | .function params ret, h => by
    rw [hasGeneric, Bool.or_eq_false_iff] at h
    exact hT.function (of_anyGeneric hT params h.1) (of_optionGeneric hT ret h.2)
  | .variadic inner, h => hT.variadic (of_hasGeneric hT inner h)
  | .generic _ _, h => by cases h
  | .union members, h => hT.union (of_anyGeneric hT members h)

theorem of_anyGeneric (hT : Inherited T) :
    ∀ ts : List Ty, anyGeneric ts = false → ∀ t ∈ ts, T t
  | [], _ => nofun
  | t :: ts, h => by
    rw [anyGeneric, Bool.or_eq_false_iff] at h
    rw [List.forall_mem_cons]
    exact ⟨of_hasGeneric hT t h.1, of_anyGeneric hT ts h.2⟩

theorem of_optionGeneric (hT : Inherited T) :
    ∀ r : Option Ty, optionGeneric r = false → ∀ t, r = some t → T t
  | none, _ => nofun
  | some t, h => fun _ ht => Option.some.inj ht ▸ of_hasGeneric hT t h

end

end Inherited

end Ty

/-! ## Code whose types have a property -/

namespace Value

/-- The type of the value agrees with its parts and has the property. -/
structure Typed (T : Ty → Prop) (v : Value) : Prop where
  agrees : v.Agrees
  ty : T v.ty

/-- The value and all values inside it are typed. -/
abbrev WellTyped (T : Ty → Prop) (v : Value) : Prop := v.Throughout (Typed T)

/-- A value without parts is well typed if it is typed. -/
theorem wellTyped_leaf {v : Value} (hparts : v.parts = []) (hagrees : v.Agrees) (hty : T v.ty) :
    v.WellTyped T := by
  rw [WellTyped, throughout_iff, hparts]
  exact ⟨⟨hagrees, hty⟩, nofun⟩

theorem wellTyped_read {ty : Ty} (slot : Slot) (h : T ty) : (read ty slot).WellTyped T :=
  wellTyped_leaf rfl trivial h

theorem wellTyped_constant {ty : Ty} (text : String) (h : T ty) : (constant ty text).WellTyped T :=
  wellTyped_leaf rfl trivial h

theorem wellTyped_ofNumber (hnumber : T .number) (x : Float) : (ofNumber x).WellTyped T :=
  wellTyped_leaf rfl rfl hnumber

theorem wellTyped_ofBool (hT : Ty.Inherited T) (b : Bool) : (ofBool b).WellTyped T :=
  wellTyped_leaf rfl rfl (hT.native _)

theorem wellTyped_ofText (hT : Ty.Inherited T) (s : String) : (ofText s).WellTyped T :=
  wellTyped_leaf rfl rfl (hT.native _)

theorem wellTyped_negate (hT : Ty.Inherited T) {v : Value} (h : v.WellTyped T)
    (hty : v.ty = .boolean) : v.negate.WellTyped T :=
  (throughout_iff _).mpr ⟨⟨⟨rfl, hty⟩, hT.native _⟩, by simpa [negate] using h⟩

theorem wellTyped_binary {ty : Ty} {op : BinOp} {lhs rhs : Value} (hl : lhs.WellTyped T)
    (hr : rhs.WellTyped T) (h : op.Agrees ty lhs.ty rhs.ty) (hty : T ty) :
    (binary ty op lhs rhs).WellTyped T :=
  (throughout_iff _).mpr ⟨⟨h, hty⟩, by simp [hl, hr]⟩

end Value

namespace Action

/-- The type that the action gives to a variable. -/
@[simp] def declared? : Action → Option Ty
  | declare _ ty _ => some ty
  | block _ | branch _ _ | loop _ _ | assign _ _ | assignField _ _ _ | call _ _ | stop | next
  | noop => none

/-- The condition of the action is a truth value, and the type it gives to a variable has the
property. -/
structure Typed (T : Ty → Prop) (a : Action) : Prop where
  agrees : a.Agrees
  declared : ∀ ty, a.declared? = some ty → T ty

/-- All actions and all values in the body are typed. -/
abbrev WellTyped (T : Ty → Prop) (body : List Action) : Prop :=
  Throughout (Typed T) (Value.Typed T) body

/-- An action that neither tests nor declares is typed. -/
theorem typed_of_none {a : Action} (hcondition : a.condition? = none)
    (hdeclared : a.declared? = none) : a.Typed T :=
  ⟨agrees_of_condition? hcondition, fun ty hty => by rw [hdeclared] at hty; cases hty⟩

/-- An action that tests a truth value and does not declare is typed. -/
theorem typed_of_boolean {a : Action} {condition : Value}
    (hcondition : a.condition? = some condition) (hdeclared : a.declared? = none)
    (hty : condition.ty = .boolean) : a.Typed T := by
  refine ⟨fun c hc => ?_, fun ty hdeclares => ?_⟩
  · obtain rfl := Option.some.inj (hcondition.symm.trans hc)
    exact hty
  · rw [hdeclared] at hdeclares
    cases hdeclares

/-- An action without actions inside it. -/
theorem wellTyped_simple {a : Action} (hcondition : a.condition? = none)
    (hdeclared : a.declared? = none) (hinner : a.inner = [])
    (hvalues : ∀ v ∈ a.values, v.WellTyped T) : WellTyped T [a] := by
  rw [WellTyped, throughout_cons, hinner]
  exact ⟨typed_of_none hcondition hdeclared, hvalues, throughout_nil, throughout_nil⟩

theorem wellTyped_block {body : List Action} (h : WellTyped T body) : WellTyped T [block body] :=
  throughout_cons.mpr ⟨typed_of_none rfl rfl, nofun, h, throughout_nil⟩

theorem wellTyped_assign {slot : Slot} {value : Value} (h : value.WellTyped T) :
    WellTyped T [assign slot value] :=
  wellTyped_simple rfl rfl rfl (by simpa using h)

theorem wellTyped_declare {slot : Slot} {ty : Ty} {value : Value} (h : value.WellTyped T)
    (hty : T ty) : WellTyped T [declare slot ty value] := by
  refine throughout_cons.mpr ⟨⟨agrees_of_condition? rfl, ?_⟩, by simpa using h, throughout_nil,
    throughout_nil⟩
  rintro _ ⟨⟩
  exact hty

theorem wellTyped_branch {condition : Value} {body : List Action} (h : condition.WellTyped T)
    (hty : condition.ty = .boolean) (hbody : WellTyped T body) :
    WellTyped T [branch condition body] := by
  exact throughout_cons.mpr ⟨typed_of_boolean rfl rfl hty, by simpa using h, hbody, throughout_nil⟩

theorem wellTyped_loop {condition : Value} {body : List Action} (h : condition.WellTyped T)
    (hty : condition.ty = .boolean) (hbody : WellTyped T body) :
    WellTyped T [loop condition body] := by
  exact throughout_cons.mpr ⟨typed_of_boolean rfl rfl hty, by simpa using h, hbody, throughout_nil⟩

theorem wellTyped_append {as bs : List Action} (ha : WellTyped T as) (hb : WellTyped T bs) :
    WellTyped T (as ++ bs) :=
  throughout_append.mpr ⟨ha, hb⟩

theorem wellTyped_cons {a : Action} {as : List Action} (ha : WellTyped T [a])
    (has : WellTyped T as) : WellTyped T (a :: as) :=
  wellTyped_append ha has

theorem wellTyped_behind {before : List Action} {a : Action} (hbefore : WellTyped T before)
    (ha : WellTyped T [a]) : WellTyped T [behind before a] :=
  throughout_behind (fun _ => typed_of_none rfl rfl) hbefore ha

theorem wellTyped_loopWith (hT : Ty.Inherited T) {check body : List Action} {condition : Value}
    (hcheck : WellTyped T check) (h : condition.WellTyped T) (hty : condition.ty = .boolean)
    (hbody : WellTyped T body) : WellTyped T [loopWith check condition body] := by
  unfold loopWith
  split
  · exact wellTyped_loop h hty hbody
  · have hstop : WellTyped T [stop] := wellTyped_simple rfl rfl rfl nofun
    have hexit := wellTyped_branch (Value.wellTyped_negate hT h hty) rfl hstop
    exact wellTyped_loop (Value.wellTyped_ofBool hT true) rfl
      (wellTyped_append hcheck (wellTyped_cons hexit hbody))

theorem wellTyped_countStep (hnumber : T .number) (slot : Slot) :
    WellTyped T [Stmt.countStep slot] :=
  wellTyped_assign (Value.wellTyped_binary (Value.wellTyped_read slot hnumber)
    (Value.wellTyped_ofNumber hnumber 1.0) ⟨rfl, rfl, .inl rfl⟩ hnumber)

end Action

/-- A lowered expression is well typed, and so is the code before it. -/
structure Lowered.WellTyped (T : Ty → Prop) (out : Lowered) : Prop where
  before : Action.WellTyped T out.before
  value : out.value.WellTyped T

/-- Lowered expressions are well typed, and so is the code before them. -/
structure LoweredList.WellTyped (T : Ty → Prop) (out : LoweredList) : Prop where
  before : Action.WellTyped T out.before
  values : ∀ v ∈ out.values, v.WellTyped T

/-- The body of a call is well typed, and its return value has a type with the property. -/
structure Spliced.WellTyped (T : Ty → Prop) (out : Spliced) : Prop where
  body : Action.WellTyped T out.body
  ret : ∀ r, out.ret = some r → T r.ty

/-! ## Scopes -/

/-- The types and the variables of the scope have types with the property, and so has the code that
comes before a new round. -/
structure Scope.WellTyped (T : Ty → Prop) (scope : Scope) : Prop where
  types : ∀ name ty, scope.types.get? name = some ty → T ty
  bindings : ∀ name b, scope.bindings.get? name = some b → T b.ty
  step : ∀ step, scope.kind = .loop (some step) → Action.WellTyped T [step]

namespace Scopes

/-- All open scopes are well typed. -/
def WellTyped (T : Ty → Prop) (s : Scopes) : Prop := ∀ scope ∈ s.open_, scope.WellTyped T

variable {s : Scopes}

theorem WellTyped.push (h : s.WellTyped T) {kind : ScopeKind}
    (hkind : ∀ step, kind = .loop (some step) → Action.WellTyped T [step]) :
    (s.push kind).WellTyped T :=
  List.forall_mem_cons.mpr ⟨⟨nofun, nofun, hkind⟩, h⟩

theorem WellTyped.declare (h : s.WellTyped T) {name : String} {b : Binding} (hb : T b.ty) :
    (s.declare name b).WellTyped T := by
  obtain ⟨l⟩ := s
  cases l with
  | nil => exact h
  | cons scope outer =>
    obtain ⟨hscope, houter⟩ := List.forall_mem_cons.mp h
    rw [declare_cons]
    refine List.forall_mem_cons.mpr ⟨⟨hscope.types, fun other b' hb' => ?_, hscope.step⟩, houter⟩
    by_cases hname : other = name
    · subst hname
      obtain rfl := Option.some.inj ((Table.get?_insert_self _ _ _).symm.trans hb')
      exact hb
    · exact hscope.bindings other b' ((Table.get?_insert_of_ne _ _ hname).symm.trans hb')

theorem WellTyped.type? (h : s.WellTyped T) {name : String} {ty : Ty}
    (hty : s.type? name = some ty) : T ty := by
  obtain ⟨scope, hmem, hget⟩ := List.exists_of_findSome?_eq_some hty
  exact (h scope (s.visible_prefix.subset hmem)).types name ty hget

theorem WellTyped.binding? (h : s.WellTyped T) {name : String} {b : Binding}
    (hb : s.binding? name = some b) : T b.ty := by
  obtain ⟨scope, hmem, hget⟩ := List.exists_of_findSome?_eq_some hb
  exact (h scope (s.visible_prefix.subset hmem)).bindings name b hget

/-- The code before a new round of the nearest loop is well typed. -/
theorem WellTyped.step (h : s.WellTyped T) {step : Action}
    (hstep : s.enclosingLoop? = some (some step)) : Action.WellTyped T [step] := by
  obtain ⟨l⟩ := s
  induction l with
  | nil => cases hstep
  | cons scope outer ih =>
    obtain ⟨hscope, houter⟩ := List.forall_mem_cons.mp h
    rw [enclosingLoop?, loopAmong] at hstep
    split at hstep
    case h_1 found hkind =>
      cases hstep
      exact hscope.step step hkind
    case h_2 => cases hstep
    case h_3 => exact ih houter hstep

theorem WellTyped.count (hnumber : T .number) (h : s.WellTyped T) (marker : String) (slot : Slot) :
    (Stmt.countScopes s marker slot).WellTyped T := by
  have hmarker : (s.push .block).WellTyped T := h.push nofun
  refine WellTyped.push (hmarker.declare hnumber) ?_
  rintro _ ⟨⟩
  exact Action.wellTyped_countStep hnumber slot

/-- The scopes at the start of a call. -/
theorem WellTyped.enter (h : s.WellTyped T) {types : Table Ty}
    (htypes : ∀ name ty, types.get? name = some ty → T ty) {ret : Option ReturnSlot}
    (hret : ∀ r, ret = some r → T r.ty) (function : String) :
    (FunctionDecl.enteredScopes function types ret s.open_).WellTyped T := by
  refine List.forall_mem_cons.mpr ⟨⟨htypes, fun name b hb => ?_, nofun⟩, h⟩
  obtain ⟨-, r, hr, rfl⟩ := FunctionDecl.get?_returnBindings hb
  exact hret r hr

end Scopes

namespace Env

variable {env : Env}

theorem resolve_inherited (hT : Ty.Inherited T) (henv : env.scopes.WellTyped T) {e : TypeExpr}
    {ty : Ty} (h : env.resolve e = .ok ty) : T ty :=
  resolveIn_composed hT.composed hT.native (fun _ _ => henv.type?) h

theorem resolve?_inherited (hT : Ty.Inherited T) (henv : env.scopes.WellTyped T)
    {e : Option TypeExpr} {r : Option Ty} (h : env.resolve? e = .ok r) :
    ∀ ty, r = some ty → T ty := by
  cases e with
  | none =>
    cases h
    exact nofun
  | some e =>
    rw [Env.resolve?, Except.bind_eq_ok] at h
    obtain ⟨t, ht, h⟩ := h
    cases h
    rintro _ ⟨⟩
    exact resolve_inherited hT henv ht

end Env

/-! ## What the target provides -/

theorem ConstantDef.hasGeneric_of_find? {name : String} {c : ConstantDef}
    (h : ConstantDef.find? name = some c) : c.ty.hasGeneric = false := by
  have hall : ∀ c ∈ ConstantDef.all, c.ty.hasGeneric = false := by decide
  exact hall c (List.mem_of_find?_eq_some h)

theorem FunctionDef.hasGeneric_of_find? {name : String} {f : FunctionDef}
    (h : FunctionDef.find? name = some f) :
    (∀ p ∈ f.params, p.ty.hasGeneric = false) ∧ Ty.optionGeneric f.ret = false := by
  have hall : ∀ f ∈ FunctionDef.all,
      (∀ p ∈ f.params, p.ty.hasGeneric = false) ∧ Ty.optionGeneric f.ret = false := by decide
  exact hall f (List.mem_of_find?_eq_some h)

theorem EventDef.hasGeneric_of_find? {name : String} {trigger : EventDef}
    (h : EventDef.find? name = some trigger) :
    ∀ arg ∈ trigger.args, arg.ty.hasGeneric = false := by
  have hall : ∀ trigger ∈ EventDef.all, ∀ arg ∈ trigger.args, arg.ty.hasGeneric = false := by decide
  exact hall trigger (List.mem_of_find?_eq_some h)

theorem Value.wellTyped_defaults? {ps : List ParamDef} {values : List Value}
    (hps : ∀ p ∈ ps, T p.ty) (h : defaults? ps = some values) : ∀ v ∈ values, v.WellTyped T := by
  induction ps generalizing values with
  | nil =>
    cases h
    exact nofun
  | cons p ps ih =>
    obtain ⟨hp, hps⟩ := List.forall_mem_cons.mp hps
    rw [defaults?] at h
    split at h
    · cases h
      exact nofun
    · split at h
      · cases h
      · obtain ⟨rest, hrest, rfl⟩ := Option.map_eq_some_iff.mp h
        exact List.forall_mem_cons.mpr ⟨wellTyped_constant _ hp, ih hps hrest⟩

/-! ## Expressions -/

section

variable {options : Options} {program : Program} {n : Nat} {env : Env}

/-- Every call that lowering comes to with so many calls left to nest gives well typed code. -/
def Program.InlinesWellTyped (T : Ty → Prop) (options : Options) (program : Program) (n : Nat) :
    Prop :=
  ∀ {env decl args span st out st'},
    Reached options program ⟨.call decl args span, env, n, st⟩ → env.scopes.WellTyped T →
    (∀ v ∈ args, v.WellTyped T) →
    FunctionDecl.inline (spliceWithin n) env decl args span st = .ok out st' → out.WellTyped T

open Program (Reached InlinesWellTyped)

/-- The body of a call, as an expression or as a statement. -/
theorem Env.MayCall.wellTyped {task : Task} {span : Span} {name : String} {args : List Expr}
    {given : Nat} {decl : FunctionDecl} {splice : Splice} {vs : LoweredList} {out : Spliced}
    {st t st' : LowerState}
    (hcalls : ∀ m < n, InlinesWellTyped T options program m)
    (hp : Reached options program ⟨task, env, n, st⟩) (henv : env.scopes.WellTyped T)
    (hcall : task.call? = some (span, name, args))
    (hdecl : env.declarations.functions.get? name = some decl)
    (hmay : env.MayCall (spliceWithin n) decl given splice)
    (hvs : Expr.lowerList env (spliceWithin n) args st = .ok vs t) (hvalues : vs.WellTyped T)
    (h : splice env decl vs.values span t = .ok out st') : out.WellTyped T := by
  have hsplice := hmay.splice
  cases n with
  | zero => cases hsplice
  | succ m =>
    cases hsplice
    exact hcalls m (Nat.lt_succ_self m) (hp.step (.callee hcall hdecl hvs)) henv hvalues.values h

namespace Expr

theorem ident_wellTyped (hT : Ty.Inherited T) (henv : env.scopes.WellTyped T) {span : Span}
    {name : String} {v : Value} (h : env.ident span name = .ok v) : v.WellTyped T := by
  unfold Env.ident at h
  split at h
  case h_1 ty _ slot hb =>
    cases h
    exact Value.wellTyped_read slot (henv.binding? hb)
  case h_2 ty _ text hb =>
    cases h
    exact Value.wellTyped_constant text (henv.binding? hb)
  case h_3 =>
    split at h
    case h_1 c hc =>
      cases h
      exact Value.wellTyped_constant _ (hT.of_hasGeneric _ (ConstantDef.hasGeneric_of_find? hc))
    case h_2 => cases h

theorem ofItems_wellTyped (hT : Ty.Inherited T) {explicit : Option Ty} {items : List Value}
    {span : Span} {v : Value} (hexplicit : ∀ ty, explicit = some ty → T ty)
    (hitems : ∀ v ∈ items, v.WellTyped T) (h : Value.ofItems explicit items span = .ok v) :
    v.WellTyped T := by
  obtain ⟨item, hitem, -, rfl⟩ := Value.ofItems_ok h
  have htype : T item := by
    unfold Value.itemType at hitem
    split at hitem
    · cases hitem
      exact hexplicit item rfl
    · cases hitem
      exact (hitems _ List.mem_cons_self).self.ty
    · cases hitem
  exact (Value.throughout_iff _).mpr ⟨⟨⟨item, rfl⟩, hT.array htype⟩, hitems⟩

theorem lowerList_pair {first limit : Expr} {a b : Lowered} {splice? : Option Splice}
    {st t st' : LowerState} (ha : first.lower env splice? st = .ok a t)
    (hb : limit.lower env splice? t = .ok b st') : lowerList env splice? [first, limit] st =
      .ok ⟨a.before ++ (b.before ++ []), [a.value, b.value]⟩ st' := by
  simp only [lowerList, Lower.bind_ok, Lower.pure_ok]
  exact ⟨a, t, ha, _, st', ⟨b, st', hb, _, st', ⟨rfl, rfl⟩, rfl, rfl⟩, rfl, rfl⟩

mutual

/-- What an expression is lowered to is well typed, and so is the code of the calls in it. -/
theorem lower_wellTyped {e : Expr} {out : Lowered} {st st' : LowerState} (hT : Ty.Inherited T)
    (hcalls : ∀ m < n, InlinesWellTyped T options program m)
    (hp : Reached options program ⟨.expr e, env, n, st⟩) (henv : env.scopes.WellTyped T)
    (h : e.lower env (spliceWithin n) st = .ok out st') : out.WellTyped T := by
  have hparts := hp.step .exprParts
  match e with
  | .number span x =>
    obtain ⟨rfl, rfl⟩ := Lower.pure_ok.mp h
    exact ⟨Action.throughout_nil, Value.wellTyped_ofNumber (hT.native _) x⟩
  | .boolean span b =>
    obtain ⟨rfl, rfl⟩ := Lower.pure_ok.mp h
    exact ⟨Action.throughout_nil, Value.wellTyped_ofBool hT b⟩
  | .string span s =>
    obtain ⟨rfl, rfl⟩ := lower_string_ok h
    exact ⟨Action.throughout_nil, Value.wellTyped_ofText hT s⟩
  | .ident span name =>
    obtain ⟨v, hv, rfl, rfl⟩ := lower_ident_ok h
    exact ⟨Action.throughout_nil, ident_wellTyped hT henv hv⟩
  | .array span item items =>
    obtain ⟨explicit, vs, v, hexplicit, hvs, hv, rfl⟩ := lower_array_ok h
    have hitems := lowerList_wellTyped hT hcalls hparts henv hvs
    exact ⟨hitems.before,
      ofItems_wellTyped hT (Env.resolve?_inherited hT henv hexplicit) hitems.values hv⟩
  | .binary span op left right =>
    obtain ⟨lhs, t, rhs, v, hlhs, hrhs, hv, rfl⟩ := lower_binary_ok h
    have hl := lower_wellTyped hT hcalls (hparts.step .exprsHead) henv hlhs
    have hr := lower_wellTyped hT hcalls ((hparts.step (.exprsTail hlhs)).step .exprsHead) henv hrhs
    simp only [Value.combine, Except.bind_eq_ok] at hv
    obtain ⟨ty, hty, hv⟩ := hv
    cases hv
    have hagrees := BinOp.agrees_of_resultType hty
    refine ⟨Action.wellTyped_append hl.before hr.before,
      Value.wellTyped_binary hl.value hr.value hagrees ?_⟩
    rw [hagrees.typeOn]
    cases op with
    | add => exact hl.value.self.ty
    | _ => exact hT.native _
  | .not span operand =>
    obtain ⟨o, ho, hboolean, rfl⟩ := lower_not_ok h
    have hoperand := lower_wellTyped hT hcalls (hparts.step .exprsHead) henv ho
    exact ⟨hoperand.before, Value.wellTyped_negate hT hoperand.value hboolean⟩
  | .typeOf span operand =>
    obtain ⟨o, ho, rfl⟩ := lower_typeOf_ok h
    exact ⟨Action.throughout_nil, Value.wellTyped_ofText hT _⟩
  | .index span object place =>
    obtain ⟨a, t, i, item, ha, hi, hitem, hnumber, rfl⟩ := lower_index_ok h
    have harray := lower_wellTyped hT hcalls (hparts.step .exprsHead) henv ha
    have hplace :=
      lower_wellTyped hT hcalls ((hparts.step (.exprsTail ha)).step .exprsHead) henv hi
    refine ⟨Action.wellTyped_append harray.before hplace.before,
      (Value.throughout_iff _).mpr ⟨⟨⟨hitem, hnumber⟩, ?_⟩, ?_⟩⟩
    · have hty := harray.value.self.ty
      rw [hitem] at hty
      exact hT.item hty
    · simp [harray.value, hplace.value]
  | .call span name args =>
    rcases lower_call_ok h with
      ⟨decl, splice, vs, t, body, r, hdecl, hmay, hvs, hspliced, rfl⟩ |
      ⟨f, vs, ty, hdecl, hf, hvs, hret, rfl⟩
    · have hvalues := lowerList_wellTyped hT hcalls (hp.step (.ownArgs rfl hdecl)) henv hvs
      have hbody := hmay.wellTyped hcalls hp henv rfl hdecl hvs hvalues hspliced
      exact ⟨Action.wellTyped_append hvalues.before (Action.wellTyped_block hbody.body),
        Value.wellTyped_read r.slot (hbody.ret r rfl)⟩
    · obtain ⟨hparams, hrets⟩ := FunctionDef.hasGeneric_of_find? hf
      have hvalues := lowerArgs_wellTyped hT hcalls (hp.step (.targetArgs rfl hdecl hf)) henv
        (fun p hmem => hT.of_hasGeneric _ (hparams p hmem)) hvs
      exact ⟨hvalues.before, (Value.throughout_iff _).mpr
        ⟨⟨trivial, hT.of_optionGeneric _ hrets ty hret⟩, hvalues.values⟩⟩

theorem lowerList_wellTyped {es : List Expr} {vs : LoweredList} {st st' : LowerState}
    (hT : Ty.Inherited T) (hcalls : ∀ m < n, InlinesWellTyped T options program m)
    (hp : Reached options program ⟨.exprs es, env, n, st⟩) (henv : env.scopes.WellTyped T)
    (h : lowerList env (spliceWithin n) es st = .ok vs st') : vs.WellTyped T := by
  match es with
  | [] =>
    obtain ⟨rfl, rfl⟩ := lowerList_nil_ok h
    exact ⟨Action.throughout_nil, nofun⟩
  | e :: es =>
    obtain ⟨v, t, rest, hv, hrest, rfl⟩ := lowerList_cons_ok h
    have hfirst := lower_wellTyped hT hcalls (hp.step .exprsHead) henv hv
    have hothers := lowerList_wellTyped hT hcalls (hp.step (.exprsTail hv)) henv hrest
    exact ⟨Action.wellTyped_append hfirst.before hothers.before,
      List.forall_mem_cons.mpr ⟨hfirst.value, hothers.values⟩⟩

theorem lowerArgs_wellTyped {f : FunctionDef} {given index : Nat} {span : Span}
    {params : List ParamDef} {bindings : Bindings} {es : List Expr} {vs : LoweredList}
    {st st' : LowerState} (hT : Ty.Inherited T)
    (hcalls : ∀ m < n, InlinesWellTyped T options program m)
    (hp : Reached options program ⟨.args f given span index params bindings es, env, n, st⟩)
    (henv : env.scopes.WellTyped T) (hparams : ∀ p ∈ params, T p.ty)
    (h : lowerArgs env (spliceWithin n) f given span index params bindings es st = .ok vs st') :
    vs.WellTyped T := by
  match es with
  | [] =>
    obtain ⟨values, hvalues, rfl, rfl⟩ := lowerArgs_nil_ok h
    exact ⟨Action.throughout_nil, Value.wellTyped_defaults? hparams hvalues⟩
  | e :: es =>
    obtain ⟨p, ps, rfl, ⟨htemplate, s, text, rest, rfl, hrest, rfl⟩ |
      ⟨hplain, v, t, bindings', rest, hv, hfits, hrest, rfl⟩⟩ := lowerArgs_cons_ok h
    · have hothers := lowerArgs_wellTyped hT hcalls (hp.step (.argsTemplate htemplate)) henv
        (List.forall_mem_cons.mp hparams).2 hrest
      exact ⟨hothers.before, List.forall_mem_cons.mpr
        ⟨Value.wellTyped_leaf rfl rfl (hT.native _), hothers.values⟩⟩
    · have hfirst := lower_wellTyped hT hcalls (hp.step (.argsHead hplain)) henv hv
      have hleft : ∀ q ∈ (if p.ty.isVariadic then p :: ps else ps), T q.ty := by
        split
        · exact hparams
        · exact (List.forall_mem_cons.mp hparams).2
      have hothers :=
        lowerArgs_wellTyped hT hcalls (hp.step (.argsTail hplain hv hfits)) henv hleft hrest
      exact ⟨Action.wellTyped_append hfirst.before hothers.before,
        List.forall_mem_cons.mpr ⟨hfirst.value, hothers.values⟩⟩

end

end Expr

/-! ## Statements -/

namespace Stmt

/-- The type of a declared variable has the property. -/
theorem declaredType_inherited {span : Span} {annotated : Option Ty} {value : Option Value}
    {ty : Ty} (hannotated : ∀ ty, annotated = some ty → T ty)
    (hvalue : ∀ v, value = some v → T v.ty) (h : declaredType span annotated value = .ok ty) :
    T ty := by
  cases annotated with
  | none =>
    cases value with
    | none => cases h
    | some v =>
      cases h
      exact hvalue v rfl
  | some annotated =>
    cases value with
    | none =>
      cases h
      exact hannotated ty rfl
    | some v =>
      rw [declaredType, Except.bind_eq_ok] at h
      obtain ⟨fits, -, h⟩ := h
      cases fits with
      | false => cases h
      | true =>
        cases h
        exact hannotated ty rfl

/-- A saved condition is a truth value, and the code that saves it is well typed. -/
theorem saveCondition_wellTyped (hT : Ty.Inherited T) {condition saved : Value}
    {save : List Action} {span : Span} {st st' : LowerState} (h : condition.WellTyped T)
    (hty : condition.ty = .boolean)
    (hsave : saveCondition condition span st = .ok (save, saved) st') :
    Action.WellTyped T save ∧ saved.WellTyped T ∧ saved.ty = .boolean := by
  rcases saveCondition_ok hsave with ⟨-, rfl, rfl, -⟩ | ⟨slot, -, rfl, rfl⟩
  · exact ⟨Action.throughout_nil, h, hty⟩
  · exact ⟨Action.wellTyped_declare h (hT.native _), Value.wellTyped_read slot (hT.native _), rfl⟩

/-- What a declaration is lowered to is well typed, and so are the scopes after it. -/
theorem lower_declare_wellTyped {span : Span} {name : String} {ty : Option TypeExpr}
    {value : Option Expr} {constant : Bool} {scopes : Scopes} {action : Action}
    {st st' : LowerState} (hT : Ty.Inherited T)
    (hcalls : ∀ m < n, InlinesWellTyped T options program m)
    (hp : Reached options program ⟨.stmt (.declare span name ty value constant), env, n, st⟩)
    (henv : env.scopes.WellTyped T)
    (h : (Stmt.declare span name ty value constant).lower env (spliceWithin n) st =
      .ok (scopes, action) st') : Action.WellTyped T [action] ∧ scopes.WellTyped T := by
  obtain ⟨-, annotated, lowered, t, ty', slot, hannotated, hlowered, hty, -, rfl, rfl⟩ :=
    lower_declare_ok h
  have hresolved := Env.resolve?_inherited hT henv hannotated
  rcases lowerOption_ok hlowered with ⟨-, rfl, -⟩ | ⟨e, v, rfl, hv, rfl⟩
  · have hty' := declaredType_inherited hresolved (by simp) hty
    exact ⟨Action.wellTyped_simple rfl rfl rfl nofun, henv.declare hty'⟩
  · have hvalue := Expr.lower_wellTyped hT hcalls
      ((hp.step .stmtParts).step .exprsHead) henv hv
    have hty' : T ty' := by
      refine declaredType_inherited hresolved ?_ hty
      rintro _ ⟨⟩
      exact hvalue.value.self.ty
    exact ⟨Action.wellTyped_behind hvalue.before (Action.wellTyped_declare hvalue.value hty'),
      henv.declare hty'⟩

mutual

/-- What a statement is lowered to is well typed, and so are the scopes after it. -/
theorem lower_wellTyped {stmt : Stmt} {scopes : Scopes} {action : Action} {env : Env}
    {st st' : LowerState} (hT : Ty.Inherited T)
    (hcalls : ∀ m < n, InlinesWellTyped T options program m)
    (hp : Reached options program ⟨.stmt stmt, env, n, st⟩) (henv : env.scopes.WellTyped T)
    (h : stmt.lower env (spliceWithin n) st = .ok (scopes, action) st') :
    Action.WellTyped T [action] ∧ scopes.WellTyped T := by
  have hparts := hp.step .stmtParts
  have hblock : (env.push .block).scopes.WellTyped T := henv.push nofun
  match stmt with
  | .block span body =>
    obtain ⟨actions, hbody, rfl, rfl⟩ := lower_block_ok h
    have hactions := lowerBody_wellTyped hT hcalls (hp.step .block) hblock hbody
    exact ⟨Action.wellTyped_block hactions, henv⟩
  | .declare span name ty value constant => exact lower_declare_wellTyped hT hcalls hp henv h
  | .assign span name value =>
    obtain ⟨ty, slot, v, -, hv, -, rfl, rfl⟩ := lower_assign_ok h
    have hvalue := Expr.lower_wellTyped hT hcalls (hparts.step .exprsHead) henv hv
    exact ⟨Action.wellTyped_behind hvalue.before (Action.wellTyped_assign hvalue.value), henv⟩
  | .assignField span object field value =>
    obtain ⟨o, t, v, ho, hv, rfl, rfl⟩ := lower_assignField_ok h
    have hobject := Expr.lower_wellTyped hT hcalls (hparts.step .exprsHead) henv ho
    have hvalue := Expr.lower_wellTyped hT hcalls ((hparts.step (.exprsTail ho)).step .exprsHead)
      henv hv
    refine ⟨Action.wellTyped_behind (Action.wellTyped_append hobject.before hvalue.before)
      (Action.wellTyped_simple rfl rfl rfl ?_), henv⟩
    simp [hobject.value, hvalue.value]
  | .branch span condition body none =>
    obtain ⟨v, t, actions, hv, hboolean, hbody, rfl, rfl⟩ := lower_branch_ok h
    have hcondition := Expr.lower_wellTyped hT hcalls (hparts.step .exprsHead) henv hv
    have hactions := lowerBody_wellTyped hT hcalls (hp.step (.branch hv)) hblock hbody
    exact ⟨Action.wellTyped_behind hcondition.before
      (Action.wellTyped_branch hcondition.value hboolean hactions), henv⟩
  | .branch span condition body (some otherwise) =>
    obtain ⟨v, t, save, saved, t₁, actions, t₂, actions', hv, hboolean, hsave, hbody, hother, rfl,
      rfl⟩ := lower_branchElse_ok h
    have hcondition := Expr.lower_wellTyped hT hcalls (hparts.step .exprsHead) henv hv
    obtain ⟨hsaves, hsaved, hty⟩ :=
      saveCondition_wellTyped hT hcondition.value hboolean hsave
    have hactions := lowerBody_wellTyped hT hcalls (hp.step (.branchThen hv hsave)) hblock hbody
    have hactions' :=
      lowerBody_wellTyped hT hcalls (hp.step (.branchElse hv hsave hbody)) hblock hother
    have hbranches := Action.wellTyped_cons (Action.wellTyped_branch hsaved hty hactions)
      (Action.wellTyped_branch (Value.wellTyped_negate hT hsaved hty) rfl hactions')
    exact ⟨Action.wellTyped_behind hcondition.before
      (Action.wellTyped_block (Action.wellTyped_append hsaves hbranches)), henv⟩
  | .loop span condition body =>
    obtain ⟨v, t, actions, hv, hboolean, hbody, rfl, rfl⟩ := lower_loop_ok h
    have hcondition := Expr.lower_wellTyped hT hcalls (hparts.step .exprsHead) henv hv
    have hactions :=
      lowerBody_wellTyped hT hcalls (hp.step (.loop hv)) (henv.push (by simp)) hbody
    exact ⟨Action.wellTyped_loopWith hT hcondition.before hcondition.value hboolean hactions, henv⟩
  | .count span marker first limit body =>
    obtain ⟨a, t₁, b, t₂, slot, t₃, actions, ha, hb, -, hnumber, hslot, hbody, rfl, rfl⟩ :=
      lower_count_ok h
    have hbounds := hp.step .bounds
    have hfirst := Expr.lower_wellTyped hT hcalls (hbounds.step .exprsHead) hblock ha
    have hlimit := Expr.lower_wellTyped hT hcalls ((hbounds.step (.exprsTail ha)).step .exprsHead)
      hblock hb
    have hactions := lowerBody_wellTyped hT hcalls
      (hp.step (.count (Expr.lowerList_pair ha hb) hslot))
      (Scopes.WellTyped.count (hT.native _) henv marker slot) hbody
    have hcondition : (Value.binary .boolean .lt (.read .number slot) b.value).WellTyped T :=
      Value.wellTyped_binary (Value.wellTyped_read slot (hT.native _)) hlimit.value rfl
        (hT.native _)
    have hloop := Action.wellTyped_loopWith hT hlimit.before hcondition rfl
      (Action.wellTyped_append hactions (Action.wellTyped_countStep (hT.native _) slot))
    exact ⟨Action.wellTyped_behind hfirst.before (Action.wellTyped_block (Action.wellTyped_cons
      (Action.wellTyped_declare hfirst.value (hT.native _)) hloop)), henv⟩
  | .ret span value =>
    obtain ⟨rfl, ⟨-, rfl, rfl⟩ | ⟨function, r, e, v, rfl, -, hv, -, rfl⟩⟩ := lower_ret_ok h
    · exact ⟨Action.wellTyped_simple rfl rfl rfl nofun, henv⟩
    · have hvalue := Expr.lower_wellTyped hT hcalls (hparts.step .exprsHead) henv hv
      exact ⟨Action.wellTyped_behind hvalue.before (Action.wellTyped_assign hvalue.value), henv⟩
  | .stop span =>
    obtain ⟨step, -, rfl, rfl, rfl⟩ := lower_stop_ok h
    exact ⟨Action.wellTyped_simple rfl rfl rfl nofun, henv⟩
  | .next span =>
    have hnext : Action.WellTyped T [.next] := Action.wellTyped_simple rfl rfl rfl nofun
    obtain ⟨rfl, rfl, ⟨-, rfl⟩ | ⟨step, hstep, rfl⟩⟩ := lower_next_ok h
    · exact ⟨hnext, henv⟩
    · exact ⟨Action.wellTyped_block (Action.wellTyped_cons (henv.step hstep) hnext), henv⟩
  | .call span name args =>
    obtain ⟨rfl, ⟨decl, splice, vs, t, spliced, hdecl, hmay, hvs, hspliced, rfl⟩ |
      ⟨f, vs, hdecl, hf, hvs, rfl⟩⟩ := lower_call_ok h
    · have hvalues := Expr.lowerList_wellTyped hT hcalls (hp.step (.ownArgs rfl hdecl)) henv hvs
      have hbody := hmay.wellTyped hcalls hp henv rfl hdecl hvs hvalues hspliced
      have hbefore := Action.wellTyped_append hvalues.before (Action.wellTyped_block hbody.body)
      exact ⟨Action.wellTyped_behind hbefore (Action.wellTyped_simple rfl rfl rfl nofun), henv⟩
    · obtain ⟨hparams, -⟩ := FunctionDef.hasGeneric_of_find? hf
      have hvalues := Expr.lowerArgs_wellTyped hT hcalls (hp.step (.targetArgs rfl hdecl hf)) henv
        (fun p hmem => hT.of_hasGeneric _ (hparams p hmem)) hvs
      exact ⟨Action.wellTyped_behind hvalues.before
        (Action.wellTyped_simple rfl rfl rfl hvalues.values), henv⟩

/-- **What a body is lowered to is well typed if its calls are.** -/
theorem lowerBody_wellTyped {body : List Stmt} {actions : List Action} {env : Env}
    {st st' : LowerState} (hT : Ty.Inherited T)
    (hcalls : ∀ m < n, InlinesWellTyped T options program m)
    (hp : Reached options program ⟨.body body, env, n, st⟩) (henv : env.scopes.WellTyped T)
    (h : lowerBody env (spliceWithin n) body st = .ok actions st') :
    Action.WellTyped T actions := by
  match body with
  | [] =>
    obtain ⟨rfl, rfl⟩ := lowerBody_nil_ok h
    exact Action.throughout_nil
  | stmt :: body =>
    obtain ⟨scopes, action, t, rest, hstmt, hrest, rfl⟩ := lowerBody_cons_ok h
    obtain ⟨haction, hscopes⟩ := lower_wellTyped hT hcalls (hp.step .bodyHead) henv hstmt
    exact Action.wellTyped_cons haction
      (lowerBody_wellTyped hT hcalls (hp.step (.bodyTail hstmt)) hscopes hrest)

end

end Stmt

end

/-! ## Calls -/

/-- Every call that lowering comes to binds its generics to types with the property, if its
arguments have such types. -/
def Program.BindsTo (T : Ty → Prop) (options : Options) (program : Program) : Prop :=
  ∀ {env n st decl args span generics types},
    Reached options program ⟨.call decl args span, env, n, st⟩ → (∀ v ∈ args, T v.ty) →
    FunctionDecl.Typed env.declarations decl (args.map (·.ty)) generics types →
    ∀ name ty, types.get? name = some ty → T ty

namespace FunctionDecl

/-- The parameters of a call start with the values of its arguments, which are well typed. -/
theorem bindParams_wellTyped (hT : Ty.Inherited T) {env : Env} {params : List (Param × Value)}
    {scopes : Scopes} {actions : List Action} {st st' : LowerState}
    (henv : env.scopes.WellTyped T) (hargs : ∀ p ∈ params, p.2.WellTyped T)
    (h : bindParams env params st = .ok (scopes, actions) st') :
    Action.WellTyped T actions ∧ scopes.WellTyped T := by
  induction params generalizing env st actions with
  | nil =>
    obtain ⟨rfl, rfl, -⟩ := bindParams_nil_ok h
    exact ⟨Action.throughout_nil, henv⟩
  | cons arg params ih =>
    obtain ⟨p, v⟩ := arg
    obtain ⟨-, ty, slot, t, actions', hty, -, hrest, rfl⟩ := bindParams_cons_ok h
    obtain ⟨hv, hargs⟩ := List.forall_mem_cons.mp hargs
    have htype := Env.resolve_inherited hT henv hty
    obtain ⟨hactions, hscopes⟩ := ih (henv.declare htype) hargs hrest
    exact ⟨Action.wellTyped_cons (Action.wellTyped_declare hv htype) hactions, hscopes⟩

/-- The body of a call is well typed if the calls in it are. -/
theorem inline_wellTyped (hT : Ty.Inherited T) {options : Options} {program : Program}
    (hbinds : program.BindsTo T options) {n : Nat}
    (hcalls : ∀ m < n, program.InlinesWellTyped T options m) :
    program.InlinesWellTyped T options n := by
  intro env decl args span st out st' hp henv hargs h
  obtain ⟨generics, bindings, ret, scopes, params, body, t₁, t₂, hgenerics, hbindings, hret,
    hparams, hbody, rfl⟩ := inline_ok h
  obtain ⟨gtypes, types, htyped, hentered⟩ := typed_of_ok hgenerics hbindings
  have htypes := hbinds hp (fun v hv => (hargs v hv).self.ty) htyped
  have hrets : ∀ r, ret = some r → T r.ty := by
    rcases reserveReturn_ok hret with ⟨-, rfl, -⟩ | ⟨ty, slot, -, hgeneric, -, rfl⟩
    · exact nofun
    · rintro _ ⟨⟩
      exact hT.of_hasGeneric ty hgeneric
  have hscopes : (entered env decl (bindGenerics bindings generics decl.generics)
      ret).scopes.WellTyped T := by
    rw [hentered, entered, declareReturn_entered]
    exact henv.enter htypes hrets decl.name
  obtain ⟨hactions, hbound⟩ := bindParams_wellTyped hT hscopes
    (fun p hmem => hargs p.2 (List.of_mem_zip hmem).2) hparams
  have hlowered := Stmt.lowerBody_wellTyped hT hcalls
    (hp.step (.callBody hgenerics hbindings hret hparams)) hbound hbody
  exact ⟨Action.wellTyped_append hactions hlowered, hrets⟩

end FunctionDecl

/-! ## Programs -/

/-- The values that a trigger provides have types with the property. -/
theorem EventDecl.declareArgs_wellTyped {span : Span} {args : List (String × EventArg)}
    {s scopes : Scopes} (hs : s.WellTyped T) (hargs : ∀ arg ∈ args, T arg.2.ty)
    (h : declareArgs span s args = .ok scopes) : scopes.WellTyped T := by
  induction args generalizing s with
  | nil =>
    cases h
    exact hs
  | cons arg rest ih =>
    obtain ⟨harg, hargs⟩ := List.forall_mem_cons.mp hargs
    obtain ⟨-, hrest⟩ := declareArgs_cons_ok h
    exact ih (hs.declare harg) hargs hrest

namespace Program

variable {options : Options} {program : Program} {rules : List Rule} {st : LowerState}

/-- The body of every call is well typed, however deeply it is inlined. -/
theorem inlinesWellTyped (hT : Ty.Inherited T) (hbinds : program.BindsTo T options) (n : Nat) :
    program.InlinesWellTyped T options n := by
  induction n using Nat.strongRecOn with
  | ind n ih => exact FunctionDecl.inline_wellTyped hT hbinds ih

/-- **What a program is lowered to is well typed** if every call binds its generics to types with
the property. -/
theorem lower_wellTyped (hT : Ty.Inherited T) (hbinds : program.BindsTo T options)
    (h : program.lower options = .ok rules st) : ∀ r ∈ rules, Action.WellTyped T r.body := by
  intro rule hrule
  obtain ⟨event, trigger, env, t, t', hlowered⟩ := exists_loweredAt h hrule
  have hgeneric := EventDef.hasGeneric_of_find? hlowered.find?
  have hempty : (Scopes.empty.push .block).WellTyped T :=
    Scopes.WellTyped.push (fun scope hscope => by cases hscope) nofun
  have henv := EventDecl.declareArgs_wellTyped hempty
    (fun arg hmem => hT.of_hasGeneric _ (hgeneric arg.2 (List.of_mem_zip hmem).2)) hlowered.scopes
  exact Stmt.lowerBody_wellTyped hT (fun m _ => inlinesWellTyped hT hbinds m) hlowered.reached henv
    hlowered.body

/-- **The types of a lowered program are consistent.** In the rules that a program is lowered to,
the type of every value agrees with the types of its parts and every condition is a truth value.
Folding keeps this true of any rules, and it never changes the type of a value of which it is
true. -/
theorem lower_consistent (h : program.lower options = .ok rules st) :
    (∀ r ∈ rules, r.Consistent) ∧
    (∀ rules' : List Rule, (∀ r ∈ rules', r.Consistent) → ∀ r ∈ Rule.foldAll rules', r.Consistent) ∧
    ∀ v : Value, v.Consistent → v.fold.ty = v.ty := by
  refine ⟨fun r hr => ?_, fun _ => Rule.foldAll_consistent, fun _ => Value.fold_ty⟩
  have hwell := lower_wellTyped Ty.inherited_true (fun _ _ _ _ _ _ => trivial) h r hr
  exact hwell.mono (fun _ ha => ha.agrees) fun _ hv => hv.agrees

theorem lower_consistent_nestedCall : ∃ rules st, nestedCall.lower {} = .ok rules st ∧
    (∀ r ∈ rules, r.Consistent) ∧ ∀ r ∈ Rule.foldAll rules, r.Consistent := by
  obtain ⟨rules, st, hlower⟩ : ∃ rules st, nestedCall.lower {} = .ok rules st :=
    exists_of_lowers (by decide +kernel)
  obtain ⟨hrules, hfold, -⟩ := lower_consistent hlower
  exact ⟨rules, st, hlower, hrules, hfold rules hrules⟩

end Program

end RuleScript
