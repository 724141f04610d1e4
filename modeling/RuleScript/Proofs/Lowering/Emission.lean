import RuleScript.Proofs.Lowering.Conformance
import RuleScript.Proofs.Lowering.Control
import RuleScript.Proofs.Typing.Inference

/-!
# What lowering writes into rules

Everything that stands in a lowered rule was written there by lowering a statement or an expression
somewhere in the program, in the body of an event or of a function that was inlined. So what is true
of all that lowering writes is true of all rules. Three things are followed at once.

One is that calls of the target conform: each is written for a function of the table, once its
arguments have been taken one after the other.

Another is where texts come from. A text literal has no braces, and the text of a type has only the
names in the type and marks that are no braces. The types that lowering writes down come from
annotations and from the tables of the target, through scopes, aliases and the generics of calls,
and whatever way they go, their names stay the same.

The last is where names come from. Fields are names in the program, and all others are in the
tables of the target.

## Main definitions

* `Value.WellWritten`, `Action.WellWritten`: calls conform, and names come from the program and from
  the tables
* `Env.Spelled`: the names of types that can be seen have a property

## Main results

* `Stmt.lowerBody_wellWritten`: what one body is lowered to
* `Program.lower_wellWritten`: what a program is lowered to
* `Program.lower_conforms`: all calls of a lowered program conform, also once folded
-/

namespace RuleScript

open Text (Plain isBrace)
open Lexer (IsWord)

variable {P : String → Prop}

/-! ## Names and texts -/

/-- All words have the property, those of the tables among them. -/
def Lexer.Covers (P : String → Prop) : Prop := ∀ s, IsWord s → P s

namespace Lexer.Covers

theorem spelled (hP : Covers P) {t : Ty} (h : t.Spelled IsWord) : t.Spelled P := h.mono hP

theorem native (hP : Covers P) {name : String} (h : IsWord name) : (Ty.native name).Spelled P :=
  Ty.spelled_native.mpr (hP name h)

end Lexer.Covers

open Lexer (Covers)

/-- A parameter of the target has a type with names of the table, and so is the text that stands for
an argument that is left out. -/
structure ParamDef.Known (P : String → Prop) (p : ParamDef) : Prop where
  ty : p.ty.Spelled P
  default : ∀ text, p.default? = some text → text ∈ constantTexts

theorem FunctionDef.known_of_find? (hP : Covers P) {name : String} {f : FunctionDef}
    (h : find? name = some f) : ∀ p ∈ f.params, p.Known P := by
  intro p hp
  obtain ⟨hparams, -⟩ := spelled_of_find? h
  refine ⟨hP.spelled (hparams p hp), fun text htext => ?_⟩
  refine List.mem_append_right _ (List.mem_flatMap.mpr ⟨f, List.mem_of_find?_eq_some h, ?_⟩)
  exact List.mem_filterMap.mpr ⟨p, hp, htext⟩

theorem ConstantDef.mem_constantTexts {name : String} {c : ConstantDef}
    (h : find? name = some c) : c.target ∈ constantTexts :=
  List.mem_append_left _ (List.mem_append_left _
    (List.mem_map_of_mem (List.mem_of_find?_eq_some h)))

theorem EventDef.mem_constantTexts {name : String} {trigger : EventDef}
    (h : find? name = some trigger) {arg : EventArg} (harg : arg ∈ trigger.args) :
    arg.target ∈ constantTexts :=
  List.mem_append_left _ (List.mem_append_right _ (List.mem_flatMap.mpr
    ⟨trigger, List.mem_of_find?_eq_some h, List.mem_map_of_mem harg⟩))

/-- A text literal has no braces. -/
theorem Expr.lower_string_plain {env : Env} {splice? : Option Splice} {span : Span} {s : String}
    {out : Lowered} {st st' : LowerState}
    (h : (Expr.string span s).lower env splice? st = .ok out st') : Plain s := by
  simp only [lower, Lower.bind_ok, Lower.ofExcept_ok] at h
  obtain ⟨v, _, ⟨hv, rfl⟩, -⟩ := h
  unfold Value.literalText at hv
  split at hv
  case isTrue => cases hv
  case isFalse hnone =>
    intro c hc
    cases hbrace : isBrace c with
    | false => rfl
    | true => exact absurd (List.any_eq_true.mpr ⟨c, hc, hbrace⟩) hnone

/-! ## Values and actions -/

namespace Value

/-- The value conforms, and the names in its type have the property. A text is a literal or that of
a type whose names have the property, and a constant is in the tables. -/
structure Written (P : String → Prop) (v : Value) : Prop where
  conforms : v.Conforms
  ty : v.ty.Spelled P
  text : ∀ ty s, v = .string ty s → Plain s ∨ ∃ t : Ty, t.Spelled P ∧ s = t.text
  constant : ∀ ty text, v = .constant ty text → text ∈ constantTexts

/-- The value and all values inside it are written in this way. -/
abbrev WellWritten (P : String → Prop) (v : Value) : Prop := v.Throughout (Written P)

/-- The value is well written and no format, so that it may stand anywhere. -/
structure Operand (P : String → Prop) (v : Value) : Prop where
  written : v.WellWritten P
  plain : v.isTemplate = false

/-- A value that is no text, no constant and no call. -/
theorem operand_of_parts {v : Value} (hty : v.ty.Spelled P)
    (hparts : ∀ w ∈ v.parts, w.Operand P)
    (hconforms : (∀ w ∈ v.parts, w.isTemplate = false) → v.Conforms)
    (hneither : ∀ ty s, v ≠ .string ty s ∧ v ≠ .constant ty s) (hplain : v.isTemplate = false) :
    v.Operand P := by
  refine ⟨(throughout_iff v).mpr ⟨⟨?_, hty, ?_, ?_⟩, fun w hw => (hparts w hw).written⟩, hplain⟩
  · exact hconforms fun w hw => (hparts w hw).plain
  · exact fun ty s h => absurd h (hneither ty s).1
  · exact fun ty s h => absurd h (hneither ty s).2

theorem operand_read {ty : Ty} (h : ty.Spelled P) (slot : Slot) :
    (read ty slot).Operand P :=
  operand_of_parts h (List.forall_mem_nil _) id (by simp) rfl

theorem operand_constant {ty : Ty} {text : String} (h : ty.Spelled P)
    (htext : text ∈ constantTexts) : (constant ty text).Operand P := by
  refine ⟨(throughout_iff _).mpr
    ⟨⟨List.forall_mem_nil _, h, by simp, ?_⟩, List.forall_mem_nil _⟩, rfl⟩
  rintro _ _ ⟨⟩
  exact htext

theorem operand_ofNumber (hP : Covers P) (x : Float) : (ofNumber x).Operand P :=
  operand_of_parts (hP.native (by decide)) (List.forall_mem_nil _) id (by simp [ofNumber]) rfl

theorem operand_ofBool (hP : Covers P) (b : Bool) : (ofBool b).Operand P :=
  operand_of_parts (hP.native (by decide)) (List.forall_mem_nil _) id (by simp [ofBool]) rfl

theorem operand_ofText (hP : Covers P) {s : String}
    (h : Plain s ∨ ∃ t : Ty, t.Spelled P ∧ s = t.text) : (ofText s).Operand P := by
  refine ⟨throughout_literal rfl
    ⟨List.forall_mem_nil _, hP.native (by decide), ?_, by simp [ofText]⟩, rfl⟩
  rintro _ _ ⟨⟩
  exact h

theorem operand_negate (hP : Covers P) {v : Value} (h : v.Operand P) : v.negate.Operand P :=
  operand_of_parts (hP.native (by decide)) (List.forall_mem_singleton.mpr h) id
    (by simp [negate]) rfl

theorem operand_binary {ty : Ty} {op : BinOp} {lhs rhs : Value} (hty : ty.Spelled P)
    (hl : lhs.Operand P) (hr : rhs.Operand P) : (binary ty op lhs rhs).Operand P :=
  operand_of_parts hty (List.forall_mem_cons.mpr ⟨hl, List.forall_mem_singleton.mpr hr⟩) id
    (by simp) rfl

theorem wellWritten_template (hP : Covers P) (s : String) :
    (template .string s).WellWritten P :=
  (throughout_iff _).mpr
    ⟨⟨List.forall_mem_nil _, hP.native (by decide), by simp, by simp⟩, List.forall_mem_nil _⟩

theorem wellWritten_defaults? {ps : List ParamDef} {values : List Value}
    (hps : ∀ p ∈ ps, p.Known P) (h : defaults? ps = some values) :
    ∀ v ∈ values, v.WellWritten P := by
  induction ps generalizing values with
  | nil =>
    cases h
    exact nofun
  | cons p ps ih =>
    obtain ⟨hp, hps⟩ := List.forall_mem_cons.mp hps
    rw [defaults?] at h
    split at h
    · cases h
      exact nofun
    · split at h
      · cases h
      case h_2 text htext =>
        obtain ⟨rest, hrest, rfl⟩ := Option.map_eq_some_iff.mp h
        have hdefault := operand_constant hp.ty (hp.default text htext)
        exact List.forall_mem_cons.mpr ⟨hdefault.written, ih hps hrest⟩

end Value

namespace Action

/-- The action conforms, and a field that it assigns to has the property. -/
structure Written (P : String → Prop) (a : Action) : Prop where
  conforms : a.Conforms
  field : ∀ object field value, a = .assignField object field value → P field

/-- All actions in the body are written in this way, and all values in them are well written. -/
abbrev WellWritten (P : String → Prop) (body : List Action) : Prop :=
  Throughout (Written P) (Value.Written P) body

/-- An action that is no call. -/
theorem wellWritten_of_parts {a : Action} (hvalues : ∀ v ∈ a.values, v.Operand P)
    (hinner : WellWritten P a.inner)
    (hconforms : (∀ v ∈ a.values, v.isTemplate = false) → a.Conforms)
    (hfield : ∀ object field value, a = .assignField object field value → P field) :
    WellWritten P [a] :=
  throughout_cons.mpr ⟨⟨hconforms fun v hv => (hvalues v hv).plain, hfield⟩,
    fun v hv => (hvalues v hv).written, hinner, throughout_nil⟩

theorem wellWritten_call {f : FunctionDef} {args : List Value} (hf : f ∈ FunctionDef.all)
    (haccepts : f.Accepts args) (hargs : ∀ v ∈ args, v.WellWritten P) :
    WellWritten P [call f.target args] :=
  throughout_cons.mpr ⟨⟨⟨f, hf, rfl, haccepts⟩, nofun⟩, hargs, throughout_nil, throughout_nil⟩

theorem wellWritten_bare {a : Action} (h : a = noop ∨ a = stop ∨ a = next) :
    WellWritten P [a] := by
  rcases h with rfl | rfl | rfl <;>
    exact wellWritten_of_parts (List.forall_mem_nil _) throughout_nil id nofun

theorem wellWritten_block {body : List Action} (h : WellWritten P body) :
    WellWritten P [block body] :=
  wellWritten_of_parts (List.forall_mem_nil _) h id nofun

theorem wellWritten_branch {condition : Value} {body : List Action} (h : condition.Operand P)
    (hbody : WellWritten P body) : WellWritten P [branch condition body] :=
  wellWritten_of_parts (List.forall_mem_singleton.mpr h) hbody id nofun

theorem wellWritten_loop {condition : Value} {body : List Action} (h : condition.Operand P)
    (hbody : WellWritten P body) : WellWritten P [loop condition body] :=
  wellWritten_of_parts (List.forall_mem_singleton.mpr h) hbody id nofun

theorem wellWritten_declare {slot : Slot} {ty : Ty} {value : Value} (h : value.Operand P) :
    WellWritten P [declare slot ty value] :=
  wellWritten_of_parts (List.forall_mem_singleton.mpr h) throughout_nil id nofun

theorem wellWritten_assign {slot : Slot} {value : Value} (h : value.Operand P) :
    WellWritten P [assign slot value] :=
  wellWritten_of_parts (List.forall_mem_singleton.mpr h) throughout_nil id nofun

theorem wellWritten_append {as bs : List Action} (ha : WellWritten P as) (hb : WellWritten P bs) :
    WellWritten P (as ++ bs) :=
  throughout_append.mpr ⟨ha, hb⟩

theorem wellWritten_cons {a : Action} {as : List Action} (ha : WellWritten P [a])
    (has : WellWritten P as) : WellWritten P (a :: as) :=
  wellWritten_append ha has

theorem wellWritten_behind {before : List Action} {a : Action} (hbefore : WellWritten P before)
    (ha : WellWritten P [a]) : WellWritten P [behind before a] :=
  throughout_behind (fun _ => ⟨List.forall_mem_nil _, nofun⟩) hbefore ha

theorem wellWritten_loopWith (hP : Covers P) {check body : List Action} {condition : Value}
    (hcheck : WellWritten P check) (h : condition.Operand P) (hbody : WellWritten P body) :
    WellWritten P [loopWith check condition body] := by
  unfold loopWith
  split
  · exact wellWritten_loop h hbody
  · -- The code of the condition runs in the body, before a way out of it.
    have hstop : WellWritten P [stop] := wellWritten_bare (.inr (.inl rfl))
    have hexit := wellWritten_branch (Value.operand_negate hP h) hstop
    exact wellWritten_loop (Value.operand_ofBool hP true)
      (wellWritten_append hcheck (wellWritten_cons hexit hbody))

theorem wellWritten_countStep (hP : Covers P) (slot : Slot) :
    WellWritten P [Stmt.countStep slot] := by
  have hnumber : Ty.number.Spelled P := hP.native (by decide)
  exact wellWritten_assign (Value.operand_binary hnumber (Value.operand_read hnumber slot)
    (Value.operand_ofNumber hP 1.0))

end Action

/-- A lowered expression is well written, and so is the code before it. -/
structure Lowered.WellWritten (P : String → Prop) (out : Lowered) : Prop where
  before : Action.WellWritten P out.before
  value : out.value.Operand P

/-- Lowered expressions are well written, and so is the code before them. -/
structure LoweredList.WellWritten (P : String → Prop) (out : LoweredList) : Prop where
  before : Action.WellWritten P out.before
  values : ∀ v ∈ out.values, v.Operand P

/-- The arguments of a target function are well written and suit the parameters, and so is the code
before them. -/
structure LoweredList.Taken (P : String → Prop) (params : List ParamDef) (out : LoweredList) :
    Prop where
  before : Action.WellWritten P out.before
  values : ∀ v ∈ out.values, v.WellWritten P
  taken : ParamDef.TakeAll params out.values

/-- The body of a call is well written, and so is the type of its return value. -/
structure Spliced.WellWritten (P : String → Prop) (out : Spliced) : Prop where
  body : Action.WellWritten P out.body
  ret : ∀ r, out.ret = some r → r.ty.Spelled P

/-! ## Environments -/

/-- The names of types and of fields in all declarations have the property. -/
structure Declarations.Spelled (P : String → Prop) (d : Declarations) : Prop where
  functions : ∀ name decl, d.functions.get? name = some decl → decl.Spelled P
  aliases : ∀ name decl, d.aliases.get? name = some decl → Reference.Spelled P decl.ty.references

/-- The names of types that can be seen have the property, and so have those in declarations. What a
trigger provides is in the tables, and the nearest loop has the step of a counting loop, if it has
one. -/
structure Env.Spelled (P : String → Prop) (env : Env) : Prop where
  declarations : env.declarations.Spelled P
  scopes : env.scopes.WellTyped (Ty.Spelled P)
  constants : env.scopes.Constants fun _ text => text ∈ constantTexts
  counts : env.scopes.Counts

/-- A call of a function that is declared is well written if its arguments are. -/
structure Splice.WellWritten (P : String → Prop) (splice? : Option Splice) : Prop where
  written : ∀ {splice env name decl args span st out st'}, splice? = some splice →
    env.Spelled P → env.declarations.functions.get? name = some decl →
    (∀ v ∈ args, v.Operand P) → splice env decl args span st = .ok out st' → out.WellWritten P

namespace Declarations

/-- The declarations of a program have the names of the program. -/
theorem spelled_of_collect {P : String → Prop} {program : Program} {d : Declarations}
    (hp : program.Spelled P) (h : collect program = .ok d) : d.Spelled P := by
  constructor
  · intro name decl hget
    have hlookup : d.lookup? (.function name) = some (.function decl) := by
      rw [lookup?, hget]
      rfl
    exact hp _ ((lookup?_collect h).mp hlookup).1
  · intro name decl hget
    have hlookup : d.lookup? (.type name) = some (.typeAlias decl) := by
      rw [lookup?, hget]
      rfl
    exact hp _ ((lookup?_collect h).mp hlookup).1

end Declarations

section

variable {env : Env} {splice? : Option Splice}

namespace Env

/-- An annotation stands for a type with the names that it has, that aliases have and that can be
seen. -/
theorem resolveIn_spelled {P : String → Prop} {scopes : Scopes}
    (hd : env.declarations.Spelled P) (hscopes : scopes.WellTyped (Ty.Spelled P)) {e : TypeExpr}
    (he : Reference.Spelled P e.references) {ty : Ty} (h : env.resolveIn scopes e = .ok ty) :
    ty.Spelled P :=
  TypeExpr.resolveWith_composed Ty.composed_spelled e
    (fun span name _ hname => Scopes.meaning_composed Ty.composed_spelled
      (fun _ => Ty.spelled_native.mpr) (fun _ _ => hscopes.type?) hd.aliases _ _ span
      (he name hname)) h

theorem Spelled.resolve (henv : env.Spelled P) {e : TypeExpr}
    (he : Reference.Spelled P e.references) {ty : Ty} (h : env.resolve e = .ok ty) :
    ty.Spelled P :=
  resolveIn_spelled henv.declarations henv.scopes he h

theorem Spelled.resolve? (henv : env.Spelled P) {e? : Option TypeExpr}
    (he : Reference.Spelled P (TypeExpr.referencesOption e?)) {r : Option Ty}
    (h : env.resolve? e? = .ok r) : ∀ ty, r = some ty → ty.Spelled P := by
  cases e? with
  | none =>
    cases h
    exact nofun
  | some e =>
    rw [Env.resolve?, Except.bind_eq_ok] at h
    obtain ⟨t, ht, h⟩ := h
    cases h
    rintro _ ⟨⟩
    exact henv.resolve he ht

theorem Spelled.push (henv : env.Spelled P) {kind : ScopeKind}
    (hkind : kind = .block ∨ kind = .loop none) : (env.push kind).Spelled P := by
  rcases hkind with rfl | rfl
  · exact ⟨henv.declarations, henv.scopes.push (by simp), henv.constants.push _, henv.counts⟩
  · exact ⟨henv.declarations, henv.scopes.push (by simp), henv.constants.push _,
      fun _ hstep => by cases hstep⟩

theorem Spelled.declare (henv : env.Spelled P) (name : String) {ty : Ty} (hty : ty.Spelled P)
    (mutable : Bool) (slot : Slot) :
    { env with scopes := env.scopes.declare name ⟨ty, mutable, .slot slot⟩ }.Spelled P := by
  refine ⟨henv.declarations, henv.scopes.declare hty, henv.constants.declareSlot _ _ _ _,
    fun step hstep => ?_⟩
  rw [Scopes.enclosingLoop?_declare] at hstep
  exact henv.counts step hstep

theorem Spelled.count (hP : Covers P) (henv : env.Spelled P) (marker : String) (slot : Slot) :
    { env with scopes := Stmt.countScopes env.scopes marker slot }.Spelled P := by
  refine ⟨henv.declarations, henv.scopes.count (hP.native (by decide)) marker slot,
    ((henv.constants.push .block).declareSlot marker .number true slot).push _, ?_⟩
  rintro _ ⟨⟩
  exact ⟨slot, rfl⟩

end Env

/-! ## Expressions -/

namespace Expr

theorem ident_operand (hP : Covers P) (henv : env.Spelled P) {span : Span} {name : String}
    {v : Value} (h : env.ident span name = .ok v) : v.Operand P := by
  unfold Env.ident at h
  split at h
  case h_1 ty _ slot hb =>
    cases h
    exact Value.operand_read (henv.scopes.binding? hb) slot
  case h_2 ty _ text hb =>
    cases h
    exact Value.operand_constant (henv.scopes.binding? hb)
      (henv.constants _ _ _ (Scopes.binds_of_binding? hb))
  case h_3 =>
    split at h
    case h_1 c hc =>
      cases h
      exact Value.operand_constant (hP.spelled (ConstantDef.spelled_of_find? hc))
        (ConstantDef.mem_constantTexts hc)
    case h_2 => cases h

theorem ofItems_operand {explicit : Option Ty} {items : List Value} {span : Span} {v : Value}
    (hexplicit : ∀ ty, explicit = some ty → ty.Spelled P)
    (hitems : ∀ v ∈ items, v.Operand P) (h : Value.ofItems explicit items span = .ok v) :
    v.Operand P := by
  obtain ⟨item, hitem, -, rfl⟩ := Value.ofItems_ok h
  have hty : item.Spelled P := by
    unfold Value.itemType at hitem
    split at hitem
    · cases hitem
      exact hexplicit item rfl
    · cases hitem
      exact (hitems _ List.mem_cons_self).written.self.ty
    · cases hitem
  exact Value.operand_of_parts hty hitems id (by simp) rfl

theorem resultType_spelled (hP : Covers P) {op : BinOp} {left right ty : Ty} {span : Span}
    (hleft : left.Spelled P) (h : op.resultType left right span = .ok ty) :
    ty.Spelled P := by
  obtain rfl := BinOp.resultType_ok h
  cases op with
  | add => exact hleft
  | _ => exact hP.native (by decide)

mutual

/-- What an expression is lowered to is well written, and so is the code of the calls in it. -/
theorem lower_wellWritten {e : Expr} {out : Lowered} {st st' : LowerState} (hP : Covers P)
    (hs : Splice.WellWritten P splice?) (henv : env.Spelled P)
    (he : Reference.Spelled P e.references)
    (h : e.lower env splice? st = .ok out st') : out.WellWritten P := by
  match e with
  | .number span x =>
    obtain ⟨rfl, rfl⟩ := Lower.pure_ok.mp h
    exact ⟨Action.throughout_nil, Value.operand_ofNumber hP x⟩
  | .boolean span b =>
    obtain ⟨rfl, rfl⟩ := Lower.pure_ok.mp h
    exact ⟨Action.throughout_nil, Value.operand_ofBool hP b⟩
  | .string span s =>
    have hplain := lower_string_plain h
    obtain ⟨rfl, rfl⟩ := lower_string_ok h
    exact ⟨Action.throughout_nil, Value.operand_ofText hP (.inl hplain)⟩
  | .ident span name =>
    obtain ⟨v, hv, rfl, rfl⟩ := lower_ident_ok h
    exact ⟨Action.throughout_nil, ident_operand hP henv hv⟩
  | .array span item items =>
    obtain ⟨hitem, hrefs⟩ := Reference.spelled_append.mp he
    obtain ⟨explicit, vs, v, hexplicit, hvs, hv, rfl⟩ := lower_array_ok h
    have hitems := lowerList_wellWritten hP hs henv hrefs hvs
    exact ⟨hitems.before, ofItems_operand (henv.resolve? hitem hexplicit) hitems.values hv⟩
  | .binary span op left right =>
    obtain ⟨hleft, hright⟩ := Reference.spelled_append.mp he
    obtain ⟨lhs, t, rhs, v, hlhs, hrhs, hv, rfl⟩ := lower_binary_ok h
    have hl := lower_wellWritten hP hs henv hleft hlhs
    have hr := lower_wellWritten hP hs henv hright hrhs
    simp only [Value.combine, Except.bind_eq_ok] at hv
    obtain ⟨ty, hty, hv⟩ := hv
    cases hv
    have htype := resultType_spelled hP hl.value.written.self.ty hty
    exact ⟨Action.wellWritten_append hl.before hr.before,
      Value.operand_binary htype hl.value hr.value⟩
  | .not span operand =>
    have hrefs : Reference.Spelled P operand.references := he
    obtain ⟨o, ho, -, rfl⟩ := lower_not_ok h
    have hoperand := lower_wellWritten hP hs henv hrefs ho
    exact ⟨hoperand.before, Value.operand_negate hP hoperand.value⟩
  | .typeOf span operand =>
    have hrefs : Reference.Spelled P operand.references := he
    obtain ⟨o, ho, rfl⟩ := lower_typeOf_ok h
    have hoperand := lower_wellWritten hP hs henv hrefs ho
    exact ⟨Action.throughout_nil,
      Value.operand_ofText hP (.inr ⟨_, hoperand.value.written.self.ty, rfl⟩)⟩
  | .index span object place =>
    obtain ⟨hobject, hplace⟩ := Reference.spelled_append.mp he
    obtain ⟨a, t, i, item, ha, hi, hty, -, rfl⟩ := lower_index_ok h
    have harray := lower_wellWritten hP hs henv hobject ha
    have hindex := lower_wellWritten hP hs henv hplace hi
    have hitem : (Ty.array item).Spelled P := hty ▸ harray.value.written.self.ty
    refine ⟨Action.wellWritten_append harray.before hindex.before,
      Value.operand_of_parts hitem ?_ id (by simp) rfl⟩
    exact List.forall_mem_cons.mpr ⟨harray.value, List.forall_mem_singleton.mpr hindex.value⟩
  | .call span name args =>
    have hrefs := Reference.spelled_function.mp he
    rcases lower_call_ok h with
      ⟨decl, splice, vs, t, body, r, hdecl, hcall, hvs, hspliced, rfl⟩ |
      ⟨f, vs, ty, -, hf, hvs, hret, rfl⟩
    · -- A function of the program: the value is read from where its body puts it.
      have hvalues := lowerList_wellWritten hP hs henv hrefs hvs
      have hbody := hs.written hcall.splice henv hdecl hvalues.values hspliced
      exact ⟨Action.wellWritten_append hvalues.before (Action.wellWritten_block hbody.body),
        Value.operand_read (hbody.ret r rfl) r.slot⟩
    · -- A function of the target, which has a type if it is used as a value.
      obtain ⟨-, hresult⟩ := FunctionDef.spelled_of_find? hf
      have hargs := lowerArgs_taken hP hs henv hrefs (FunctionDef.regular_of_find? hf)
        (FunctionDef.known_of_find? hP hf) (FunctionDef.variadicLast_of_find? hf) hvs
      have hconforms : (Value.call ty f.target vs.values).Conforms :=
        ⟨f, List.mem_of_find?_eq_some hf, rfl, hret, FunctionDef.accepts_of_takeAll hargs.taken⟩
      refine ⟨hargs.before, (Value.throughout_iff _).mpr
        ⟨⟨hconforms, ?_, by simp, by simp⟩, hargs.values⟩, rfl⟩
      exact hP.spelled (hresult ty hret)

theorem lowerList_wellWritten {es : List Expr} {vs : LoweredList} {st st' : LowerState}
    (hP : Covers P) (hs : Splice.WellWritten P splice?) (henv : env.Spelled P)
    (hes : Reference.Spelled P (referencesList es))
    (h : lowerList env splice? es st = .ok vs st') : vs.WellWritten P := by
  match es with
  | [] =>
    obtain ⟨rfl, rfl⟩ := lowerList_nil_ok h
    exact ⟨Action.throughout_nil, List.forall_mem_nil _⟩
  | e :: es =>
    obtain ⟨he, hes⟩ := Reference.spelled_append.mp hes
    obtain ⟨v, t, rest, hv, hrest, rfl⟩ := lowerList_cons_ok h
    have hfirst := lower_wellWritten hP hs henv he hv
    have hothers := lowerList_wellWritten hP hs henv hes hrest
    exact ⟨Action.wellWritten_append hfirst.before hothers.before,
      List.forall_mem_cons.mpr ⟨hfirst.value, hothers.values⟩⟩

/-- The arguments of a target function are taken one after the other. -/
theorem lowerArgs_taken {f : FunctionDef} {given index : Nat} {span : Span}
    {params : List ParamDef} {es : List Expr} {vs : LoweredList} {st st' : LowerState}
    (hP : Covers P) (hs : Splice.WellWritten P splice?) (henv : env.Spelled P)
    (hes : Reference.Spelled P (referencesList es)) (hregular : ∀ p ∈ params, p.Regular)
    (hparams : ∀ p ∈ params, p.Known P)
    (hlast : ParamDef.variadicLast params = true)
    (h : lowerArgs env splice? f given span index params .empty es st = .ok vs st') :
    vs.Taken P params := by
  match es with
  | [] =>
    obtain ⟨values, hvalues, rfl, rfl⟩ := lowerArgs_nil_ok h
    exact ⟨Action.throughout_nil, Value.wellWritten_defaults? hparams hvalues,
      ParamDef.takeAll_defaults? hregular hlast hvalues⟩
  | e :: es =>
    obtain ⟨he, hes⟩ := Reference.spelled_append.mp hes
    obtain ⟨p, ps, rfl, ⟨htemplate, s, text, rest, -, hrest, rfl⟩ |
      ⟨htemplate, v, t, bindings, rest, hv, hchecked, hrest, rfl⟩⟩ := lowerArgs_cons_ok h
    · obtain ⟨-, hregular⟩ := List.forall_mem_cons.mp hregular
      obtain ⟨-, hparams⟩ := List.forall_mem_cons.mp hparams
      have hothers := lowerArgs_taken hP hs henv hes hregular hparams
        (ParamDef.variadicLast_tail hlast) hrest
      refine ⟨hothers.before, List.forall_mem_cons.mpr ⟨Value.wellWritten_template hP text,
        hothers.values⟩, .cons ⟨htemplate.symm, fun hnone => ?_⟩ hothers.taken⟩
      rw [htemplate] at hnone
      cases hnone
    · have hfirst := lower_wellWritten hP hs henv he hv
      -- The types of parameters have no generics, so that no argument binds one for the others.
      obtain ⟨rfl, hfits⟩ := (hregular p List.mem_cons_self).fits hchecked
      have htakes : p.Takes v.value :=
        ⟨hfirst.value.plain.trans htemplate.symm, fun _ => .inl hfits⟩
      by_cases hvariadic : p.ty.isVariadic = true
      · -- The parameter stays for the arguments behind this one.
        rw [if_pos hvariadic, if_pos hvariadic] at hrest
        obtain ⟨-, rfl⟩ := ParamDef.defaults_variadic hvariadic hlast 0
        have hothers := lowerArgs_taken hP hs henv hes hregular hparams hlast hrest
        exact ⟨Action.wellWritten_append hfirst.before hothers.before,
          List.forall_mem_cons.mpr ⟨hfirst.value.written, hothers.values⟩,
          hothers.taken.more hvariadic htakes⟩
      · rw [if_neg hvariadic, if_neg hvariadic] at hrest
        obtain ⟨-, hregular⟩ := List.forall_mem_cons.mp hregular
        obtain ⟨-, hparams⟩ := List.forall_mem_cons.mp hparams
        have hothers := lowerArgs_taken hP hs henv hes hregular hparams
          (ParamDef.variadicLast_tail hlast) hrest
        exact ⟨Action.wellWritten_append hfirst.before hothers.before,
          List.forall_mem_cons.mpr ⟨hfirst.value.written, hothers.values⟩,
          .cons htakes hothers.taken⟩

end

end Expr

/-! ## Statements -/

namespace Stmt

/-- What a declaration is lowered to is well written, and so is the environment after it. -/
theorem lower_declare_wellWritten {span : Span} {name : String} {ty : Option TypeExpr}
    {value : Option Expr} {constant : Bool} {scopes : Scopes} {action : Action}
    {st st' : LowerState} (hP : Covers P) (hs : Splice.WellWritten P splice?)
    (henv : env.Spelled P)
    (hrefs : (Stmt.declare span name ty value constant).Spelled P)
    (h : (Stmt.declare span name ty value constant).lower env splice? st =
      .ok (scopes, action) st') :
    Action.WellWritten P [action] ∧ { env with scopes }.Spelled P := by
  obtain ⟨hannotRefs, hinitial⟩ := hrefs
  obtain ⟨-, annotated, lowered, t, ty', slot, hannotated, hlowered, hty, -, rfl, rfl⟩ :=
    lower_declare_ok h
  have hresolved := henv.resolve? hannotRefs hannotated
  rcases lowerOption_ok hlowered with ⟨-, rfl, -⟩ | ⟨e, v, rfl, hv, rfl⟩
  · have hty' := declaredType_inherited hresolved (by simp) hty
    exact ⟨Action.wellWritten_bare (.inl rfl), henv.declare name hty' _ _⟩
  · have hvalue := Expr.lower_wellWritten hP hs henv hinitial hv
    have hty' : ty'.Spelled P := by
      refine declaredType_inherited hresolved ?_ hty
      rintro _ ⟨⟩
      exact hvalue.value.written.self.ty
    exact ⟨Action.wellWritten_behind hvalue.before (Action.wellWritten_declare hvalue.value),
      henv.declare name hty' _ _⟩

theorem saveCondition_wellWritten (hP : Covers P) {condition saved : Value} {save : List Action}
    {span : Span} {st st' : LowerState} (h : condition.Operand P)
    (hsave : saveCondition condition span st = .ok (save, saved) st') :
    Action.WellWritten P save ∧ saved.Operand P := by
  rcases saveCondition_ok hsave with ⟨-, rfl, rfl, -⟩ | ⟨slot, -, rfl, rfl⟩
  · exact ⟨Action.throughout_nil, h⟩
  · exact ⟨Action.wellWritten_declare h, Value.operand_read (hP.native (by decide)) slot⟩

mutual

/-- What a statement is lowered to is well written, and so is the environment after it. -/
theorem lower_wellWritten {stmt : Stmt} {scopes : Scopes} {action : Action} {env : Env}
    {st st' : LowerState} (hP : Covers P) (hs : Splice.WellWritten P splice?)
    (henv : env.Spelled P) (hrefs : stmt.Spelled P)
    (h : stmt.lower env splice? st = .ok (scopes, action) st') :
    Action.WellWritten P [action] ∧ { env with scopes }.Spelled P := by
  have hblock : (env.push .block).Spelled P := henv.push (.inl rfl)
  match stmt with
  | .block span body =>
    have hbodyRefs : SpelledBody P body := hrefs
    obtain ⟨actions, hbody, rfl, rfl⟩ := lower_block_ok h
    exact ⟨Action.wellWritten_block (lowerBody_wellWritten hP hs hblock hbodyRefs hbody), henv⟩
  | .declare span name ty value constant =>
    exact lower_declare_wellWritten hP hs henv hrefs h
  | .assign span name value =>
    have hvalueRefs : Reference.Spelled P value.references := hrefs
    obtain ⟨ty, slot, v, -, hv, -, rfl, rfl⟩ := lower_assign_ok h
    have hvalue := Expr.lower_wellWritten hP hs henv hvalueRefs hv
    exact ⟨Action.wellWritten_behind hvalue.before (Action.wellWritten_assign hvalue.value), henv⟩
  | .assignField span object field value =>
    obtain ⟨hfield, hobjectRefs, hvalueRefs⟩ := hrefs
    obtain ⟨o, t, v, ho, hv, rfl, rfl⟩ := lower_assignField_ok h
    have hobject := Expr.lower_wellWritten hP hs henv hobjectRefs ho
    have hvalue := Expr.lower_wellWritten hP hs henv hvalueRefs hv
    have hassign : Action.WellWritten P [.assignField o.value field v.value] := by
      refine Action.wellWritten_of_parts
        (List.forall_mem_cons.mpr ⟨hobject.value, List.forall_mem_singleton.mpr hvalue.value⟩)
        Action.throughout_nil id ?_
      rintro _ _ _ ⟨⟩
      exact hfield
    exact ⟨Action.wellWritten_behind (Action.wellWritten_append hobject.before hvalue.before)
      hassign, henv⟩
  | .branch span condition body none =>
    obtain ⟨hconditionRefs, hbodyRefs⟩ := hrefs
    obtain ⟨v, t, actions, hv, -, hbody, rfl, rfl⟩ := lower_branch_ok h
    have hcondition := Expr.lower_wellWritten hP hs henv hconditionRefs hv
    have hactions := lowerBody_wellWritten hP hs hblock hbodyRefs hbody
    exact ⟨Action.wellWritten_behind hcondition.before
      (Action.wellWritten_branch hcondition.value hactions), henv⟩
  | .branch span condition body (some otherwise) =>
    obtain ⟨hconditionRefs, hbodyRefs, hotherRefs⟩ := hrefs
    obtain ⟨v, t, save, saved, t₁, actions, t₂, actions', hv, -, hsave, hbody, hother, rfl, rfl⟩ :=
      lower_branchElse_ok h
    have hcondition := Expr.lower_wellWritten hP hs henv hconditionRefs hv
    obtain ⟨hsaves, hsaved⟩ := saveCondition_wellWritten hP hcondition.value hsave
    have hactions := lowerBody_wellWritten hP hs hblock hbodyRefs hbody
    have hactions' := lowerBody_wellWritten hP hs hblock hotherRefs hother
    have hbranches := Action.wellWritten_cons (Action.wellWritten_branch hsaved hactions)
      (Action.wellWritten_branch (Value.operand_negate hP hsaved) hactions')
    exact ⟨Action.wellWritten_behind hcondition.before
      (Action.wellWritten_block (Action.wellWritten_append hsaves hbranches)), henv⟩
  | .loop span condition body =>
    obtain ⟨hconditionRefs, hbodyRefs⟩ := hrefs
    obtain ⟨v, t, actions, hv, -, hbody, rfl, rfl⟩ := lower_loop_ok h
    have hcondition := Expr.lower_wellWritten hP hs henv hconditionRefs hv
    have hactions := lowerBody_wellWritten hP hs (henv.push (.inr rfl)) hbodyRefs hbody
    exact ⟨Action.wellWritten_loopWith hP hcondition.before hcondition.value hactions, henv⟩
  | .count span marker first limit body =>
    obtain ⟨hfirstRefs, hlimitRefs, hbodyRefs⟩ := hrefs
    obtain ⟨a, t₁, b, t₂, slot, t₃, actions, ha, hb, -, -, -, hbody, rfl, rfl⟩ :=
      lower_count_ok h
    have hfirst := Expr.lower_wellWritten hP hs hblock hfirstRefs ha
    have hlimit := Expr.lower_wellWritten hP hs hblock hlimitRefs hb
    have hactions := lowerBody_wellWritten hP hs (henv.count hP marker slot) hbodyRefs hbody
    have hcondition : (Value.binary .boolean .lt (.read .number slot) b.value).Operand P :=
      Value.operand_binary (hP.native (by decide))
        (Value.operand_read (hP.native (by decide)) slot) hlimit.value
    have hloop := Action.wellWritten_loopWith hP hlimit.before hcondition
      (Action.wellWritten_append hactions (Action.wellWritten_countStep hP slot))
    exact ⟨Action.wellWritten_behind hfirst.before (Action.wellWritten_block
      (Action.wellWritten_cons (Action.wellWritten_declare hfirst.value) hloop)), henv⟩
  | .ret span value =>
    obtain ⟨rfl, ⟨-, rfl, rfl⟩ | ⟨function, r, e, v, rfl, -, hv, -, rfl⟩⟩ := lower_ret_ok h
    · exact ⟨Action.wellWritten_bare (.inl rfl), henv⟩
    · have hvalueRefs : Reference.Spelled P e.references := hrefs
      have hvalue := Expr.lower_wellWritten hP hs henv hvalueRefs hv
      exact ⟨Action.wellWritten_behind hvalue.before (Action.wellWritten_assign hvalue.value),
        henv⟩
  | .stop span =>
    obtain ⟨step, -, rfl, rfl, rfl⟩ := lower_stop_ok h
    exact ⟨Action.wellWritten_bare (.inr (.inl rfl)), henv⟩
  | .next span =>
    have hnext : Action.WellWritten P [.next] := Action.wellWritten_bare (.inr (.inr rfl))
    obtain ⟨rfl, rfl, ⟨-, rfl⟩ | ⟨step, hstep, rfl⟩⟩ := lower_next_ok h
    · exact ⟨hnext, henv⟩
    · -- The step before the jump is that of a counting loop, for there is no other.
      obtain ⟨slot, rfl⟩ := henv.counts step hstep
      exact ⟨Action.wellWritten_block
        (Action.wellWritten_cons (Action.wellWritten_countStep hP slot) hnext), henv⟩
  | .call span name args =>
    have hargsRefs : Reference.Spelled P (Expr.referencesList args) := hrefs
    obtain ⟨rfl, ⟨decl, splice, vs, t, spliced, hdecl, hcall, hvs, hspliced, rfl⟩ |
      ⟨f, vs, -, hf, hvs, rfl⟩⟩ := lower_call_ok h
    · have hvalues := Expr.lowerList_wellWritten hP hs henv hargsRefs hvs
      have hbody := hs.written hcall.splice henv hdecl hvalues.values hspliced
      have hbefore := Action.wellWritten_append hvalues.before
        (Action.wellWritten_block hbody.body)
      exact ⟨Action.wellWritten_behind hbefore (Action.wellWritten_bare (.inl rfl)), henv⟩
    · have hargs := Expr.lowerArgs_taken hP hs henv hargsRefs (FunctionDef.regular_of_find? hf)
        (FunctionDef.known_of_find? hP hf) (FunctionDef.variadicLast_of_find? hf) hvs
      exact ⟨Action.wellWritten_behind hargs.before (Action.wellWritten_call
        (List.mem_of_find?_eq_some hf) (FunctionDef.accepts_of_takeAll hargs.taken)
        hargs.values), henv⟩

/-- **What a body is lowered to is well written if its calls are.** -/
theorem lowerBody_wellWritten {body : List Stmt} {actions : List Action} {env : Env}
    {st st' : LowerState} (hP : Covers P) (hs : Splice.WellWritten P splice?)
    (henv : env.Spelled P) (hrefs : SpelledBody P body)
    (h : lowerBody env splice? body st = .ok actions st') : Action.WellWritten P actions := by
  match body with
  | [] =>
    obtain ⟨rfl, rfl⟩ := lowerBody_nil_ok h
    exact Action.throughout_nil
  | stmt :: body =>
    obtain ⟨hstmtRefs, hbodyRefs⟩ := hrefs
    obtain ⟨scopes, action, t, rest, hstmt, hrest, rfl⟩ := lowerBody_cons_ok h
    obtain ⟨haction, henv'⟩ := lower_wellWritten hP hs henv hstmtRefs hstmt
    exact Action.wellWritten_cons haction (lowerBody_wellWritten hP hs henv' hbodyRefs hrest)

end

end Stmt

/-! ## Calls -/

theorem Scopes.WellTyped.declareType {T : Ty → Prop} {s : Scopes} (h : s.WellTyped T)
    {name : String} {ty : Ty} (hty : T ty) : (s.declareType name ty).WellTyped T := by
  obtain ⟨l⟩ := s
  cases l with
  | nil => exact h
  | cons scope outer =>
    obtain ⟨hscope, houter⟩ := List.forall_mem_cons.mp h
    rw [declareType_cons]
    refine List.forall_mem_cons.mpr ⟨⟨fun other t ht => ?_, hscope.bindings, hscope.step⟩, houter⟩
    rw [Table.get?_insert] at ht
    split at ht
    · cases ht
      exact hty
    · exact hscope.types other t ht

namespace FunctionDecl

/-- The generics of a function have its names. -/
theorem declareGenerics_spelled {P : String → Prop} {gs : List GenericParam}
    {scopes scopes' : Scopes} (hd : env.declarations.Spelled P)
    (hscopes : scopes.WellTyped (Ty.Spelled P))
    (hgs : ∀ g ∈ gs, P g.name ∧ Reference.Spelled P (TypeExpr.referencesOption g.bound))
    (h : declareGenerics env scopes gs = .ok scopes') : scopes'.WellTyped (Ty.Spelled P) := by
  induction gs generalizing scopes with
  | nil =>
    cases h
    exact hscopes
  | cons g gs ih =>
    obtain ⟨⟨hname, hbound⟩, hgs⟩ := List.forall_mem_cons.mp hgs
    obtain ⟨bound, hresolved, h⟩ := declareGenerics_cons_ok h
    refine ih (hscopes.declareType (Ty.spelled_generic.mpr ⟨hname, fun b hb => ?_⟩)) hgs h
    obtain ⟨e, he, hty⟩ := hresolved b hb
    rw [he] at hbound
    exact Env.resolveIn_spelled hd hscopes hbound hty

theorem bindGenerics_wellTyped {T : Ty → Prop} {bindings : Bindings} (hbindings : bindings.All T)
    {scopes : Scopes} (hscopes : scopes.WellTyped T) (gs : List GenericParam) :
    (bindGenerics bindings scopes gs).WellTyped T := by
  induction gs generalizing scopes with
  | nil => exact hscopes
  | cons g gs ih =>
    rw [bindGenerics, List.foldl_cons]
    cases hg : bindings.get? g.name with
    | none => exact ih hscopes
    | some ty => exact ih (hscopes.declareType (hbindings _ ty hg))

/-- The parameters of a call start with the values of its arguments. -/
theorem bindParams_wellWritten {params : List (Param × Value)} {scopes : Scopes}
    {actions : List Action} {env : Env} {st st' : LowerState} (henv : env.Spelled P)
    (hparams : ∀ p ∈ params, Reference.Spelled P p.1.ty.references ∧ p.2.Operand P)
    (h : bindParams env params st = .ok (scopes, actions) st') :
    Action.WellWritten P actions ∧ { env with scopes }.Spelled P := by
  induction params generalizing env st actions with
  | nil =>
    obtain ⟨rfl, rfl, -⟩ := bindParams_nil_ok h
    exact ⟨Action.throughout_nil, henv⟩
  | cons arg params ih =>
    obtain ⟨p, v⟩ := arg
    obtain ⟨⟨hrefs, hv⟩, hparams⟩ := List.forall_mem_cons.mp hparams
    obtain ⟨-, ty, slot, t, actions', hty, -, hrest, rfl⟩ := bindParams_cons_ok h
    have htype := henv.resolve hrefs hty
    obtain ⟨hactions, hscopes⟩ := ih (henv.declare p.name htype _ _) hparams hrest
    exact ⟨Action.wellWritten_cons (Action.wellWritten_declare hv) hactions, hscopes⟩

/-- The body of a call is well written if the calls in it are. -/
theorem inline_wellWritten {name : String} {decl : FunctionDecl} {args : List Value} {span : Span}
    {out : Spliced} {st st' : LowerState} (hP : Covers P) (hs : Splice.WellWritten P splice?)
    (henv : env.Spelled P) (hdecl : env.declarations.functions.get? name = some decl)
    (hargs : ∀ v ∈ args, v.Operand P) (h : inline splice? env decl args span st = .ok out st') :
    out.WellWritten P := by
  obtain ⟨hgenericRefs, hparamRefs, hretRefs, hbodyRefs⟩ :=
    henv.declarations.functions name decl hdecl
  obtain ⟨generics, bindings, ret, scopes, params, body, t₁, t₂, hgenerics, hbindings, hret,
    hparams, hbody, rfl⟩ := inline_ok h
  -- The generics are names of themselves first, and then of the types that they are bound to.
  have hpushed : (env.scopes.push (.function decl.name none)).WellTyped (Ty.Spelled P) :=
    henv.scopes.push (by simp)
  have hdeclared := declareGenerics_spelled henv.declarations hpushed hgenericRefs hgenerics
  have hall : bindings.All (Ty.Spelled P) := by
    refine checkArguments_bound Ty.passedDown_spelled Bindings.all_empty (fun arg harg => ?_)
      hbindings
    obtain ⟨v, hv, htype⟩ := List.mem_map.mp (List.of_mem_zip harg).2
    rw [← htype]
    exact (hargs v hv).written.self.ty
  have hbound := bindGenerics_wellTyped hall hdeclared decl.generics
  obtain ⟨gtypes, types, -, hentered⟩ := typed_of_ok hgenerics hbindings
  have hreserved : { env with
      scopes := bindGenerics bindings generics decl.generics }.Spelled P := by
    refine ⟨henv.declarations, hbound, ?_, ?_⟩
    · rw [hentered]
      exact henv.constants.enter decl.name types none
    · rw [hentered]
      exact Scopes.counts_of_none rfl
  have hrets : ∀ r, ret = some r → r.ty.Spelled P := by
    rcases reserveReturn_ok hret with ⟨-, rfl, -⟩ | ⟨ty, slot, hty, -, -, rfl⟩
    · rintro _ ⟨⟩
    · rintro _ ⟨⟩
      exact hreserved.resolve? hretRefs hty ty rfl
  have hinner :
      (entered env decl (bindGenerics bindings generics decl.generics) ret).Spelled P := by
    rw [hentered, entered, declareReturn_entered]
    rw [hentered] at hbound
    exact ⟨henv.declarations, henv.scopes.enter (hbound _ List.mem_cons_self).types hrets decl.name,
      henv.constants.enter decl.name types ret, Scopes.counts_of_none rfl⟩
  obtain ⟨hactions, hready⟩ := bindParams_wellWritten hinner (fun p hp =>
    ⟨hparamRefs p.1 (List.of_mem_zip hp).1, hargs p.2 (List.of_mem_zip hp).2⟩) hparams
  have hlowered := Stmt.lowerBody_wellWritten hP hs hready hbodyRefs hbody
  exact ⟨Action.wellWritten_append hactions hlowered, hrets⟩

end FunctionDecl

/-- The body of every call is well written, however deeply it is inlined. -/
theorem spliceWithin_wellWritten (hP : Covers P) (depth : Nat) :
    Splice.WellWritten P (spliceWithin depth) := by
  induction depth with
  | zero => exact ⟨fun hsplice => by cases hsplice⟩
  | succ depth ih =>
    refine ⟨fun hsplice henv hdecl hargs h => ?_⟩
    cases hsplice
    exact FunctionDecl.inline_wellWritten hP ih henv hdecl hargs h

end

/-! ## Programs -/

/-- The values that a trigger provides have the names of the tables. -/
theorem EventDecl.declareArgs_spelled (hP : Covers P) {trigger : EventDef} {event : EventDecl}
    {scopes : Scopes} (htrigger : EventDef.find? event.name = some trigger)
    (h : declareArgs event.span (Scopes.empty.push .block) (event.args.zip trigger.args) =
      .ok scopes) : scopes.WellTyped (Ty.Spelled P) := by
  have hempty : (Scopes.empty.push .block).WellTyped (Ty.Spelled P) :=
    Scopes.WellTyped.push (fun scope hscope => by cases hscope) (by simp)
  refine declareArgs_wellTyped hempty (fun arg harg => ?_) h
  exact hP.spelled (EventDef.spelled_of_find? htrigger arg.2 (List.of_mem_zip harg).2)

/-- What stands in the rule is well written, and its name and its trigger are in the table. -/
structure Rule.WellWritten (P : String → Prop) (r : Rule) : Prop where
  name : r.name ∈ EventDef.all.map (·.name)
  trigger : r.trigger ∈ EventDef.all.map (·.target)
  body : Action.WellWritten P r.body

/-- The rule of an event is well written if the names in its body and in all declarations have the
property. -/
theorem EventDecl.lower_wellWritten (hP : Covers P) {declarations : Declarations}
    (hd : declarations.Spelled P) {maxInlineDepth : Nat} {event : EventDecl}
    (hrefs : Stmt.SpelledBody P event.body) {rule : Rule} {st st' : LowerState}
    (h : event.lower declarations maxInlineDepth st = .ok rule st') : rule.WellWritten P := by
  obtain ⟨trigger, scopes, body, t, hfind, hscopes, hbody, -, rfl⟩ := lower_ok h
  have hmem := List.mem_of_find?_eq_some hfind
  have hname : trigger.name = event.name := by
    rw [EventDef.find?] at hfind
    simpa using List.find?_some hfind
  have hprovided : scopes.Constants fun _ text => text ∈ constantTexts :=
    declareArgs_constants (Scopes.Constants.empty.push .block)
      (fun arg harg => EventDef.mem_constantTexts hfind (List.of_mem_zip harg).2) hscopes
  have hnone : scopes.enclosingLoop? = none :=
    Program.enclosingLoop?_declareArgs hscopes
  have henv : Env.Spelled P { declarations, maxInlineDepth, scopes } :=
    ⟨hd, declareArgs_spelled hP hfind hscopes, hprovided, Scopes.counts_of_none hnone⟩
  exact ⟨hname ▸ List.mem_map_of_mem hmem, List.mem_map_of_mem hmem,
    Stmt.lowerBody_wellWritten hP (spliceWithin_wellWritten hP maxInlineDepth) henv hrefs hbody⟩

namespace Program

theorem lowerEvents_wellWritten (hP : Covers P) {declarations : Declarations}
    (hd : declarations.Spelled P) {maxInlineDepth : Nat} {events : List EventDecl}
    (hevents : ∀ e ∈ events, Stmt.SpelledBody P e.body)
    {rules : List Rule} {st st' : LowerState}
    (h : lowerEvents declarations maxInlineDepth events st = .ok rules st') :
    ∀ r ∈ rules, r.WellWritten P := by
  induction events generalizing st rules with
  | nil =>
    obtain ⟨rfl, -⟩ := lowerEvents_nil_ok h
    exact nofun
  | cons event events ih =>
    obtain ⟨hrefs, hevents⟩ := List.forall_mem_cons.mp hevents
    obtain ⟨rule, t, rest, hrule, hrest, rfl⟩ := lowerEvents_cons_ok h
    have hwritten := EventDecl.lower_wellWritten hP hd hrefs hrule
    exact List.forall_mem_cons.mpr ⟨hwritten, ih hevents hrest⟩

variable {options : Options} {program : Program} {rules : List Rule} {st : LowerState}

/-- **What a program is lowered to is well written** if the names of types and of fields in the
program have the property. -/
theorem lower_wellWritten (hP : Covers P) (hp : program.Spelled P)
    (h : program.lower options = .ok rules st) : ∀ r ∈ rules, r.WellWritten P := by
  obtain ⟨declarations, t, hcollect, hlower⟩ := lower_ok h
  exact lowerEvents_wellWritten hP (Declarations.spelled_of_collect hp hcollect)
    (fun e he => hp _ (mem_events.mp he)) hlower

theorem spelled_true (program : Program) : program.Spelled fun _ => True := by
  intro item _
  cases item with
  | function decl =>
    exact ⟨fun g _ => ⟨trivial, Reference.spelled_true _⟩, fun _ _ => Reference.spelled_true _,
      Reference.spelled_true _, Stmt.spelledBody_true _⟩
  | event decl => exact Stmt.spelledBody_true _
  | typeAlias decl => exact Reference.spelled_true _

/-- The types of a lowered program are consistent. -/
theorem consistent_of_lower (h : program.lower options = .ok rules st) :
    ∀ r ∈ rules, r.Consistent := fun r hr =>
  (lower_wellTyped Ty.inherited_true (fun _ _ _ _ _ _ => trivial) h r hr).mono
    (fun _ ha => ha.agrees) fun _ hv => hv.agrees

/-- **All calls of a lowered program conform, also once folded.** In the rules that a program is
lowered to, and in those rules after folding, every call has the text of a function of the target,
with arguments that suit its parameters one by one; a format stands where such a function wants one
and nowhere else; and a call that is a value is of a function that yields one, and has its type. -/
theorem lower_conforms (h : program.lower options = .ok rules st) :
    (∀ r ∈ rules, r.Conforms) ∧ ∀ r ∈ Rule.foldAll rules, r.Conforms := by
  have hconforms : ∀ r ∈ rules, r.Conforms := fun r hr =>
    (lower_wellWritten (fun _ _ => trivial) program.spelled_true h r hr).body.mono
      (fun _ ha => ha.conforms) fun _ hv => hv.conforms
  exact ⟨hconforms, Rule.conforms_foldAll (consistent_of_lower h) hconforms⟩

/-- A message with a format and values for it inside a function that is inlined, and calls that
leave arguments out. -/
def announcement : Program :=
  let z := Span.zero
  let places := "\x7b0\x7d has \x7b1\x7d \x7b2\x7d"
  ⟨[.function ⟨"announce", [], [⟨"p", .named z "player", z⟩], none,
      [.call z "smallMessage" [.ident z "p",
        .call z "format" [.string z places, .ident z "p", .call z "health" [.ident z "p"],
          .typeOf z (.call z "health" [.ident z "p"])]]], z⟩,
    .event ⟨"client", ["p"],
      [.call z "announce" [.ident z "p"],
        .call z "createHUDText" [.call z "allPlayers" [], .call z "format" [.string z "-"]],
        .call z "wait" [.binary z .add (.number z 1.0) (.number z 2.0)]], z⟩]⟩

theorem lower_conforms_announcement : ∃ rules st, announcement.lower {} = .ok rules st ∧
    (∀ r ∈ rules, r.Conforms) ∧ ∀ r ∈ Rule.foldAll rules, r.Conforms := by
  obtain ⟨rules, st, h⟩ : ∃ rules st, announcement.lower {} = .ok rules st :=
    exists_of_lowers (by decide +kernel)
  exact ⟨rules, st, h, lower_conforms h⟩

end Program

end RuleScript
