import RuleScript.Proofs.Lowering.References
import RuleScript.Proofs.Syntax.Outline

/-!
# Where lowering finds errors

An error of lowering is at the place of some node of the program. Most are at the place of the node
that is being lowered. In the body of a function that is inlined these are places in its
declaration; only what is checked about a call as a whole is at the place of the call. An error
about an annotation may be in an alias that it leads to. Nodes that stand for a longer form have
places of their own in the program, so nothing has to be said about them.

So a property of all places of a program is one of all errors that lowering it may end with,
whatever the limits are.

## Main definitions

* `Except.Blames`, `Lower.Blames`: every error is at a place with a property
* `Declarations.Placed`: the places of what is declared have a property

## Main results

* `Stmt.lower_blames`, `FunctionDecl.inline_blames`: errors of statements and of calls
* `Program.lower_blames`: errors of lowering are at places of the program
-/

namespace RuleScript

open Outline (Throughout throughout_node)

variable {α β : Type} {P : Span → Prop} {span : Span} {fault : Fault}

/-! ## Errors with a place -/

namespace Except

/-- Every error of a check is at a place with the property. -/
def Blames (P : Span → Prop) (x : Except Error α) : Prop := ∀ e, x = .error e → P e.span

namespace Blames

theorem ok {a : α} : Blames P (.ok a) := by
  rintro _ ⟨⟩

theorem error (h : P span) : Blames P (.error ⟨fault, span⟩ : Except Error α) := by
  rintro _ ⟨⟩
  exact h

theorem bind {x : Except Error α} {f : α → Except Error β} (hx : Blames P x)
    (hf : ∀ a, Blames P (f a)) : Blames P (x >>= f) := by
  cases x with
  | ok a => exact hf a
  | error e =>
    rintro _ ⟨⟩
    exact hx e rfl

end Blames

end Except

namespace Lower

/-- Every error of lowering is at a place with the property. -/
def Blames (P : Span → Prop) (x : Lower α) : Prop := ∀ st e st', x st = .error e st' → P e.span

namespace Blames

variable {x : Lower α} {f : α → Lower β}

theorem pure {a : α} : Blames P (Pure.pure a) := by
  rintro _ _ _ ⟨⟩

theorem fail (h : P span) : Blames P (Lower.fail fault span : Lower α) := by
  rintro _ _ _ ⟨⟩
  exact h

/-- **Steps one after the other.** -/
theorem bind (hx : Blames P x) (hf : ∀ a, Blames P (f a)) : Blames P (x >>= f) := by
  intro st e st' h
  simp only [Bind.bind, EStateM.bind] at h
  cases hxs : x st with
  | ok a t =>
    rw [hxs] at h
    exact hf a t e st' h
  | error e' t =>
    rw [hxs] at h
    cases h
    exact hx st e _ hxs

/-- A check, of which it is known that it succeeded in what follows. -/
theorem ofExcept_bind {y : Except Error α} (hy : Except.Blames P y)
    (hf : ∀ a, y = .ok a → Blames P (f a)) : Blames P (ofExcept y >>= f) := by
  cases y with
  | ok a => exact hf a rfl
  | error e =>
    rintro _ _ _ ⟨⟩
    exact hy e rfl

theorem check {p : Prop} [Decidable p] {k : Unit → Lower α} (h : P span) (hk : Blames P (k ())) :
    Blames P (if p then Lower.fail fault span >>= k else k ()) := by
  split
  · exact (fail (α := Unit) h).bind fun _ => hk
  · exact hk

theorem log {entry : LogEntry} : Blames P (Lower.log entry) := by
  rintro _ _ _ ⟨⟩

theorem get : Blames P (MonadState.get : Lower LowerState) := by
  rintro _ _ _ ⟨⟩

theorem grant {take : Slots → Option Grant} (h : P span) : Blames P (Lower.grant take span) := by
  refine get.bind fun s => ?_
  dsimp only
  cases take s.slots with
  | none => exact fail h
  | some g =>
    have hkeep : Blames P (do modify fun s => { s with slots := g.slots }; return g.slot) := by
      rintro _ _ _ ⟨⟩
    cases hnew : g.new? with
    | none =>
      simp only [hnew]
      exact hkeep
    | some key =>
      simp only [hnew]
      exact log.bind fun _ => hkeep

theorem declareSlot {scopes : Scopes} {name : String} {ty : Ty} {mutable : Bool} (h : P span) :
    Blames P (Lower.declareSlot scopes name ty mutable span) :=
  (grant h).bind fun _ => .pure

end Blames

end Lower

theorem Expr.at_span_of_throughout {e : Expr} (h : e.outline.Throughout P) : P e.span := by
  rw [← Expr.span_outline]
  exact h.at_span

/-! ## Annotations -/

namespace TypeExpr

variable {meaning : Span → String → Except Error Ty}

mutual

theorem resolveWith_blames (hm : ∀ span name, P span → Except.Blames P (meaning span name)) :
    ∀ t : TypeExpr, t.outline.Throughout P → Except.Blames P (t.resolveWith meaning)
  | named span name, h => by
    rw [resolveWith]
    exact hm span name h.at_span
  | array _ item, h => by
    simp only [outline, throughout_node, List.forall_mem_singleton] at h
    rw [resolveWith]
    exact (resolveWith_blames hm item h.2).bind fun _ => .ok
  | function _ params ret, h => by
    simp only [outline, throughout_node, List.forall_mem_append] at h
    rw [resolveWith]
    refine (resolveList_blames hm params h.2.1).bind fun _ => ?_
    exact (resolveOption_blames hm ret h.2.2).bind fun _ => .ok
  | variadic _ inner, h => by
    simp only [outline, throughout_node, List.forall_mem_singleton] at h
    rw [resolveWith]
    exact (resolveWith_blames hm inner h.2).bind fun _ => .ok
  | union _ members, h => by
    simp only [outline, throughout_node] at h
    rw [resolveWith]
    exact (resolveList_blames hm members h.2).bind fun _ => .ok

theorem resolveList_blames (hm : ∀ span name, P span → Except.Blames P (meaning span name)) :
    ∀ ts : List TypeExpr, (∀ o ∈ outlineList ts, o.Throughout P) →
      Except.Blames P (resolveList meaning ts)
  | [], _ => by
    rw [resolveList]
    exact .ok
  | t :: ts, h => by
    simp only [outlineList, List.forall_mem_cons] at h
    rw [resolveList]
    refine (resolveWith_blames hm t h.1).bind fun _ => ?_
    exact (resolveList_blames hm ts h.2).bind fun _ => .ok

theorem resolveOption_blames (hm : ∀ span name, P span → Except.Blames P (meaning span name)) :
    ∀ t : Option TypeExpr, (∀ o ∈ outlineOption t, o.Throughout P) →
      Except.Blames P (resolveOption meaning t)
  | none, _ => by
    rw [resolveOption]
    exact .ok
  | some t, h => by
    simp only [outlineOption, List.forall_mem_singleton] at h
    rw [resolveOption]
    exact (resolveWith_blames hm t h).bind fun _ => .ok

end

end TypeExpr

/-- The places of what is declared have the property. -/
structure Declarations.Placed (P : Span → Prop) (d : Declarations) : Prop where
  functions : ∀ name decl, d.functions.get? name = some decl → decl.outline.Throughout P
  aliases : ∀ name decl, d.aliases.get? name = some decl → decl.outline.Throughout P

/-- A name is blamed where it stands, or where an alias that it leads to is written. -/
theorem Scopes.meaning_blames {scopes : Scopes} {aliases : Table AliasDecl}
    (h : ∀ name decl, aliases.get? name = some decl → decl.outline.Throughout P) (more : Nat)
    (expanding : List String) (span : Span) (name : String) (hspan : P span) :
    Except.Blames P (scopes.meaning aliases more expanding span name) := by
  induction more generalizing expanding span name with
  | zero =>
    unfold meaning
    split
    · exact .ok
    · exact .ok
    · split <;> exact .error hspan
  | succ more ih =>
    unfold meaning
    split
    · exact .ok
    · exact .ok
    case h_3 decl _ hdecl =>
      split
      · exact .error hspan
      · have hty := h name decl hdecl
        simp only [AliasDecl.outline, throughout_node, List.forall_mem_singleton] at hty
        exact decl.ty.resolveWith_blames (ih _) hty.2

namespace Env

variable {env : Env}

/-- The places of what is declared have the property, whatever scopes are open. -/
def Placed (P : Span → Prop) (env : Env) : Prop := env.declarations.Placed P

theorem Placed.withScopes (h : env.Placed P) (scopes : Scopes) :
    ({ env with scopes } : Env).Placed P := h

theorem Placed.push (h : env.Placed P) (kind : ScopeKind) : (env.push kind).Placed P :=
  h.withScopes _

theorem resolveIn_blames (henv : env.Placed P) (scopes : Scopes) {t : TypeExpr}
    (h : t.outline.Throughout P) : Except.Blames P (env.resolveIn scopes t) :=
  t.resolveWith_blames (Scopes.meaning_blames henv.aliases _ _) h

theorem resolve?_blames (henv : env.Placed P) {t? : Option TypeExpr}
    (h : ∀ o ∈ TypeExpr.outlineOption t?, o.Throughout P) :
    Except.Blames P (env.resolve? t?) := by
  cases t? with
  | none => exact .ok
  | some t =>
    simp only [TypeExpr.outlineOption, List.forall_mem_singleton] at h
    exact (resolveIn_blames henv env.scopes h).bind fun _ => .ok

end Env

/-! ## Types that do not fit together -/

theorem Ty.fitsWith_blames {bindings : Bindings} {constraint candidate : Ty} (h : P span) :
    Except.Blames P (Ty.fitsWith bindings constraint candidate span) := by
  unfold Ty.fitsWith
  split
  · exact .ok
  · exact .error h

theorem BinOp.resultType_blames {op : BinOp} {left right : Ty} (h : P span) :
    Except.Blames P (op.resultType left right span) := by
  have hsum : Except.Blames P (op.sumType left right span) := by
    unfold sumType
    split
    · exact .error h
    · split
      · exact .error h
      · exact .ok
  have huniform : ∀ ty, Except.Blames P (op.uniformType ty left right span) := fun ty => by
    unfold uniformType
    split
    · exact .error h
    · exact .ok
  have hcomparison : Except.Blames P (op.comparisonType left right span) := by
    have hback : ∀ back : Bool, Except.Blames P (if back then pure .boolean else
        throw ⟨.incomparable op left right, span⟩ : Except Error Ty) := fun back => by
      cases back
      · exact .error h
      · exact .ok
    refine (Ty.fitsWith_blames h).bind ?_
    rintro ⟨forth, bindings⟩
    dsimp only
    split
    · exact (Ty.fitsWith_blames h).bind fun back => hback back.1
    · exact hback false
  unfold resultType
  split
  · exact hsum
  · exact huniform _
  · exact huniform _
  · exact huniform _
  · exact huniform _
  · exact huniform _
  all_goals exact hcomparison

namespace Value

theorem combine_blames {op : BinOp} {lhs rhs : Value} (h : P span) :
    Except.Blames P (combine op lhs rhs span) :=
  (BinOp.resultType_blames h).bind fun _ => .ok

theorem negated_blames {operand : Value} (h : P span) :
    Except.Blames P (operand.negated span) := by
  unfold negated
  split
  · exact .ok
  · exact .error h

theorem literalText_blames {s : String} (h : P span) : Except.Blames P (literalText s span) := by
  unfold literalText
  split
  · exact .error h
  · exact .ok

theorem checkItems_blames {item : Ty} (h : P span) (bindings : Bindings) (items : List Value) :
    Except.Blames P (checkItems item span bindings items) := by
  induction items generalizing bindings with
  | nil => exact .ok
  | cons v vs ih =>
    rw [checkItems]
    refine (Ty.fitsWith_blames h).bind ?_
    rintro ⟨fits, bindings⟩
    dsimp only
    split
    · exact ih bindings
    · exact .error h

theorem ofItems_blames {explicit : Option Ty} {items : List Value} (h : P span) :
    Except.Blames P (ofItems explicit items span) := by
  have hitem : Except.Blames P (itemType explicit items span) := by
    unfold itemType
    split
    · exact .ok
    · exact .ok
    · exact .error h
  exact hitem.bind fun item => (checkItems_blames h _ _).bind fun _ => .ok

theorem checkArgument_blames {function : String} {index : Nat} {wanted given : Ty}
    {bindings : Bindings} (h : P span) :
    Except.Blames P (checkArgument function index wanted given span bindings) := by
  refine (Ty.fitsWith_blames h).bind ?_
  rintro ⟨fits, bindings⟩
  dsimp only
  split
  · exact .ok
  · exact .error h

theorem ofTemplate_blames {function : String} {index : Nat} {e : Expr}
    (h : e.outline.Throughout P) : Except.Blames P (ofTemplate function index e) := by
  unfold ofTemplate
  split
  · exact .ok
  · exact .error (Expr.at_span_of_throughout h)

end Value

/-! ## Expressions -/

/-- Whatever call the body of a function is lowered for, errors are at the place of the call or at
places of declarations. -/
def Splice.Blames (P : Span → Prop) (splice? : Option Splice) : Prop :=
  ∀ splice, splice? = some splice → ∀ env decl args span, env.Placed P →
    decl.outline.Throughout P → P span → Lower.Blames P (splice env decl args span)

variable {env : Env} {splice? : Option Splice}

namespace Env

theorem checkCall_blames {decl : FunctionDecl} {given : Nat} {wantsValue : Bool} (h : P span) :
    Except.Blames P (env.checkCall splice? decl given wantsValue span) := by
  unfold checkCall
  by_cases hrec : env.inlining.contains decl.name
  · rw [if_pos hrec]
    exact .error h
  rw [if_neg hrec]
  cases splice? with
  | none => exact .error h
  | some splice =>
    by_cases hret : wantsValue ∧ decl.ret.isNone
    · simp only [if_pos hret]
      exact .error h
    by_cases harity : given ≠ decl.params.length
    · simp only [if_neg hret, if_pos harity]
      exact .error h
    simp only [if_neg hret, if_neg harity]
    exact .ok

theorem ident_blames {name : String} (h : P span) : Except.Blames P (env.ident span name) := by
  unfold ident
  split
  · exact .ok
  · exact .ok
  · split
    · exact .ok
    · exact .error h

end Env

namespace Expr

mutual

/-- Errors of lowering an expression. -/
theorem lower_blames (hs : Splice.Blames P splice?) (henv : env.Placed P) :
    ∀ e : Expr, e.outline.Throughout P → Lower.Blames P (e.lower env splice?)
  | .number _ _, _ | .boolean _ _, _ => by
    rw [lower]
    exact .pure
  | .string _ _, h => by
    rw [lower]
    exact .ofExcept_bind (Value.literalText_blames h.at_span) fun _ _ => .pure
  | .ident _ _, h => by
    rw [lower]
    exact .ofExcept_bind (Env.ident_blames h.at_span) fun _ _ => .pure
  | .array _ item items, h => by
    simp only [outline, throughout_node, List.forall_mem_append] at h
    obtain ⟨hspan, hitem, hitems⟩ := h
    rw [lower]
    refine .ofExcept_bind (Env.resolve?_blames henv hitem) fun explicit _ => ?_
    refine (lowerList_blames hs henv items hitems).bind fun vs => ?_
    exact .ofExcept_bind (Value.ofItems_blames hspan) fun _ _ => .pure
  | .binary _ _ left right, h => by
    simp only [outline, throughout_node, List.forall_mem_cons] at h
    obtain ⟨hspan, hleft, hright, -⟩ := h
    rw [lower]
    refine (lower_blames hs henv left hleft).bind fun lhs => ?_
    refine (lower_blames hs henv right hright).bind fun rhs => ?_
    exact .ofExcept_bind (Value.combine_blames hspan) fun _ _ => .pure
  | .not _ operand, h => by
    simp only [outline, throughout_node, List.forall_mem_singleton] at h
    rw [lower]
    refine (lower_blames hs henv operand h.2).bind fun v => ?_
    exact .ofExcept_bind (Value.negated_blames h.1) fun _ _ => .pure
  | .typeOf _ operand, h => by
    simp only [outline, throughout_node, List.forall_mem_singleton] at h
    rw [lower]
    exact (lower_blames hs henv operand h.2).bind fun _ => .pure
  | .index _ object place, h => by
    simp only [outline, throughout_node, List.forall_mem_cons] at h
    obtain ⟨hspan, hobject, hplace, -⟩ := h
    rw [lower]
    refine (lower_blames hs henv object hobject).bind fun a => ?_
    cases a.value.ty.item? with
    | none => exact .fail hspan
    | some item =>
      refine (lower_blames hs henv place hplace).bind fun i => ?_
      exact .check hspan .pure
  | .call span name args, h => by
    simp only [outline, throughout_node] at h
    obtain ⟨hspan, hargs⟩ := h
    rw [lower]
    cases hdecl : env.declarations.functions.get? name with
    | some decl =>
      refine .ofExcept_bind (Env.checkCall_blames hspan) fun splice hcall => ?_
      refine (lowerList_blames hs henv args hargs).bind fun vs => ?_
      -- The body is lowered anew for the call, so an error may also lie in the declaration.
      have hsplice := hs splice (Env.checkCall_ok hcall).splice
      refine (hsplice env decl vs.values span henv (henv.functions name decl hdecl) hspan).bind
        fun spliced => ?_
      obtain ⟨body, ret⟩ := spliced
      cases ret with
      | none => exact .fail hspan
      | some r => exact .pure
    | none =>
      cases FunctionDef.find? name with
      -- An unknown name is an error only after the arguments have been lowered.
      | none => exact (lowerList_blames hs henv args hargs).bind fun _ => .fail hspan
      | some f =>
        refine (lowerArgs_blames hs henv hspan f args.length 0 f.params .empty args hargs).bind
          fun vs => ?_
        cases f.ret with
        | none => exact .fail hspan
        | some ty => exact .pure

theorem lowerList_blames (hs : Splice.Blames P splice?) (henv : env.Placed P) :
    ∀ es : List Expr, (∀ o ∈ outlineList es, o.Throughout P) →
      Lower.Blames P (lowerList env splice? es)
  | [], _ => by
    rw [lowerList]
    exact .pure
  | e :: es, h => by
    simp only [outlineList, List.forall_mem_cons] at h
    rw [lowerList]
    refine (lower_blames hs henv e h.1).bind fun v => ?_
    exact (lowerList_blames hs henv es h.2).bind fun _ => .pure

theorem lowerArgs_blames (hs : Splice.Blames P splice?) (henv : env.Placed P)
    {span : Span} (hspan : P span) (f : FunctionDef) (given index : Nat) (params : List ParamDef)
    (bindings : Bindings) : ∀ es : List Expr, (∀ o ∈ outlineList es, o.Throughout P) →
      Lower.Blames P (lowerArgs env splice? f given span index params bindings es)
  | [], _ => by
    rw [lowerArgs]
    cases Value.defaults? params with
    | none => exact .fail hspan
    | some values => exact .pure
  | e :: es, h => by
    simp only [outlineList, List.forall_mem_cons] at h
    cases params with
    | nil =>
      rw [lowerArgs]
      exact .fail hspan
    | cons p ps =>
      rw [lowerArgs]
      split
      · refine .ofExcept_bind (Value.ofTemplate_blames h.1) fun template _ => ?_
        exact (lowerArgs_blames hs henv hspan f given (index + 1) ps bindings es h.2).bind
          fun _ => .pure
      · refine (lower_blames hs henv e h.1).bind fun v => ?_
        refine .ofExcept_bind (Value.checkArgument_blames hspan) fun bindings' _ => ?_
        split
        · exact (lowerArgs_blames hs henv hspan f given index (p :: ps) bindings' es h.2).bind
            fun _ => .pure
        · exact (lowerArgs_blames hs henv hspan f given (index + 1) ps bindings' es h.2).bind
            fun _ => .pure

end

end Expr

/-! ## Statements -/

namespace Stmt

theorem lowerCondition_blames (hs : Splice.Blames P splice?) (henv : env.Placed P)
    {statement : Conditional} {e : Expr} (h : e.outline.Throughout P) :
    Lower.Blames P (lowerCondition env splice? statement e) :=
  (Expr.lower_blames hs henv e h).bind fun _ => .check (Expr.at_span_of_throughout h) .pure

theorem checkFits_blames {wanted : Ty} {value : Value} (h : P span) :
    Lower.Blames P (checkFits wanted value fault span) := by
  have hfits : Except.Blames P (wanted.fits value.ty span) :=
    (Ty.fitsWith_blames h).bind fun _ => .ok
  refine .ofExcept_bind hfits fun fits _ => ?_
  cases fits
  · exact .fail h
  · exact .pure

theorem declaredType_blames {ty : Option Ty} {value : Option Value} (h : P span) :
    Except.Blames P (declaredType span ty value) := by
  unfold declaredType
  split
  · exact .error h
  · exact .ok
  · exact .ok
  · refine ((Ty.fitsWith_blames h).bind fun _ => .ok).bind fun fits => ?_
    split
    · exact .ok
    · exact .error h

theorem lowerOption_blames (hs : Splice.Blames P splice?) (henv : env.Placed P)
    {e : Option Expr} (h : ∀ o ∈ Expr.outlineOption e, o.Throughout P) :
    Lower.Blames P (lowerOption env splice? e) := by
  cases e with
  | none => exact .pure
  | some e =>
    simp only [Expr.outlineOption, List.forall_mem_singleton] at h
    exact (Expr.lower_blames hs henv e h).bind fun _ => .pure

theorem lowerDeclare_blames (hs : Splice.Blames P splice?) (henv : env.Placed P)
    {name : String} {ty : Option TypeExpr} {value : Option Expr} {constant : Bool}
    (hspan : P span) (hty : ∀ o ∈ TypeExpr.outlineOption ty, o.Throughout P)
    (hvalue : ∀ o ∈ Expr.outlineOption value, o.Throughout P) :
    Lower.Blames P (lowerDeclare env splice? span name ty value constant) := by
  rw [lowerDeclare]
  refine .check hspan (.check hspan ?_)
  refine .ofExcept_bind (Env.resolve?_blames henv hty) fun annotated _ => ?_
  refine (lowerOption_blames hs henv hvalue).bind fun lowered => ?_
  refine .ofExcept_bind (declaredType_blames hspan) fun ty _ => ?_
  refine (Lower.Blames.declareSlot hspan).bind ?_
  rintro ⟨slot, scopes⟩
  cases lowered with
  | none => exact .pure
  | some v => exact .pure

theorem lowerAssign_blames (hs : Splice.Blames P splice?) (henv : env.Placed P)
    {name : String} {value : Expr} (hspan : P span) (h : value.outline.Throughout P) :
    Lower.Blames P (lowerAssign env splice? span name value) := by
  unfold lowerAssign
  split
  · exact .fail hspan
  · refine (Expr.lower_blames hs henv value h).bind fun v => ?_
    exact (checkFits_blames hspan).bind fun _ => .pure
  · exact .fail hspan

theorem lowerAssignField_blames (hs : Splice.Blames P splice?) (henv : env.Placed P)
    {object value : Expr} {field : String} (hspan : P span) (hobject : object.outline.Throughout P)
    (hvalue : value.outline.Throughout P) :
    Lower.Blames P (lowerAssignField env splice? span object field value) := by
  refine (Expr.lower_blames hs henv object hobject).bind fun o => ?_
  refine (checkFits_blames hspan).bind fun _ => ?_
  exact (Expr.lower_blames hs henv value hvalue).bind fun _ => .pure

theorem lowerReturn_blames (hs : Splice.Blames P splice?) (henv : env.Placed P)
    {value : Option Expr} (hspan : P span) (h : ∀ o ∈ Expr.outlineOption value, o.Throughout P) :
    Lower.Blames P (lowerReturn env splice? span value) := by
  unfold lowerReturn
  split
  · exact .fail hspan
  · exact .pure
  · exact .fail hspan
  · simp only [Expr.outlineOption, List.forall_mem_singleton] at h
    refine (Expr.lower_blames hs henv _ h).bind fun v => ?_
    exact (checkFits_blames hspan).bind fun _ => .pure

theorem lowerStop_blames (hspan : P span) : Lower.Blames P (lowerStop env span) := by
  unfold lowerStop
  split
  · exact .pure
  · exact .fail hspan

theorem lowerNext_blames (hspan : P span) : Lower.Blames P (lowerNext env span) := by
  unfold lowerNext
  split
  · exact .pure
  · exact .pure
  · exact .fail hspan

theorem lowerCall_blames (hs : Splice.Blames P splice?) (henv : env.Placed P)
    {name : String} {args : List Expr} (hspan : P span)
    (hargs : ∀ o ∈ Expr.outlineList args, o.Throughout P) :
    Lower.Blames P (lowerCall env splice? span name args) := by
  unfold lowerCall
  cases hdecl : env.declarations.functions.get? name with
  | some decl =>
    refine .ofExcept_bind (Env.checkCall_blames hspan) fun splice hcall => ?_
    refine (Expr.lowerList_blames hs henv args hargs).bind fun vs => ?_
    have hsplice := hs splice (Env.checkCall_ok hcall).splice
    exact (hsplice env decl vs.values span henv (henv.functions name decl hdecl) hspan).bind
      fun _ => .pure
  | none =>
    cases FunctionDef.find? name with
    | none => exact (Expr.lowerList_blames hs henv args hargs).bind fun _ => .fail hspan
    | some f =>
      exact (Expr.lowerArgs_blames hs henv hspan f args.length 0 f.params .empty args hargs).bind
        fun _ => .pure

theorem saveCondition_blames {condition : Value} (hspan : P span) :
    Lower.Blames P (saveCondition condition span) := by
  unfold saveCondition
  split
  · exact .pure
  · exact (Lower.Blames.grant hspan).bind fun _ => .pure

theorem checkBound_blames {bound : Value} (hspan : P span) :
    Lower.Blames P (checkBound bound span) := by
  unfold checkBound
  split
  · exact .fail hspan
  · exact .pure

mutual

/-- Errors of lowering a statement. -/
theorem lower_blames (hs : Splice.Blames P splice?) {env : Env}
    (henv : env.Placed P) :
    ∀ s : Stmt, s.outline.Throughout P → Lower.Blames P (s.lower env splice?)
  | .block _ body, h => by
    simp only [outline, throughout_node] at h
    rw [lower]
    exact (lowerBody_blames hs (henv.push _) body h.2).bind fun _ => .pure
  | .declare span name ty value constant, h => by
    simp only [outline, throughout_node, List.forall_mem_append] at h
    rw [lower]
    exact lowerDeclare_blames hs henv h.1 h.2.1 h.2.2
  | .assign span name value, h => by
    simp only [outline, throughout_node, List.forall_mem_singleton] at h
    rw [lower]
    exact (lowerAssign_blames hs henv h.1 h.2).bind fun _ => .pure
  | .assignField span object field value, h => by
    simp only [outline, throughout_node, List.forall_mem_cons] at h
    obtain ⟨hspan, hobject, hvalue, -⟩ := h
    rw [lower]
    exact (lowerAssignField_blames hs henv hspan hobject hvalue).bind fun _ => .pure
  | .branch _ condition body none, h => by
    simp only [outline, throughout_node, List.forall_mem_cons] at h
    obtain ⟨-, hcondition, hbody⟩ := h
    rw [lower]
    refine (lowerCondition_blames hs henv hcondition).bind fun v => ?_
    exact (lowerBody_blames hs (henv.push _) body hbody).bind fun _ => .pure
  | .branch span condition body (some otherwise), h => by
    simp only [outline, throughout_node, List.forall_mem_cons, List.cons_append,
      List.forall_mem_append] at h
    obtain ⟨hspan, hcondition, hbody, hother⟩ := h
    rw [lower]
    refine (lowerCondition_blames hs henv hcondition).bind fun v => ?_
    refine (saveCondition_blames hspan).bind ?_
    rintro ⟨save, saved⟩
    refine (lowerBody_blames hs (henv.push _) body hbody).bind fun actions => ?_
    exact (lowerBody_blames hs (henv.push _) otherwise hother).bind fun _ => .pure
  | .loop _ condition body, h => by
    simp only [outline, throughout_node, List.forall_mem_cons] at h
    obtain ⟨-, hcondition, hbody⟩ := h
    rw [lower]
    refine (lowerCondition_blames hs henv hcondition).bind fun v => ?_
    exact (lowerBody_blames hs (henv.push _) body hbody).bind fun _ => .pure
  | .count span marker first limit body, h => by
    simp only [outline, throughout_node, List.forall_mem_cons] at h
    obtain ⟨hspan, hfirst, hlimit, hbody⟩ := h
    rw [lower]
    refine (Expr.lower_blames hs (henv.push _) first hfirst).bind fun a => ?_
    refine (Expr.lower_blames hs (henv.push _) limit hlimit).bind fun b => ?_
    -- A bound that is no number is blamed on the loop, not on the bound.
    refine (checkBound_blames hspan).bind fun _ => ?_
    refine (checkBound_blames hspan).bind fun _ => ?_
    refine (Lower.Blames.declareSlot hspan).bind ?_
    rintro ⟨slot, scopes⟩
    have hinner := ((henv.push .block).withScopes scopes).push (.loop (some (countStep slot)))
    exact (lowerBody_blames hs hinner body hbody).bind fun _ => .pure
  | .ret span value, h => by
    simp only [outline, throughout_node] at h
    rw [lower]
    exact (lowerReturn_blames hs henv h.1 h.2).bind fun _ => .pure
  | .stop span, h => by
    rw [lower]
    exact (lowerStop_blames h.at_span).bind fun _ => .pure
  | .next span, h => by
    rw [lower]
    exact (lowerNext_blames h.at_span).bind fun _ => .pure
  | .call span name args, h => by
    simp only [outline, throughout_node] at h
    rw [lower]
    exact (lowerCall_blames hs henv h.1 h.2).bind fun _ => .pure

theorem lowerBody_blames (hs : Splice.Blames P splice?) {env : Env}
    (henv : env.Placed P) :
    ∀ body : List Stmt, (∀ o ∈ outlineBody body, o.Throughout P) →
      Lower.Blames P (lowerBody env splice? body)
  | [], _ => by
    rw [lowerBody]
    exact .pure
  | s :: body, h => by
    simp only [outlineBody, List.forall_mem_cons] at h
    rw [lowerBody]
    refine (lower_blames hs henv s h.1).bind ?_
    rintro ⟨scopes, action⟩
    exact (lowerBody_blames hs (henv.withScopes scopes) body h.2).bind fun _ => .pure

end

end Stmt

/-! ## Calls -/

namespace FunctionDecl

theorem declareGenerics_blames (henv : env.Placed P) (scopes : Scopes) (gs : List GenericParam)
    (h : ∀ g ∈ gs, g.outline.Throughout P) :
    Except.Blames P (declareGenerics env scopes gs) := by
  induction gs generalizing scopes with
  | nil => exact .ok
  | cons g gs ih =>
    obtain ⟨hg, hgs⟩ := List.forall_mem_cons.mp h
    simp only [GenericParam.outline, throughout_node] at hg
    rw [declareGenerics]
    cases hbound : g.bound with
    | none => exact ih _ hgs
    | some bound =>
      simp only [hbound, TypeExpr.outlineOption, List.forall_mem_singleton] at hg
      simp only [pure_bind]
      exact (Env.resolveIn_blames henv scopes hg.2).bind fun ty => ih _ hgs

theorem checkArguments_blames (henv : env.Placed P) {function : String} (hspan : P span)
    (index : Nat) (bindings : Bindings) (args : List (Param × Ty))
    (h : ∀ p ∈ args, p.1.outline.Throughout P) :
    Except.Blames P (checkArguments env function span index bindings args) := by
  induction args generalizing index bindings with
  | nil => exact .ok
  | cons arg rest ih =>
    obtain ⟨p, given⟩ := arg
    obtain ⟨hp, hrest⟩ := List.forall_mem_cons.mp h
    simp only [Param.outline, throughout_node, List.forall_mem_singleton] at hp
    rw [checkArguments]
    refine (Env.resolveIn_blames henv env.scopes hp.2).bind fun ty => ?_
    exact (Value.checkArgument_blames hspan).bind fun bindings' => ih _ bindings' hrest

theorem reserveReturn_blames (henv : env.Placed P) {decl : FunctionDecl} (hspan : P span)
    (h : ∀ o ∈ TypeExpr.outlineOption decl.ret, o.Throughout P) :
    Lower.Blames P (reserveReturn env decl span) := by
  refine .ofExcept_bind (Env.resolve?_blames henv h) fun resolved _ => ?_
  cases resolved with
  | none => exact .pure
  | some ty => exact .check hspan ((Lower.Blames.grant hspan).bind fun _ => .pure)

/-- A parameter is blamed where it is declared, not where the call is. -/
theorem bindParams_blames {env : Env} (henv : env.Placed P) (params : List (Param × Value))
    (h : ∀ p ∈ params, p.1.outline.Throughout P) : Lower.Blames P (bindParams env params) := by
  induction params generalizing env with
  | nil => exact .pure
  | cons param rest ih =>
    obtain ⟨p, v⟩ := param
    obtain ⟨hp, hrest⟩ := List.forall_mem_cons.mp h
    simp only [Param.outline, throughout_node, List.forall_mem_singleton] at hp
    rw [bindParams]
    refine .check hp.1 ?_
    refine .ofExcept_bind (Env.resolveIn_blames henv env.scopes hp.2) fun ty _ => ?_
    refine (Lower.Blames.declareSlot hp.1).bind ?_
    rintro ⟨slot, scopes⟩
    exact (ih (henv.withScopes scopes) hrest).bind fun _ => .pure

/-- **Errors of lowering a call** are at the place of the call or in declarations. -/
theorem inline_blames (hs : Splice.Blames P splice?) :
    Splice.Blames P (some (inline splice?)) := by
  rintro _ ⟨⟩ env decl args span henv hdecl hspan
  simp only [outline, throughout_node, List.forall_mem_append, List.forall_mem_map] at hdecl
  obtain ⟨-, ⟨⟨hgenerics, hparams⟩, hret⟩, hbody⟩ := hdecl
  refine Lower.Blames.log.bind fun _ => ?_
  refine .ofExcept_bind (declareGenerics_blames henv _ decl.generics hgenerics) fun scopes _ => ?_
  refine .ofExcept_bind (checkArguments_blames (henv.withScopes scopes) hspan 0 .empty _
    fun p hp => hparams p.1 (List.of_mem_zip hp).1) fun bindings _ => ?_
  refine (reserveReturn_blames (henv.withScopes _) hspan hret).bind fun ret => ?_
  have hinner : Env.Placed P { env with
      inlining := decl.name :: env.inlining
      scopes := declareReturn (bindGenerics bindings scopes decl.generics) decl.name ret } := henv
  refine (bindParams_blames hinner (decl.params.zip args)
    fun p hp => hparams p.1 (List.of_mem_zip hp).1).bind ?_
  rintro ⟨scopes', params⟩
  exact (Stmt.lowerBody_blames hs (hinner.withScopes scopes') decl.body hbody).bind fun _ => .pure

end FunctionDecl

theorem spliceWithin_blames (depth : Nat) : Splice.Blames P (spliceWithin depth) := by
  induction depth with
  | zero => rintro _ ⟨⟩
  | succ depth ih => exact FunctionDecl.inline_blames ih

/-! ## Programs -/

namespace EventDecl

theorem declareArgs_blames (hspan : P span) (scopes : Scopes) (args : List (String × EventArg)) :
    Except.Blames P (declareArgs span scopes args) := by
  induction args generalizing scopes with
  | nil => exact .ok
  | cons arg rest ih =>
    obtain ⟨name, arg⟩ := arg
    rw [declareArgs]
    split
    · exact .error hspan
    · exact ih _

theorem lower_blames {d : Declarations} (hd : d.Placed P) (limit : Nat) {event : EventDecl}
    (h : event.outline.Throughout P) : Lower.Blames P (event.lower d limit) := by
  simp only [outline, throughout_node] at h
  obtain ⟨hspan, hbody⟩ := h
  rw [lower]
  cases EventDef.find? event.name with
  | none => exact .fail hspan
  | some trigger =>
    refine .check hspan ?_
    refine .ofExcept_bind (declareArgs_blames hspan _ _) fun scopes _ => ?_
    have henv : Env.Placed P { declarations := d, maxInlineDepth := limit, scopes } := hd
    refine (Stmt.lowerBody_blames (spliceWithin_blames limit) henv event.body hbody).bind
      fun body => ?_
    exact Lower.Blames.log.bind fun _ => .pure

end EventDecl

namespace Declarations

theorem add_blames (d : Declarations) {i : Item} (h : i.outline.Throughout P) :
    Except.Blames P (d.add i) := by
  cases i with
  | function f =>
    rw [add]
    split
    · exact .error h.at_span
    · exact .ok
  | typeAlias a =>
    rw [add]
    split
    · exact .error h.at_span
    · exact .ok
  | event e => exact .ok

theorem foldlM_add_blames (d : Declarations) (items : List Item)
    (h : ∀ i ∈ items, i.outline.Throughout P) : Except.Blames P (items.foldlM add d) := by
  induction items generalizing d with
  | nil => exact .ok
  | cons item items ih =>
    obtain ⟨hitem, hitems⟩ := List.forall_mem_cons.mp h
    rw [List.foldlM_cons]
    exact (add_blames d hitem).bind fun d' => ih d' hitems

theorem placed_of_collect {program : Program} {d : Declarations}
    (h : ∀ i ∈ program.items, i.outline.Throughout P) (hd : collect program = .ok d) :
    d.Placed P := by
  constructor
  · intro name decl hget
    have hlookup : d.lookup? (.function name) = some (.function decl) := by
      rw [lookup?, hget]
      rfl
    exact h _ ((lookup?_collect hd).mp hlookup).1
  · intro name decl hget
    have hlookup : d.lookup? (.type name) = some (.typeAlias decl) := by
      rw [lookup?, hget]
      rfl
    exact h _ ((lookup?_collect hd).mp hlookup).1

end Declarations

namespace Program

theorem lowerEvents_blames {d : Declarations} (hd : d.Placed P) (limit : Nat)
    (es : List EventDecl) (h : ∀ e ∈ es, e.outline.Throughout P) :
    Lower.Blames P (lowerEvents d limit es) := by
  induction es with
  | nil => exact .pure
  | cons e es ih =>
    obtain ⟨he, hes⟩ := List.forall_mem_cons.mp h
    rw [lowerEvents]
    refine (EventDecl.lower_blames hd limit he).bind fun rule => ?_
    exact (ih hes).bind fun _ => .pure

/-- **Errors of lowering are at places of the program**, whatever the options are. -/
theorem lower_blames {program : Program} (h : ∀ i ∈ program.items, i.outline.Throughout P)
    (options : Options) {e : Error} {st : LowerState} (he : program.lower options = .error e st) :
    P e.span := by
  suffices hall : Lower.Blames P (program.lowerAll options.maxInlineDepth) from
    hall _ e st he
  refine .ofExcept_bind (Declarations.foldlM_add_blames {} program.items h) fun d hd => ?_
  have hevents : ∀ e ∈ program.events, e.outline.Throughout P := by
    intro e he
    obtain ⟨i, hi, hie⟩ := List.mem_filterMap.mp he
    cases i with
    | event e' =>
      cases hie
      exact h _ hi
    | function => cases hie
    | typeAlias => cases hie
  refine Lower.Blames.log.bind fun _ => ?_
  refine (lowerEvents_blames (Declarations.placed_of_collect h hd) _ _ hevents).bind
    fun rules => ?_
  exact Lower.Blames.get.bind fun _ => Lower.Blames.log.bind fun _ => .pure

end Program

end RuleScript
