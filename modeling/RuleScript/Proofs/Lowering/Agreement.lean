import RuleScript.Proofs.Lowering.Annotations
import RuleScript.Proofs.Lowering.Scopes
import RuleScript.Proofs.Lowering.Tracking

/-!
# What lowering depends on

Two runs of lowering that start from related slots track each other as long as they agree on what
can be looked up: on the declarations that are referred to, on the functions being inlined, on the
number of open scopes, and on the scopes up to the nearest function. Nothing else is ever looked at.
For the body of a call not even the last is needed, as a function closes off what is outside it.

## Main definitions

* `Scopes.Alike`: scopes that cannot be told apart from inside
* `Env.Level`, `Env.Alike`: environments with the same surroundings, and with the same view

## Main results

* `Env.Alike.resolve`: annotations stand for the same
* `Stmt.lowerBody_tracks`: lowering the same body
* `FunctionDecl.inline_tracks`: lowering the same call
* `Program.lower_tracks`: lowering programs with the same events
-/

namespace RuleScript

/-! ## Scopes -/

namespace Scopes

variable {s s' : Scopes} {name : String}

/-- The scopes cannot be told apart from inside: they are the same up to the nearest function, and
equally many are open. -/
structure Alike (s s' : Scopes) : Prop where
  visible : s.visible = s'.visible
  depth : s.depth = s'.depth

theorem loopAmong_upToFunction (l : List Scope) : loopAmong (upToFunction l) = loopAmong l := by
  induction l with
  | nil => rfl
  | cons scope outer ih =>
    rw [upToFunction]
    cases hkind : scope.kind with
    | function function ret => simp [ScopeKind.isFunction, loopAmong, hkind]
    | loop step => simp [ScopeKind.isFunction, loopAmong, hkind]
    | block => simpa [ScopeKind.isFunction, loopAmong, hkind] using ih

theorem enclosingFunction?_upToFunction (l : List Scope) :
    (⟨upToFunction l⟩ : Scopes).enclosingFunction? = (⟨l⟩ : Scopes).enclosingFunction? := by
  induction l with
  | nil => rfl
  | cons scope outer ih =>
    rw [upToFunction]
    unfold enclosingFunction? at ih ⊢
    cases hkind : scope.kind with
    | function function ret => simp [ScopeKind.isFunction, hkind]
    | loop step => simpa [ScopeKind.isFunction, hkind] using ih
    | block => simpa [ScopeKind.isFunction, hkind] using ih

theorem head?_visible (s : Scopes) : s.visible.head? = s.current? := by
  obtain ⟨l⟩ := s
  cases l with
  | nil => rfl
  | cons scope outer => rw [visible_cons]; rfl

namespace Alike

theorem refl (s : Scopes) : Alike s s := ⟨rfl, rfl⟩

theorem binding? (h : Alike s s') : s.binding? name = s'.binding? name := by
  rw [Scopes.binding?, Scopes.binding?, h.visible]

theorem type? (h : Alike s s') : s.type? name = s'.type? name := by
  rw [Scopes.type?, Scopes.type?, h.visible]

theorem declaredHere (h : Alike s s') : s.declaredHere name = s'.declaredHere name := by
  rw [Scopes.declaredHere, Scopes.declaredHere, ← head?_visible, ← head?_visible, h.visible]

theorem enclosingLoop? (h : Alike s s') : s.enclosingLoop? = s'.enclosingLoop? := by
  rw [Scopes.enclosingLoop?, Scopes.enclosingLoop?, ← loopAmong_upToFunction,
    ← loopAmong_upToFunction s'.open_]
  exact congrArg loopAmong h.visible

theorem enclosingFunction? (h : Alike s s') : s.enclosingFunction? = s'.enclosingFunction? := by
  rw [← enclosingFunction?_upToFunction s.open_, ← enclosingFunction?_upToFunction s'.open_]
  exact congrArg (fun l => (⟨l⟩ : Scopes).enclosingFunction?) h.visible

theorem push (h : Alike s s') (kind : ScopeKind) : Alike (s.push kind) (s'.push kind) := by
  refine ⟨?_, by simp [h.depth]⟩
  show (⟨_ :: _⟩ : Scopes).visible = (⟨_ :: _⟩ : Scopes).visible
  rw [visible_cons, visible_cons]
  exact congrArg (fun rest => { kind } :: if kind.isFunction then [] else rest) h.visible

/-- Nothing behind the scope of a function can be seen. -/
theorem push_function (h : s.depth = s'.depth) (function : String) (ret : Option ReturnSlot) :
    Alike (s.push (.function function ret)) (s'.push (.function function ret)) :=
  ⟨rfl, by simp [h]⟩

/-- Changing the innermost scope, which stays that of a function if it was. -/
theorem modifyCurrent (h : Alike s s') {f : Scope → Scope}
    (hf : ∀ scope, scope.kind.isFunction = true → (f scope).kind.isFunction = true) :
    Alike (s.modifyCurrent f) (s'.modifyCurrent f) := by
  refine ⟨?_, by simp [h.depth]⟩
  obtain ⟨l⟩ := s
  obtain ⟨l'⟩ := s'
  have hdepth : l.length = l'.length := h.depth
  cases l with
  | nil =>
    cases l' with
    | nil => rfl
    | cons => cases hdepth
  | cons scope outer =>
    cases l' with
    | nil => cases hdepth
    | cons scope' outer' =>
      have hvisible := h.visible
      rw [visible_cons, visible_cons, List.cons.injEq] at hvisible
      obtain ⟨rfl, htail⟩ := hvisible
      show (⟨_ :: _⟩ : Scopes).visible = (⟨_ :: _⟩ : Scopes).visible
      rw [visible_cons, visible_cons]
      by_cases hfunction : (f scope).kind.isFunction
      · rw [if_pos hfunction, if_pos hfunction]
      · have hscope : ¬ scope.kind.isFunction = true := fun h => hfunction (hf scope h)
        rw [if_neg hscope, if_neg hscope] at htail
        rw [if_neg hfunction, if_neg hfunction, htail]

theorem declare (h : Alike s s') (name : String) (b : Binding) :
    Alike (s.declare name b) (s'.declare name b) := h.modifyCurrent fun _ => id

theorem declareType (h : Alike s s') (name : String) (ty : Ty) :
    Alike (s.declareType name ty) (s'.declareType name ty) := h.modifyCurrent fun _ => id

theorem setFunction (h : Alike s s') (function : String) (ret : Option ReturnSlot) :
    Alike (s.setKind (.function function ret)) (s'.setKind (.function function ret)) :=
  h.modifyCurrent fun _ _ => rfl

end Alike

end Scopes

/-! ## Environments -/

open Lower (Comparison Tracks)

variable {c : Comparison} {env env' : Env} {splice? splice?' : Option Splice}

namespace Env

/-- Environments with the same surroundings, whatever the open scopes hold. -/
structure Level (c : Comparison) (env env' : Env) : Prop where
  declarations : env.declarations.AgreeOn c.known env'.declarations
  inlining : env.inlining = env'.inlining
  limit : env.maxInlineDepth = env'.maxInlineDepth ∨ c.CutsDepth
  depth : env.scopes.depth = env'.scopes.depth

/-- Environments with the same surroundings and the same view of the open scopes. -/
structure Alike (c : Comparison) (env env' : Env) : Prop where
  declarations : env.declarations.AgreeOn c.known env'.declarations
  inlining : env.inlining = env'.inlining
  limit : env.maxInlineDepth = env'.maxInlineDepth ∨ c.CutsDepth
  scopes : env.scopes.Alike env'.scopes

namespace Alike

theorem level (h : env.Alike c env') : env.Level c env' :=
  ⟨h.declarations, h.inlining, h.limit, h.scopes.depth⟩

theorem withScopes (h : env.Alike c env') {s s' : Scopes} (hs : s.Alike s') :
    ({ env with scopes := s } : Env).Alike c { env' with scopes := s' } :=
  ⟨h.declarations, h.inlining, h.limit, hs⟩

theorem push (h : env.Alike c env') (kind : ScopeKind) :
    (env.push kind).Alike c (env'.push kind) :=
  h.withScopes (h.scopes.push kind)

/-- Annotations stand for the same. -/
theorem resolve (h : env.Alike c env') {e : TypeExpr} (hknown : ∀ r ∈ e.references, c.known r) :
    env.resolve e = env'.resolve e :=
  Env.resolveIn_agree h.declarations (fun _ => h.scopes.type?) hknown

theorem resolve? (h : env.Alike c env') {e : Option TypeExpr}
    (hknown : ∀ r ∈ TypeExpr.referencesOption e, c.known r) :
    env.resolve? e = env'.resolve? e := by
  cases e with
  | none => rfl
  | some e => rw [Env.resolve?, Env.resolve?, h.resolve hknown]

theorem ident (h : env.Alike c env') (span : Span) (name : String) :
    env.ident span name = env'.ident span name := by
  rw [Env.ident, Env.ident, h.scopes.binding?]

end Alike

end Env

/-! ## Expressions -/

namespace Splice

/-- The ways to lower the body of a call track each other, wherever the call stands. -/
def Tracks (c : Comparison) (splice splice' : Splice) : Prop :=
  ∀ {env env' : Env} {decl : FunctionDecl} (args : List Value) (span : Span), env.Level c env' →
    (∀ r ∈ decl.references, c.known r) →
      Lower.Tracks c Eq (splice env decl args span) (splice' env' decl args span)

/-- The ways to lower the body of a call, if there are any. Only the first run may have none, if
that may stop it. -/
inductive TracksWithin (c : Comparison) : Option Splice → Option Splice → Prop
  | none : TracksWithin c none none
  | cut (other : Option Splice) : c.CutsDepth → TracksWithin c none other
  | some {splice other : Splice} : Tracks c splice other → TracksWithin c (some splice) (some other)

end Splice

/-- A call is refused in both runs or in neither. -/
theorem Env.checkCall_tracks (henv : env.Level c env')
    (hs : Splice.TracksWithin c splice? splice?') (decl : FunctionDecl) (given : Nat)
    (wantsValue : Bool) (span : Span) :
    Tracks c (Splice.Tracks c)
      (Lower.ofExcept (env.checkCall splice? decl given wantsValue span))
      (Lower.ofExcept (env'.checkCall splice?' decl given wantsValue span)) := by
  unfold Env.checkCall
  rw [henv.inlining]
  -- Recursion comes first, so it is refused with the same error even where the limits differ.
  by_cases hrec : env'.inlining.contains decl.name
  · rw [if_pos hrec, if_pos hrec]
    exact fun _ _ hr => .error hr
  rw [if_neg hrec, if_neg hrec]
  cases hs with
  | none =>
    rcases henv.limit with hlimit | hcut
    · rw [hlimit]
      exact fun _ _ hr => .error hr
    · exact fun _ _ _ => .cut (hcut _ _ _)
  | cut _ hcut => exact fun _ _ _ => .cut (hcut _ _ _)
  | some htracks =>
    by_cases hret : wantsValue ∧ decl.ret.isNone
    · simp only [if_pos hret]
      exact fun _ _ hr => .error hr
    by_cases harity : given ≠ decl.params.length
    · simp only [if_neg hret, if_pos harity]
      exact fun _ _ hr => .error hr
    simp only [if_neg hret, if_neg harity]
    exact fun _ _ hr => .ok (by exact htracks) hr

namespace Expr

mutual

/-- Lowering the same expression. -/
theorem lower_tracks (hs : Splice.TracksWithin c splice? splice?') (henv : env.Alike c env') :
    ∀ e : Expr, (∀ r ∈ e.references, c.known r) →
      Tracks c Eq (e.lower env splice?) (e.lower env' splice?')
  | .number _ x, _ => by
    rw [lower, lower]
    exact .pure rfl
  | .string span s, _ => by
    rw [lower, lower]
    exact (Tracks.ofExcept _).bindEq fun _ => .pure rfl
  | .boolean _ b, _ => by
    rw [lower, lower]
    exact .pure rfl
  | .ident span name, _ => by
    rw [lower, lower, henv.ident]
    exact (Tracks.ofExcept _).bindEq fun _ => .pure rfl
  | .array span item items, hknown => by
    simp only [references, List.forall_mem_append] at hknown
    rw [lower, lower, henv.resolve? hknown.1]
    refine (Tracks.ofExcept _).bindEq fun explicit => ?_
    refine (lowerList_tracks hs henv items hknown.2).bindEq fun vs => ?_
    exact (Tracks.ofExcept _).bindEq fun _ => .pure rfl
  | .binary span op left right, hknown => by
    simp only [references, List.forall_mem_append] at hknown
    rw [lower, lower]
    refine (lower_tracks hs henv left hknown.1).bindEq fun lhs => ?_
    refine (lower_tracks hs henv right hknown.2).bindEq fun rhs => ?_
    exact (Tracks.ofExcept _).bindEq fun _ => .pure rfl
  | .not span operand, hknown => by
    rw [lower, lower]
    refine (lower_tracks hs henv operand hknown).bindEq fun v => ?_
    exact (Tracks.ofExcept _).bindEq fun _ => .pure rfl
  | .typeOf span operand, hknown => by
    rw [lower, lower]
    exact (lower_tracks hs henv operand hknown).bindEq fun _ => .pure rfl
  | .index span object place, hknown => by
    simp only [references, List.forall_mem_append] at hknown
    rw [lower, lower]
    refine (lower_tracks hs henv object hknown.1).bindEq fun a => ?_
    cases a.value.ty.item? with
    | none => exact .fail
    | some item =>
      refine (lower_tracks hs henv place hknown.2).bindEq fun i => ?_
      exact .check (.pure rfl)
  | .call span name args, hknown => by
    obtain ⟨hname, hargs⟩ := List.forall_mem_cons.mp hknown
    have hfunction := henv.declarations.functions hname
    rw [lower, lower, ← hfunction]
    cases hdecl : env.declarations.functions.get? name with
    | some decl =>
      refine (Env.checkCall_tracks henv.level hs decl args.length true span).bind
        fun {splice splice'} hsplice => ?_
      refine (lowerList_tracks hs henv args hargs).bindEq fun vs => ?_
      refine (hsplice vs.values span henv.level
        (henv.declarations.callee hname hdecl)).bindEq fun spliced => ?_
      obtain ⟨body, ret⟩ := spliced
      cases ret with
      | none => exact .fail
      | some r => exact .pure rfl
    | none =>
      cases FunctionDef.find? name with
      | none => exact (lowerList_tracks hs henv args hargs).bindEq fun _ => .fail
      | some f =>
        refine (lowerArgs_tracks hs henv f args.length span 0 f.params .empty args hargs).bindEq
          fun vs => ?_
        cases f.ret with
        | none => exact .fail
        | some ty => exact .pure rfl

theorem lowerList_tracks (hs : Splice.TracksWithin c splice? splice?') (henv : env.Alike c env') :
    ∀ es : List Expr, (∀ r ∈ referencesList es, c.known r) →
      Tracks c Eq (lowerList env splice? es) (lowerList env' splice?' es)
  | [], _ => by
    rw [lowerList, lowerList]
    exact .pure rfl
  | e :: es, hknown => by
    simp only [referencesList, List.forall_mem_append] at hknown
    rw [lowerList, lowerList]
    refine (lower_tracks hs henv e hknown.1).bindEq fun v => ?_
    exact (lowerList_tracks hs henv es hknown.2).bindEq fun _ => .pure rfl

theorem lowerArgs_tracks (hs : Splice.TracksWithin c splice? splice?') (henv : env.Alike c env')
    (f : FunctionDef) (given : Nat) (span : Span) (index : Nat) (params : List ParamDef)
    (bindings : Bindings) : ∀ es : List Expr, (∀ r ∈ referencesList es, c.known r) →
      Tracks c Eq (lowerArgs env splice? f given span index params bindings es)
        (lowerArgs env' splice?' f given span index params bindings es)
  | [], _ => by
    rw [lowerArgs, lowerArgs]
    cases Value.defaults? params with
    | none => exact .fail
    | some values => exact .pure rfl
  | e :: es, hknown => by
    simp only [referencesList, List.forall_mem_append] at hknown
    cases params with
    | nil =>
      rw [lowerArgs, lowerArgs]
      exact .fail
    | cons p ps =>
      rw [lowerArgs, lowerArgs]
      split
      · refine (Tracks.ofExcept _).bindEq fun template => ?_
        exact (lowerArgs_tracks hs henv f given span (index + 1) ps bindings es hknown.2).bindEq
          fun _ => .pure rfl
      · refine (lower_tracks hs henv e hknown.1).bindEq fun v => ?_
        refine (Tracks.ofExcept _).bindEq fun bindings' => ?_
        split
        · exact (lowerArgs_tracks hs henv f given span index (p :: ps) bindings' es
            hknown.2).bindEq fun _ => .pure rfl
        · exact (lowerArgs_tracks hs henv f given span (index + 1) ps bindings' es
            hknown.2).bindEq fun _ => .pure rfl

end

end Expr

/-! ## Statements -/

/-- Giving a variable its slot in both runs. -/
theorem Lower.declareSlot_tracks {s s' : Scopes} (hs : s.Alike s') (name : String) (ty : Ty)
    (mutable : Bool) (span : Span) :
    Tracks c (fun a b => a.1 = b.1 ∧ a.2.Alike b.2) (declareSlot s name ty mutable span)
      (declareSlot s' name ty mutable span) := by
  rw [declareSlot, declareSlot, hs.depth]
  exact (Tracks.intern _ _ _).bindEq fun slot => .pure ⟨rfl, hs.declare _ _⟩

namespace Stmt

theorem lowerCondition_tracks (hs : Splice.TracksWithin c splice? splice?')
    (henv : env.Alike c env') (statement : Conditional) {e : Expr}
    (hknown : ∀ r ∈ e.references, c.known r) : Tracks c Eq
      (lowerCondition env splice? statement e) (lowerCondition env' splice?' statement e) := by
  rw [lowerCondition, lowerCondition]
  exact (Expr.lower_tracks hs henv e hknown).bindEq fun _ => .check (.pure rfl)

theorem checkFits_tracks (wanted : Ty) (value : Value) (fault : Fault) (span : Span) :
    Tracks c Eq (checkFits wanted value fault span) (checkFits wanted value fault span) := by
  rw [checkFits]
  refine (Tracks.ofExcept _).bindEq fun fits => ?_
  split
  · exact .pure rfl
  · exact .fail

theorem checkBound_tracks (bound : Value) (span : Span) :
    Tracks c Eq (checkBound bound span) (checkBound bound span) := by
  unfold checkBound
  split
  · exact .fail
  · exact .pure rfl

theorem lowerOption_tracks (hs : Splice.TracksWithin c splice? splice?')
    (henv : env.Alike c env') {e : Option Expr}
    (hknown : ∀ r ∈ Expr.referencesOption e, c.known r) :
    Tracks c Eq (lowerOption env splice? e) (lowerOption env' splice?' e) := by
  cases e with
  | none => exact .pure rfl
  | some e => exact (Expr.lower_tracks hs henv e hknown).bindEq fun _ => .pure rfl

/-- A statement leads to the same action, and to scopes that are alike. -/
abbrev SameAction (a b : Scopes × Action) : Prop := a.1.Alike b.1 ∧ a.2 = b.2

theorem lowerDeclare_tracks (hs : Splice.TracksWithin c splice? splice?')
    (henv : env.Alike c env') (span : Span) (name : String) {ty : Option TypeExpr}
    {value : Option Expr} (constant : Bool)
    (hty : ∀ r ∈ TypeExpr.referencesOption ty, c.known r)
    (hvalue : ∀ r ∈ Expr.referencesOption value, c.known r) :
    Tracks c SameAction (lowerDeclare env splice? span name ty value constant)
      (lowerDeclare env' splice?' span name ty value constant) := by
  rw [lowerDeclare, lowerDeclare, henv.scopes.declaredHere, henv.resolve? hty]
  refine .check (.check ?_)
  refine (Tracks.ofExcept _).bindEq fun annotated => ?_
  refine (lowerOption_tracks hs henv hvalue).bindEq fun lowered => ?_
  refine (Tracks.ofExcept _).bindEq fun ty => ?_
  refine (Lower.declareSlot_tracks henv.scopes name ty (!constant) span).bind ?_
  rintro ⟨slot, scopes⟩ ⟨_, scopes'⟩ ⟨rfl, hscopes⟩
  cases lowered with
  | none => exact .pure ⟨hscopes, rfl⟩
  | some v => exact .pure ⟨hscopes, rfl⟩

theorem lowerAssign_tracks (hs : Splice.TracksWithin c splice? splice?')
    (henv : env.Alike c env') (span : Span) (name : String) {value : Expr}
    (hknown : ∀ r ∈ value.references, c.known r) :
    Tracks c Eq (lowerAssign env splice? span name value)
      (lowerAssign env' splice?' span name value) := by
  rw [lowerAssign, lowerAssign, henv.scopes.binding?]
  split
  · exact .fail
  · refine (Expr.lower_tracks hs henv value hknown).bindEq fun v => ?_
    exact (checkFits_tracks _ _ _ _).bindEq fun _ => .pure rfl
  · exact .fail

theorem lowerAssignField_tracks (hs : Splice.TracksWithin c splice? splice?')
    (henv : env.Alike c env') (span : Span) {object : Expr} (field : String) {value : Expr}
    (hobject : ∀ r ∈ object.references, c.known r) (hvalue : ∀ r ∈ value.references, c.known r) :
    Tracks c Eq (lowerAssignField env splice? span object field value)
      (lowerAssignField env' splice?' span object field value) := by
  rw [lowerAssignField, lowerAssignField]
  refine (Expr.lower_tracks hs henv object hobject).bindEq fun o => ?_
  refine (checkFits_tracks _ _ _ _).bindEq fun _ => ?_
  exact (Expr.lower_tracks hs henv value hvalue).bindEq fun _ => .pure rfl

theorem lowerReturn_tracks (hs : Splice.TracksWithin c splice? splice?')
    (henv : env.Alike c env') (span : Span) {value : Option Expr}
    (hknown : ∀ r ∈ Expr.referencesOption value, c.known r) :
    Tracks c Eq (lowerReturn env splice? span value) (lowerReturn env' splice?' span value) := by
  unfold lowerReturn
  rw [henv.scopes.enclosingFunction?]
  split
  · exact .fail
  · exact .pure rfl
  · exact .fail
  · refine (Expr.lower_tracks hs henv _ hknown).bindEq fun v => ?_
    exact (checkFits_tracks _ _ _ _).bindEq fun _ => .pure rfl

theorem lowerStop_tracks (henv : env.Alike c env') (span : Span) :
    Tracks c Eq (lowerStop env span) (lowerStop env' span) := by
  rw [lowerStop, lowerStop, henv.scopes.enclosingLoop?]
  split
  · exact .pure rfl
  · exact .fail

theorem lowerNext_tracks (henv : env.Alike c env') (span : Span) :
    Tracks c Eq (lowerNext env span) (lowerNext env' span) := by
  rw [lowerNext, lowerNext, henv.scopes.enclosingLoop?]
  split
  · exact .pure rfl
  · exact .pure rfl
  · exact .fail

theorem lowerCall_tracks (hs : Splice.TracksWithin c splice? splice?') (henv : env.Alike c env')
    (span : Span) {name : String} {args : List Expr} (hname : c.known (.function name))
    (hargs : ∀ r ∈ Expr.referencesList args, c.known r) :
    Tracks c Eq (lowerCall env splice? span name args)
      (lowerCall env' splice?' span name args) := by
  rw [lowerCall, lowerCall, ← henv.declarations.functions hname]
  cases hdecl : env.declarations.functions.get? name with
  | some decl =>
    refine (Env.checkCall_tracks henv.level hs decl args.length false span).bind
      fun {splice splice'} hsplice => ?_
    refine (Expr.lowerList_tracks hs henv args hargs).bindEq fun vs => ?_
    exact (hsplice vs.values span henv.level
      (henv.declarations.callee hname hdecl)).bindEq fun _ => .pure rfl
  | none =>
    cases FunctionDef.find? name with
    | none => exact (Expr.lowerList_tracks hs henv args hargs).bindEq fun _ => .fail
    | some f =>
      exact (Expr.lowerArgs_tracks hs henv f args.length span 0 f.params .empty args hargs).bindEq
        fun _ => .pure rfl

theorem saveCondition_tracks (condition : Value) (span : Span) :
    Tracks c Eq (saveCondition condition span) (saveCondition condition span) := by
  unfold saveCondition
  split
  · exact .pure rfl
  · exact (Tracks.fresh _ _).bindEq fun _ => .pure rfl

mutual

/-- Lowering the same statement. -/
theorem lower_tracks (hs : Splice.TracksWithin c splice? splice?') {env env' : Env}
    (henv : env.Alike c env') : ∀ s : Stmt, (∀ r ∈ s.references, c.known r) →
      Tracks c SameAction (s.lower env splice?) (s.lower env' splice?')
  | .block _ body, hknown => by
    rw [lower, lower]
    exact (lowerBody_tracks hs (henv.push .block) body hknown).bindEq
      fun _ => .pure ⟨henv.scopes, rfl⟩
  | .declare span name ty value constant, hknown => by
    simp only [references, List.forall_mem_append] at hknown
    rw [lower, lower]
    exact lowerDeclare_tracks hs henv span name constant hknown.1 hknown.2
  | .assign span name value, hknown => by
    rw [lower, lower]
    exact (lowerAssign_tracks hs henv span name hknown).bindEq fun _ => .pure ⟨henv.scopes, rfl⟩
  | .assignField span object field value, hknown => by
    simp only [references, List.forall_mem_append] at hknown
    rw [lower, lower]
    exact (lowerAssignField_tracks hs henv span field hknown.1 hknown.2).bindEq
      fun _ => .pure ⟨henv.scopes, rfl⟩
  | .branch _ condition body none, hknown => by
    simp only [references, List.forall_mem_append] at hknown
    rw [lower, lower]
    refine (lowerCondition_tracks hs henv .if_ hknown.1).bindEq fun v => ?_
    exact (lowerBody_tracks hs (henv.push .block) body hknown.2).bindEq
      fun _ => .pure ⟨henv.scopes, rfl⟩
  | .branch span condition body (some otherwise), hknown => by
    simp only [references, List.forall_mem_append] at hknown
    obtain ⟨hcondition, hbody, hother⟩ := hknown
    rw [lower, lower]
    refine (lowerCondition_tracks hs henv .if_ hcondition).bindEq fun v => ?_
    refine (saveCondition_tracks v.value span).bindEq fun (save, saved) => ?_
    refine (lowerBody_tracks hs (henv.push .block) body hbody).bindEq fun actions => ?_
    exact (lowerBody_tracks hs (henv.push .block) otherwise hother).bindEq
      fun _ => .pure ⟨henv.scopes, rfl⟩
  | .loop _ condition body, hknown => by
    simp only [references, List.forall_mem_append] at hknown
    rw [lower, lower]
    refine (lowerCondition_tracks hs henv .while_ hknown.1).bindEq fun v => ?_
    exact (lowerBody_tracks hs (henv.push (.loop none)) body hknown.2).bindEq
      fun _ => .pure ⟨henv.scopes, rfl⟩
  | .count span marker first limit body, hknown => by
    simp only [references, List.forall_mem_append] at hknown
    obtain ⟨hfirst, hlimit, hbody⟩ := hknown
    have houter := henv.push .block
    rw [lower, lower]
    refine (Expr.lower_tracks hs houter first hfirst).bindEq fun a => ?_
    refine (Expr.lower_tracks hs houter limit hlimit).bindEq fun b => ?_
    refine (checkBound_tracks a.value span).bindEq fun _ => ?_
    refine (checkBound_tracks b.value span).bindEq fun _ => ?_
    refine (Lower.declareSlot_tracks houter.scopes marker .number true span).bind ?_
    rintro ⟨slot, scopes⟩ ⟨_, scopes'⟩ ⟨rfl, hscopes⟩
    have hinner := (houter.withScopes hscopes).push (.loop (some (countStep slot)))
    exact (lowerBody_tracks hs hinner body hbody).bindEq fun _ => .pure ⟨henv.scopes, rfl⟩
  | .ret span value, hknown => by
    rw [lower, lower]
    exact (lowerReturn_tracks hs henv span hknown).bindEq fun _ => .pure ⟨henv.scopes, rfl⟩
  | .stop span, _ => by
    rw [lower, lower]
    exact (lowerStop_tracks henv span).bindEq fun _ => .pure ⟨henv.scopes, rfl⟩
  | .next span, _ => by
    rw [lower, lower]
    exact (lowerNext_tracks henv span).bindEq fun _ => .pure ⟨henv.scopes, rfl⟩
  | .call span name args, hknown => by
    obtain ⟨hname, hargs⟩ := List.forall_mem_cons.mp hknown
    rw [lower, lower]
    exact (lowerCall_tracks hs henv span hname hargs).bindEq fun _ => .pure ⟨henv.scopes, rfl⟩

/-- **Lowering the same body.** -/
theorem lowerBody_tracks (hs : Splice.TracksWithin c splice? splice?') {env env' : Env}
    (henv : env.Alike c env') : ∀ body : List Stmt, (∀ r ∈ referencesBody body, c.known r) →
      Tracks c Eq (lowerBody env splice? body) (lowerBody env' splice?' body)
  | [], _ => by
    rw [lowerBody, lowerBody]
    exact .pure rfl
  | s :: body, hknown => by
    simp only [referencesBody, List.forall_mem_append] at hknown
    rw [lowerBody, lowerBody]
    refine (lower_tracks hs henv s hknown.1).bind ?_
    rintro ⟨scopes, action⟩ ⟨scopes', _⟩ ⟨hscopes, rfl⟩
    exact (lowerBody_tracks hs (henv.withScopes hscopes) body hknown.2).bindEq fun _ => .pure rfl

end

end Stmt

/-! ## Calls -/

namespace FunctionDecl

/-- The generics of a function are declared alike. -/
theorem declareGenerics_tracks (hd : env.declarations.AgreeOn c.known env'.declarations)
    {s s' : Scopes} (hs : s.Alike s') (gs : List GenericParam)
    (hknown : ∀ r ∈ gs.flatMap fun g => TypeExpr.referencesOption g.bound, c.known r) :
    Tracks c Scopes.Alike (Lower.ofExcept (declareGenerics env s gs))
      (Lower.ofExcept (declareGenerics env' s' gs)) := by
  induction gs generalizing s s' with
  | nil => exact .pure hs
  | cons g gs ih =>
    rw [List.flatMap_cons, List.forall_mem_append] at hknown
    rw [declareGenerics, declareGenerics]
    cases hbound : g.bound with
    | none => exact ih (hs.declareType _ _) hknown.2
    | some bound =>
      rw [hbound] at hknown
      simp only [Env.resolveIn_agree hd (fun _ => hs.type?) hknown.1, pure_bind,
        Lower.ofExcept_bind]
      exact (Tracks.ofExcept _).bindEq fun ty => ih (hs.declareType _ _) hknown.2

/-- The arguments of a call bind the same generics. -/
theorem checkArguments_agree (henv : env.Alike c env') (function : String) (span : Span)
    (index : Nat) (bindings : Bindings) (args : List (Param × Ty))
    (hknown : ∀ p ∈ args, ∀ r ∈ p.1.ty.references, c.known r) :
    checkArguments env function span index bindings args =
      checkArguments env' function span index bindings args := by
  induction args generalizing index bindings with
  | nil => rfl
  | cons arg rest ih =>
    obtain ⟨hp, hrest⟩ := List.forall_mem_cons.mp hknown
    simp only [checkArguments, henv.resolve hp, ih _ _ hrest]

theorem bindGenerics_alike (bindings : Bindings) {s s' : Scopes} (hs : s.Alike s')
    (gs : List GenericParam) :
    (bindGenerics bindings s gs).Alike (bindGenerics bindings s' gs) := by
  induction gs generalizing s s' with
  | nil => exact hs
  | cons g gs ih =>
    simp only [bindGenerics, List.foldl_cons]
    cases bindings.get? g.name with
    | none => exact ih hs
    | some ty => exact ih (hs.declareType _ _)

theorem reserveReturn_tracks (henv : env.Alike c env') (decl : FunctionDecl) (span : Span)
    (hknown : ∀ r ∈ TypeExpr.referencesOption decl.ret, c.known r) :
    Tracks c Eq (reserveReturn env decl span) (reserveReturn env' decl span) := by
  rw [reserveReturn, reserveReturn, henv.resolve? hknown]
  refine (Tracks.ofExcept _).bindEq fun resolved => ?_
  cases resolved with
  | none => exact .pure rfl
  | some ty => exact .check ((Tracks.fresh _ _).bindEq fun _ => .pure rfl)

theorem declareReturn_alike {s s' : Scopes} (hs : s.Alike s') (function : String)
    (ret : Option ReturnSlot) :
    (declareReturn s function ret).Alike (declareReturn s' function ret) := by
  cases ret with
  | none => exact hs.setFunction _ _
  | some r => exact (hs.declare _ _).setFunction _ _

theorem bindParams_tracks {env env' : Env} (henv : env.Alike c env')
    (params : List (Param × Value)) (hknown : ∀ p ∈ params, ∀ r ∈ p.1.ty.references, c.known r) :
    Tracks c (fun a b => a.1.Alike b.1 ∧ a.2 = b.2) (bindParams env params)
      (bindParams env' params) := by
  induction params generalizing env env' with
  | nil => exact .pure ⟨henv.scopes, rfl⟩
  | cons param rest ih =>
    obtain ⟨p, v⟩ := param
    obtain ⟨hp, hrest⟩ := List.forall_mem_cons.mp hknown
    rw [bindParams, bindParams, henv.scopes.declaredHere, henv.resolve hp]
    refine .check ?_
    refine (Tracks.ofExcept _).bindEq fun ty => ?_
    refine (Lower.declareSlot_tracks henv.scopes p.name ty false p.span).bind ?_
    rintro ⟨slot, scopes⟩ ⟨_, scopes'⟩ ⟨rfl, hscopes⟩
    refine (ih (henv.withScopes hscopes) hrest).bind ?_
    rintro ⟨scopes₁, actions⟩ ⟨scopes₁', _⟩ ⟨hscopes₁, rfl⟩
    exact .pure ⟨hscopes₁, rfl⟩

/-- **Lowering the same call**, whatever the open scopes of the callers hold. -/
theorem inline_tracks (hs : Splice.TracksWithin c splice? splice?') :
    Splice.Tracks c (inline splice?) (inline splice?') := by
  intro env env' decl args span henv hknown
  rw [references, List.forall_mem_append, List.forall_mem_append, List.forall_mem_append] at hknown
  obtain ⟨hgenerics, hparams, hret, hbody⟩ := hknown
  have hparam : ∀ p ∈ decl.params, ∀ r ∈ p.ty.references, c.known r :=
    fun p hp r hr => hparams r (List.mem_flatMap.mpr ⟨p, hp, hr⟩)
  have halike : ∀ {s s' : Scopes}, s.Alike s' →
      ({ env with scopes := s } : Env).Alike c { env' with scopes := s' } :=
    fun hscopes => ⟨henv.declarations, henv.inlining, henv.limit, hscopes⟩
  rw [inline, inline]
  refine Tracks.log.bindEq fun _ => ?_
  refine (declareGenerics_tracks henv.declarations
    (.push_function henv.depth _ _) decl.generics hgenerics).bind fun {s s'} hscopes => ?_
  rw [checkArguments_agree (halike hscopes) _ _ _ _ _
    fun p hp => hparam p.1 (List.of_mem_zip hp).1]
  refine (Tracks.ofExcept _).bindEq fun bindings => ?_
  have hbound := bindGenerics_alike bindings hscopes decl.generics
  refine (reserveReturn_tracks (halike hbound) decl span hret).bindEq fun ret => ?_
  have hinner : ({ env with
      inlining := decl.name :: env.inlining
      scopes := declareReturn (bindGenerics bindings s decl.generics) decl.name ret } : Env).Alike c
      { env' with
        inlining := decl.name :: env'.inlining
        scopes := declareReturn (bindGenerics bindings s' decl.generics) decl.name ret } :=
    ⟨henv.declarations, by rw [henv.inlining], henv.limit, declareReturn_alike hbound _ _⟩
  refine (bindParams_tracks hinner (decl.params.zip args)
    fun p hp => hparam p.1 (List.of_mem_zip hp).1).bind ?_
  rintro ⟨scopes, params⟩ ⟨scopes', _⟩ ⟨hdeclared, rfl⟩
  exact (Stmt.lowerBody_tracks hs (hinner.withScopes hdeclared) decl.body hbody).bindEq
    fun _ => .pure rfl

end FunctionDecl

/-- Inlining down to a depth, where the second run may go deeper if that may stop the first. -/
theorem spliceWithin_tracks {n m : Nat} (h : n = m ∨ n ≤ m ∧ c.CutsDepth) :
    Splice.TracksWithin c (spliceWithin n) (spliceWithin m) := by
  induction n generalizing m with
  | zero =>
    rcases h with rfl | ⟨-, hcut⟩
    · exact .none
    · exact .cut _ hcut
  | succ n ih =>
    -- The second run has at least as many calls left, so it has one left as well.
    cases m with
    | zero => simp at h
    | succ m =>
      refine .some fun args span henv hknown => ?_
      exact FunctionDecl.inline_tracks (ih (by simpa using h)) args span henv hknown

/-! ## Programs -/

variable {d d' : Declarations} {n m : Nat}

/-- Lowering the same event. -/
theorem EventDecl.lower_tracks (hd : d.AgreeOn c.known d') (h : n = m ∨ n ≤ m ∧ c.CutsDepth)
    (event : EventDecl) (hknown : ∀ r ∈ Stmt.referencesBody event.body, c.known r) :
    Tracks c Eq (event.lower d n) (event.lower d' m) := by
  rw [lower, lower]
  cases EventDef.find? event.name with
  | none => exact .fail
  | some trigger =>
    refine .check ?_
    refine (Tracks.ofExcept _).bindEq fun scopes => ?_
    have henv : ({ declarations := d, maxInlineDepth := n, scopes } : Env).Alike c
        { declarations := d', maxInlineDepth := m, scopes } :=
      ⟨hd, rfl, h.imp id And.right, .refl scopes⟩
    refine (Stmt.lowerBody_tracks (spliceWithin_tracks h) henv event.body hknown).bindEq
      fun body => ?_
    exact Tracks.log.bindEq fun _ => .pure rfl

namespace Program

/-- Lowering the same events one after the other. -/
theorem lowerEvents_tracks (hd : d.AgreeOn c.known d') (h : n = m ∨ n ≤ m ∧ c.CutsDepth)
    (es : List EventDecl) (hknown : ∀ e ∈ es, ∀ r ∈ Stmt.referencesBody e.body, c.known r) :
    Tracks c Eq (lowerEvents d n es) (lowerEvents d' m es) := by
  induction es with
  | nil => exact .pure rfl
  | cons e es ih =>
    obtain ⟨he, hes⟩ := List.forall_mem_cons.mp hknown
    rw [lowerEvents, lowerEvents]
    refine (EventDecl.lower_tracks hd h e he).bindEq fun rule => ?_
    exact (ih hes).bindEq fun _ => .pure rfl

/-- **Lowering programs with the same events.** -/
theorem lower_tracks {p q : Program} {options options' : Options}
    (hslots : c.related (.empty options.maxSlots) (.empty options'.maxSlots))
    (hdepth : options.maxInlineDepth = options'.maxInlineDepth ∨
      options.maxInlineDepth ≤ options'.maxInlineDepth ∧ c.CutsDepth)
    (hcollect : Tracks c (Declarations.AgreeOn c.known) (Lower.ofExcept (Declarations.collect p))
      (Lower.ofExcept (Declarations.collect q)))
    (hevents : p.events = q.events)
    (hknown : ∀ e ∈ p.events, ∀ r ∈ Stmt.referencesBody e.body, c.known r) :
    Lower.Ends c Eq (p.lower options) (q.lower options') := by
  suffices hall : Tracks c Eq (p.lowerAll options.maxInlineDepth)
      (q.lowerAll options'.maxInlineDepth) from hall hslots
  rw [lowerAll, lowerAll, ← hevents]
  refine hcollect.bind fun {d d'} hd => ?_
  refine Tracks.log.bindEq fun _ => ?_
  refine (lowerEvents_tracks hd hdepth p.events hknown).bindEq fun rules => ?_
  have hget : Tracks c (fun s t => c.related s.slots t.slots) (get : Lower LowerState) get :=
    fun _ _ hr => .ok hr hr
  exact hget.bind fun _ => Tracks.log.bindEq fun _ => .pure rfl

end Program

end RuleScript
