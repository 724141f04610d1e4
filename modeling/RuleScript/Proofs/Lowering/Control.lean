import RuleScript.Proofs.Lowering.Isolation

/-!
# Ways out of loops stay inside their loops

A rule leaves the nearest loop by `stop` and starts its next round by `next`. Lowering puts code
into other code: the code of calls before the statement that makes them, the bodies of functions
into their callers, and the code of a condition into its loop. None of it brings a `stop` or a
`next` that would act on a loop it was not written in. A counting loop moves its marker on at the
end of its body, and so before every `next` as well.

## Main definitions

* `Action.Within`: a body that belongs to the same loop as the body around it
* `Action.Closed`: a body without a way out of the loop around it
* `Action.Precedes`: an action comes right before every `next` for the loop of a body
* `Action.Controlled`: what the place of a body says about the ways out of loops in it

## Main results

* `Stmt.lowerBody_controlled`: the ways out of loops in a lowered body act on the loop of its place
* `FunctionDecl.inline_closed`: the body of a call has no way out of the loops of its caller
* `Program.lower_loops_controlled`: rules and calls are closed, and counting loops move on
-/

namespace RuleScript

namespace Action

/-- The second body is the first, or is inside it without a loop in between. -/
inductive Within : List Action → List Action → Prop
  | refl {body : List Action} : Within body body
  | block {body inner inside : List Action} (hmem : block inside ∈ body)
    (h : Within inside inner) : Within body inner
  | branch {body inner inside : List Action} {condition : Value}
    (hmem : branch condition inside ∈ body) (h : Within inside inner) : Within body inner

/-- No `stop` and no `next` in the body is outside all loops of the body. -/
def Closed (body : List Action) : Prop :=
  ∀ inner, Within body inner → stop ∉ inner ∧ next ∉ inner

/-- The action comes right before every `next` that is outside all loops of the body. -/
def Precedes (step : Action) (body : List Action) : Prop :=
  ∀ inner, Within body inner → ∀ before after, inner = before ++ next :: after → [step] <:+ before

/-- What holds of a body with this loop around it: without a loop it is closed, and with a counting
loop the step of the loop comes before every `next`. -/
def Controlled : Option (Option Action) → List Action → Prop
  | none, body => Closed body
  | some none, _ => True
  | some (some step), body => Precedes step body

variable {around : Option (Option Action)} {step : Action}

/-! ## Putting bodies together -/

theorem Within.append {as bs inner : List Action} (h : Within (as ++ bs) inner) :
    inner = as ++ bs ∨ Within as inner ∨ Within bs inner := by
  cases h with
  | refl => exact .inl rfl
  | block hmem h =>
    rcases List.mem_append.mp hmem with hmem | hmem
    · exact .inr (.inl (.block hmem h))
    · exact .inr (.inr (.block hmem h))
  | branch hmem h =>
    rcases List.mem_append.mp hmem with hmem | hmem
    · exact .inr (.inl (.branch hmem h))
    · exact .inr (.inr (.branch hmem h))

theorem Closed.append {as bs : List Action} (ha : Closed as) (hb : Closed bs) :
    Closed (as ++ bs) := by
  intro inner h
  rcases h.append with rfl | h | h
  · have has := ha as .refl
    have hbs := hb bs .refl
    simp [has, hbs]
  · exact ha inner h
  · exact hb inner h

theorem Precedes.append {as bs : List Action} (ha : Precedes step as) (hb : Precedes step bs) :
    Precedes step (as ++ bs) := by
  intro inner h before after heq
  rcases h.append with rfl | h | h
  · rcases List.append_eq_append_iff.mp heq with ⟨more, rfl, hbs⟩ | ⟨more, has, hnext⟩
    · exact (hb bs .refl more after hbs).trans (List.suffix_append as more)
    · cases more with
      | nil =>
        rw [List.append_nil] at has
        subst has
        have hfirst := hb bs .refl [] after hnext.symm
        simp at hfirst
      | cons a more =>
        cases hnext
        exact ha as .refl before more has
  · exact ha inner h before after heq
  · exact hb inner h before after heq

theorem Controlled.append {as bs : List Action} (ha : Controlled around as)
    (hb : Controlled around bs) : Controlled around (as ++ bs) := by
  match around with
  | none => exact Closed.append ha hb
  | some none => trivial
  | some (some step) => exact Precedes.append ha hb

theorem Controlled.cons {a : Action} {as : List Action} (ha : Controlled around [a])
    (has : Controlled around as) : Controlled around (a :: as) :=
  ha.append has

/-- What is closed suits every place. -/
theorem Closed.controlled {body : List Action} (h : Closed body) : Controlled around body := by
  match around with
  | none => exact h
  | some none => trivial
  | some (some step) =>
    rintro inner hinner before after rfl
    exact absurd (by simp) (h _ hinner).2

theorem closed_nil : Closed [] := by
  intro inner h
  cases h with
  | refl => simp
  | block hmem => cases hmem
  | branch hmem => cases hmem

/-- The actions inside an action that belong to the same loop. -/
def ofLoop : Action → List Action
  | block body | branch _ body => body
  | loop _ _ | declare _ _ _ | assign _ _ | assignField _ _ _ | call _ _ | stop | next | noop => []

theorem Within.single {a : Action} {inner : List Action} (h : Within [a] inner) :
    inner = [a] ∨ Within a.ofLoop inner := by
  cases h with
  | refl => exact .inl rfl
  | block hmem h =>
    cases List.mem_singleton.mp hmem
    exact .inr h
  | branch hmem h =>
    cases List.mem_singleton.mp hmem
    exact .inr h

theorem Closed.single {a : Action} (h : Closed a.ofLoop) (hstop : a ≠ stop) (hnext : a ≠ next) :
    Closed [a] := by
  intro inner hinner
  rcases hinner.single with rfl | hinner
  · simp [hstop.symm, hnext.symm]
  · exact h inner hinner

theorem Precedes.single {a : Action} (h : Precedes step a.ofLoop) (hnext : a ≠ next) :
    Precedes step [a] := by
  intro inner hinner before after heq
  rcases hinner.single with rfl | hinner
  · have hmem : next ∈ [a] := by
      rw [heq]
      simp
    exact absurd (List.mem_singleton.mp hmem).symm hnext
  · exact h inner hinner before after heq

/-- An action that is no way out of a loop is as its body is. -/
theorem Controlled.single {a : Action} (h : Controlled around a.ofLoop) (hstop : a ≠ stop)
    (hnext : a ≠ next) : Controlled around [a] := by
  match around with
  | none => exact Closed.single h hstop hnext
  | some none => trivial
  | some (some step) => exact Precedes.single h hnext

theorem Closed.block {body : List Action} (h : Closed body) : Closed [.block body] :=
  single h nofun nofun

theorem Controlled.block {body : List Action} (h : Controlled around body) :
    Controlled around [.block body] := single h nofun nofun

theorem Controlled.branch {condition : Value} {body : List Action} (h : Controlled around body) :
    Controlled around [.branch condition body] := single h nofun nofun

/-- A `stop` may have anything before it, but needs a loop around it. -/
theorem controlled_stop (step? : Option Action) : Controlled (some step?) [stop] := by
  cases step? with
  | none => trivial
  | some step =>
    have hnil : Controlled (some (some step)) [] := closed_nil.controlled
    exact Precedes.single hnil nofun

/-- The action is no way out of a loop and has no actions of the same loop inside it. -/
def isPlain : Action → Bool
  | loop _ _ | declare _ _ _ | assign _ _ | assignField _ _ _ | call _ _ | noop => true
  | block _ | branch _ _ | stop | next => false

theorem Closed.plain {a : Action} (ha : a.isPlain = true) : Closed [a] := by
  cases a with
  | block | branch | stop | next => cases ha
  | _ => exact .single closed_nil nofun nofun

theorem Controlled.plain {a : Action} (ha : a.isPlain = true) : Controlled around [a] :=
  (Closed.plain ha).controlled

theorem Controlled.behind {before : List Action} {a : Action} (hbefore : Closed before)
    (ha : Controlled around [a]) : Controlled around [behind before a] := by
  unfold Action.behind
  split
  · exact ha
  · exact (hbefore.controlled.append ha).block

/-- Nothing inside a loop acts on the loop around it. -/
theorem closed_loopWith (check : List Action) (condition : Value) (body : List Action) :
    Closed [loopWith check condition body] := by
  unfold loopWith
  split
  · exact .plain rfl
  · exact .plain rfl

end Action

open RuleScript.Action (Closed Precedes Controlled closed_nil closed_loopWith)

/-! ## Expressions -/

/-- The body of every call is closed. -/
structure Splice.Closed (splice? : Option Splice) : Prop where
  body : ∀ {splice env decl args span st out st'}, splice? = some splice →
    splice env decl args span st = .ok out st' → Action.Closed out.body

section

variable {env : Env} {splice? : Option Splice}

namespace Expr

mutual

/-- The code of the calls in an expression is closed. -/
theorem lower_closed {e : Expr} {out : Lowered} {st st' : LowerState} (hs : Splice.Closed splice?)
    (h : e.lower env splice? st = .ok out st') : Closed out.before := by
  match e with
  | .number span x =>
    obtain ⟨rfl, rfl⟩ := Lower.pure_ok.mp h
    exact closed_nil
  | .boolean span b =>
    obtain ⟨rfl, rfl⟩ := Lower.pure_ok.mp h
    exact closed_nil
  | .string span s =>
    obtain ⟨rfl, rfl⟩ := lower_string_ok h
    exact closed_nil
  | .ident span name =>
    obtain ⟨v, -, rfl, rfl⟩ := lower_ident_ok h
    exact closed_nil
  | .array span item items =>
    obtain ⟨explicit, vs, v, -, hvs, -, rfl⟩ := lower_array_ok h
    have hitems := lowerList_closed hs hvs
    exact hitems
  | .binary span op left right =>
    obtain ⟨lhs, t, rhs, v, hlhs, hrhs, -, rfl⟩ := lower_binary_ok h
    exact (lower_closed hs hlhs).append (lower_closed hs hrhs)
  | .not span operand =>
    obtain ⟨o, ho, -, rfl⟩ := lower_not_ok h
    have hoperand := lower_closed hs ho
    exact hoperand
  | .typeOf span operand =>
    obtain ⟨o, -, rfl⟩ := lower_typeOf_ok h
    exact closed_nil
  | .index span object place =>
    obtain ⟨a, t, i, item, ha, hi, -, -, rfl⟩ := lower_index_ok h
    exact (lower_closed hs ha).append (lower_closed hs hi)
  | .call span name args =>
    rcases lower_call_ok h with
      ⟨decl, splice, vs, t, body, r, -, hmay, hvs, hspliced, rfl⟩ | ⟨f, vs, ty, -, -, hvs, -, rfl⟩
    · exact (lowerList_closed hs hvs).append (hs.body hmay.splice hspliced).block
    · have hargs := lowerArgs_closed hs hvs
      exact hargs

theorem lowerList_closed {es : List Expr} {vs : LoweredList} {st st' : LowerState}
    (hs : Splice.Closed splice?) (h : lowerList env splice? es st = .ok vs st') :
    Closed vs.before := by
  match es with
  | [] =>
    obtain ⟨rfl, rfl⟩ := lowerList_nil_ok h
    exact closed_nil
  | e :: es =>
    obtain ⟨v, t, rest, hv, hrest, rfl⟩ := lowerList_cons_ok h
    exact (lower_closed hs hv).append (lowerList_closed hs hrest)

theorem lowerArgs_closed {f : FunctionDef} {given index : Nat} {span : Span}
    {params : List ParamDef} {bindings : Bindings} {es : List Expr} {vs : LoweredList}
    {st st' : LowerState} (hs : Splice.Closed splice?)
    (h : lowerArgs env splice? f given span index params bindings es st = .ok vs st') :
    Closed vs.before := by
  match es with
  | [] =>
    obtain ⟨values, -, rfl, rfl⟩ := lowerArgs_nil_ok h
    exact closed_nil
  | e :: es =>
    obtain ⟨p, ps, rfl, ⟨-, s, text, rest, -, hrest, rfl⟩ |
      ⟨-, v, t, bindings', rest, hv, -, hrest, rfl⟩⟩ := lowerArgs_cons_ok h
    · have hothers := lowerArgs_closed hs hrest
      exact hothers
    · exact (lower_closed hs hv).append (lowerArgs_closed hs hrest)

end

end Expr

/-! ## Statements -/

/-- The step of the nearest loop, if it has one, moves a marker on. -/
def Scopes.Counts (s : Scopes) : Prop :=
  ∀ step, s.enclosingLoop? = some (some step) → ∃ slot, step = Stmt.countStep slot

theorem Scopes.counts_of_none {s : Scopes} (h : s.enclosingLoop? = none) : s.Counts := by
  intro step hstep
  rw [h] at hstep
  cases hstep

namespace Stmt

/-- The step of a counting loop and then `next`. -/
theorem precedes_countStep (slot : Slot) :
    Precedes (countStep slot) [countStep slot, .next] := by
  intro inner hinner before after heq
  cases hinner with
  | refl =>
    cases before with
    | nil => cases heq
    | cons b before =>
      obtain ⟨rfl, htail⟩ := List.cons.inj heq
      cases before with
      | nil => exact List.suffix_refl _
      | cons c before =>
        obtain ⟨-, hnil⟩ := List.cons.inj htail
        simp at hnil
  | block hmem => simp [countStep] at hmem
  | branch hmem => simp [countStep] at hmem

mutual

/-- The ways out of loops in a lowered statement act on the loop of its place, which stays the same
for the statements after it. -/
theorem lower_controlled {stmt : Stmt} {scopes : Scopes} {action : Action} {env : Env}
    {st st' : LowerState} (hs : Splice.Closed splice?) (henv : env.scopes.Counts)
    (h : stmt.lower env splice? st = .ok (scopes, action) st') :
    Controlled env.scopes.enclosingLoop? [action] ∧
      scopes.enclosingLoop? = env.scopes.enclosingLoop? := by
  match stmt with
  | .block span body =>
    obtain ⟨actions, hbody, rfl, rfl⟩ := lower_block_ok h
    have hactions := lowerBody_controlled hs (by exact henv) hbody
    exact ⟨hactions.block, rfl⟩
  | .declare span name ty value constant =>
    obtain ⟨-, annotated, lowered, t, ty', slot, -, hlowered, -, -, rfl, rfl⟩ := lower_declare_ok h
    refine ⟨?_, Scopes.enclosingLoop?_declare⟩
    rcases lowerOption_ok hlowered with ⟨-, rfl, -⟩ | ⟨e, v, -, hv, rfl⟩
    · exact .plain rfl
    · exact .behind (Expr.lower_closed hs hv) (.plain rfl)
  | .assign span name value =>
    obtain ⟨ty, slot, v, -, hv, -, rfl, rfl⟩ := lower_assign_ok h
    exact ⟨.behind (Expr.lower_closed hs hv) (.plain rfl), rfl⟩
  | .assignField span object field value =>
    obtain ⟨o, t, v, ho, hv, rfl, rfl⟩ := lower_assignField_ok h
    have hbefore := (Expr.lower_closed hs ho).append (Expr.lower_closed hs hv)
    exact ⟨.behind hbefore (.plain rfl), rfl⟩
  | .branch span condition body none =>
    obtain ⟨v, t, actions, hv, -, hbody, rfl, rfl⟩ := lower_branch_ok h
    have hactions := lowerBody_controlled hs (by exact henv) hbody
    exact ⟨.behind (Expr.lower_closed hs hv) hactions.branch, rfl⟩
  | .branch span condition body (some otherwise) =>
    obtain ⟨v, t, save, saved, t₁, actions, t₂, actions', hv, -, hsave, hbody, hother, rfl, rfl⟩ :=
      lower_branchElse_ok h
    have hactions := lowerBody_controlled hs (by exact henv) hbody
    have hactions' := lowerBody_controlled hs (by exact henv) hother
    have hsaves : Closed save := by
      rcases saveCondition_ok hsave with ⟨-, rfl, -⟩ | ⟨slot, -, rfl, -⟩
      · exact closed_nil
      · exact .plain rfl
    exact ⟨.behind (Expr.lower_closed hs hv)
      (hsaves.controlled.append (hactions.branch.cons hactions'.branch)).block, rfl⟩
  | .loop span condition body =>
    obtain ⟨v, t, actions, -, -, -, rfl, rfl⟩ := lower_loop_ok h
    -- A loop keeps to itself whatever way out its body takes.
    exact ⟨(closed_loopWith _ _ _).controlled, rfl⟩
  | .count span marker first limit body =>
    obtain ⟨a, t₁, b, t₂, slot, t₃, actions, ha, -, -, -, -, -, rfl, rfl⟩ := lower_count_ok h
    have hdeclare : Closed [.declare slot .number a.value] := .plain rfl
    exact ⟨.behind (Expr.lower_closed hs ha)
      (hdeclare.append (closed_loopWith _ _ _)).block.controlled, rfl⟩
  | .ret span value =>
    obtain ⟨rfl, ⟨-, rfl, rfl⟩ | ⟨function, r, e, v, -, -, hv, -, rfl⟩⟩ := lower_ret_ok h
    · exact ⟨.plain rfl, rfl⟩
    · exact ⟨.behind (Expr.lower_closed hs hv) (.plain rfl), rfl⟩
  | .stop span =>
    obtain ⟨step, hloop, rfl, rfl, rfl⟩ := lower_stop_ok h
    rw [hloop]
    exact ⟨Action.controlled_stop step, rfl⟩
  | .next span =>
    obtain ⟨rfl, rfl, ⟨hloop, rfl⟩ | ⟨step, hloop, rfl⟩⟩ := lower_next_ok h
    · rw [hloop]
      exact ⟨trivial, rfl⟩
    · obtain ⟨slot, rfl⟩ := henv step hloop
      rw [hloop]
      exact ⟨Controlled.block (precedes_countStep slot), rfl⟩
  | .call span name args =>
    obtain ⟨rfl, ⟨decl, splice, vs, t, spliced, -, hmay, hvs, hspliced, rfl⟩ |
      ⟨f, vs, -, -, hvs, rfl⟩⟩ := lower_call_ok h
    -- The body of a call starts outside of all loops, so it is closed.
    · have hbody := (hs.body hmay.splice hspliced).block
      exact ⟨.behind ((Expr.lowerList_closed hs hvs).append hbody) (.plain rfl), rfl⟩
    · exact ⟨.behind (Expr.lowerArgs_closed hs hvs) (.plain rfl), rfl⟩

/-- **The ways out of loops in a lowered body act on the loop of its place.** -/
theorem lowerBody_controlled {body : List Stmt} {actions : List Action} {env : Env}
    {st st' : LowerState} (hs : Splice.Closed splice?) (henv : env.scopes.Counts)
    (h : lowerBody env splice? body st = .ok actions st') :
    Controlled env.scopes.enclosingLoop? actions := by
  match body with
  | [] =>
    obtain ⟨rfl, rfl⟩ := lowerBody_nil_ok h
    exact closed_nil.controlled
  | stmt :: body =>
    obtain ⟨scopes, action, t, rest, hstmt, hrest, rfl⟩ := lowerBody_cons_ok h
    obtain ⟨haction, hloop⟩ := lower_controlled hs henv hstmt
    have hcounts : scopes.Counts := by
      rw [Scopes.Counts, hloop]
      exact henv
    have hothers := lowerBody_controlled hs (by exact hcounts) hrest
    simp only [hloop] at hothers
    exact haction.cons hothers

end

end Stmt

end

/-! ## Calls -/

namespace FunctionDecl

/-- Binding the parameters of a call stores to them and leaves the loop of the place as it is. -/
theorem bindParams_closed {env : Env} {params : List (Param × Value)} {scopes : Scopes}
    {actions : List Action} {st st' : LowerState}
    (h : bindParams env params st = .ok (scopes, actions) st') :
    Closed actions ∧ scopes.enclosingLoop? = env.scopes.enclosingLoop? := by
  induction params generalizing env st actions with
  | nil =>
    obtain ⟨rfl, rfl, -⟩ := bindParams_nil_ok h
    exact ⟨closed_nil, rfl⟩
  | cons arg params ih =>
    obtain ⟨p, v⟩ := arg
    obtain ⟨-, ty, slot, t, actions', -, -, hrest, rfl⟩ := bindParams_cons_ok h
    obtain ⟨hactions, hloop⟩ := ih hrest
    have hdeclare : Closed [.declare slot ty v] := .plain rfl
    exact ⟨hdeclare.append hactions, hloop.trans Scopes.enclosingLoop?_declare⟩

/-- **The body of a call has no way out of the loops of its caller.** -/
theorem inline_closed {splice? : Option Splice} {env : Env} {decl : FunctionDecl}
    {args : List Value} {span : Span} {out : Spliced} {st st' : LowerState}
    (hs : Splice.Closed splice?) (h : inline splice? env decl args span st = .ok out st') :
    Closed out.body := by
  obtain ⟨generics, types, ret, scopes, params, body, t₁, t₂, -, -, hparams, hbody, rfl⟩ :=
    inline_entered_ok h
  obtain ⟨hactions, hloop⟩ := bindParams_closed hparams
  have hnone : scopes.enclosingLoop? = none := hloop
  have hcounts := Scopes.counts_of_none hnone
  have hlowered := Stmt.lowerBody_controlled hs (by exact hcounts) hbody
  simp only [hnone] at hlowered
  exact hactions.append hlowered

end FunctionDecl

/-- The body of every call is closed, however deeply it is inlined. -/
theorem spliceWithin_closed (depth : Nat) : Splice.Closed (spliceWithin depth) := by
  induction depth with
  | zero => exact ⟨fun hsplice => by cases hsplice⟩
  | succ depth ih =>
    refine ⟨fun hsplice h => ?_⟩
    cases hsplice
    exact FunctionDecl.inline_closed ih h

/-! ## Counting loops -/

namespace Stmt

/-- A loop over this body moves its marker on at the end of the body and before every `next`. -/
structure Advances (slot : Slot) (body : List Action) : Prop where
  last : [countStep slot] <:+ body
  precedes : Precedes (countStep slot) body

/-- The step of the marker is the assignment `slot := slot + 1`. -/
theorem advances_iff {slot : Slot} {body : List Action} : Advances slot body ↔
    [.assign slot (.binary .number .add (.read .number slot) (.number .number 1.0))] <:+ body ∧
      Precedes (.assign slot (.binary .number .add (.read .number slot) (.number .number 1.0)))
        body :=
  ⟨fun h => ⟨h.last, h.precedes⟩, fun h => ⟨h.1, h.2⟩⟩

/-- **A counting loop moves its marker on** at the end of its body and before every `next`. -/
theorem lower_count_advances {splice? : Option Splice} {env : Env} {span : Span} {marker : String}
    {first limit : Expr} {body : List Stmt} {scopes : Scopes} {action : Action}
    {st st' : LowerState} (hs : Splice.Closed splice?)
    (h : (Stmt.count span marker first limit body).lower env splice? st =
      .ok (scopes, action) st') : ∃ before slot value condition inside,
      action = .behind before
        (.block [.declare slot .number value, .loop condition inside]) ∧
      Advances slot inside := by
  obtain ⟨a, t₁, b, t₂, slot, t₃, actions, -, hb, -, -, -, hbody, -, rfl⟩ := lower_count_ok h
  have hcounts : (countScopes env.scopes marker slot).Counts := by
    intro step hstep
    cases hstep
    exact ⟨slot, rfl⟩
  have hactions : Precedes (countStep slot) actions :=
    lowerBody_controlled hs (by exact hcounts) hbody
  have hstep : Controlled (some (some (countStep slot))) [countStep slot] := .plain rfl
  have hround := Precedes.append hactions hstep
  unfold Action.loopWith
  split
  · exact ⟨_, slot, _, _, _, rfl, List.suffix_append _ _, hround⟩
  · have hcheck : Controlled (some (some (countStep slot))) b.before :=
      (Expr.lower_closed hs hb).controlled
    have hstop := Action.controlled_stop (some (countStep slot))
    refine ⟨_, slot, _, _, _, rfl, ?_, Precedes.append hcheck (hstop.branch.cons hround)⟩
    exact (List.suffix_append _ _).trans
      ((List.suffix_cons _ _).trans (List.suffix_append b.before _))

end Stmt

/-! ## Programs -/

namespace Program

variable {options : Options} {program : Program} {rules : List Rule} {st : LowerState}

/-- What a trigger provides opens no loop. -/
theorem enclosingLoop?_declareArgs {span : Span} {args : List (String × EventArg)}
    {s scopes : Scopes} (h : EventDecl.declareArgs span s args = .ok scopes) :
    scopes.enclosingLoop? = s.enclosingLoop? := by
  induction args generalizing s with
  | nil =>
    cases h
    rfl
  | cons arg rest ih =>
    obtain ⟨-, hrest⟩ := EventDecl.declareArgs_cons_ok h
    exact (ih hrest).trans Scopes.enclosingLoop?_declare

theorem lower_closed (h : program.lower options = .ok rules st) : ∀ r ∈ rules, Closed r.body := by
  intro rule hrule
  obtain ⟨event, trigger, env, t, t', hlowered⟩ := exists_loweredAt h hrule
  have hnone : env.scopes.enclosingLoop? = none := enclosingLoop?_declareArgs hlowered.scopes
  have hbody := Stmt.lowerBody_controlled (spliceWithin_closed _) (Scopes.counts_of_none hnone)
    hlowered.body
  rw [hnone] at hbody
  exact hbody

/-- **Ways out of loops stay inside their loops.** In a program that is lowered without an error, no
`stop` and no `next` of a rule is outside all loops of the rule; what is inlined for a call has none
outside its own loops; and a counting loop becomes a loop whose body ends with the step that moves
the marker on, where the same step comes right before every `next` for that loop. -/
theorem lower_loops_controlled (h : program.lower options = .ok rules st) :
    (∀ r ∈ rules, Closed r.body) ∧
    (∀ env n t decl args span, Reached options program ⟨.call decl args span, env, n, t⟩ →
      ∃ out t', FunctionDecl.inline (spliceWithin n) env decl args span t = .ok out t' ∧
        Closed out.body) ∧
    ∀ env n t span marker first limit body,
      Reached options program ⟨.stmt (.count span marker first limit body), env, n, t⟩ →
      ∃ before slot value condition inside t',
        (Stmt.count span marker first limit body).lower env (spliceWithin n) t =
          .ok (env.scopes, .behind before
            (.block [.declare slot .number value, .loop condition inside])) t' ∧
        Stmt.Advances slot inside := by
  refine ⟨lower_closed h, fun env n t decl args span hp => ?_,
    fun env n t span marker first limit body hp => ?_⟩
  · obtain ⟨⟨out, t', hout⟩, -⟩ := hp.succeeds h
    exact ⟨out, t', hout, FunctionDecl.inline_closed (spliceWithin_closed n) hout⟩
  · obtain ⟨⟨scopes, action⟩, t', hlower⟩ := hp.succeeds h
    obtain ⟨before, slot, value, condition, inside, rfl, hadvances⟩ :=
      Stmt.lower_count_advances (spliceWithin_closed n) hlower
    obtain ⟨-, -, -, -, -, -, -, -, -, -, -, -, -, rfl, -⟩ := Stmt.lower_count_ok hlower
    exact ⟨before, slot, value, condition, inside, t', hlower, hadvances⟩

/-- The statement of `skippingCalls` that counts. -/
def skippingCount : Stmt :=
  let z := Span.zero
  .count z "i" (.number z 0.0) (.call z "limit" [])
    [.branch z (.binary z .eq (.ident z "i") (.number z 2.0)) [.next z] none,
      .call z "wait" [.ident z "i"]]

/-- A program whose event calls a function in a loop, where the function counts up to the value of
another call and skips a round. -/
def skippingCalls : Program :=
  let z := Span.zero
  ⟨[.function ⟨"limit", [], [], some (.named z "number"), [.ret z (some (.number z 4.0))], z⟩,
    .function ⟨"skip", [], [], none, [skippingCount], z⟩,
    .event ⟨"server", [], [.loop z (.boolean z true) [.call z "skip" [], .stop z]], z⟩]⟩

/-- Lowering comes to the call of the function in the loop, and to the counting loop inside it. -/
theorem reached_skippingCalls : ∃ env n t decl t',
    Reached {} skippingCalls ⟨.call decl [] .zero, env, n, t⟩ ∧
    ∃ env', Reached {} skippingCalls ⟨.stmt skippingCount, env', n, t'⟩ := by
  have hevents : skippingCalls.events = [] ++ _ :: [] := rfl
  have hevent : Reached {} skippingCalls _ := .event rfl hevents rfl rfl rfl
  have hloop := ((hevent.step .bodyHead).step (.loop rfl)).step .bodyHead
  have hcall := hloop.step (.callee rfl rfl rfl)
  have hcount := (hcall.step (.callBody rfl rfl rfl rfl)).step .bodyHead
  exact ⟨_, _, _, _, _, hcall, _, hcount⟩

theorem lower_loops_controlled_skippingCalls : ∃ rules st, skippingCalls.lower {} = .ok rules st ∧
    (∀ r ∈ rules, Closed r.body) ∧
    (∃ env n t decl out t',
      FunctionDecl.inline (spliceWithin n) env decl [] .zero t = .ok out t' ∧ Closed out.body) ∧
    ∃ env n t before slot value condition inside t',
      skippingCount.lower env (spliceWithin n) t = .ok (env.scopes, .behind before
        (.block [.declare slot .number value, .loop condition inside])) t' ∧
      Stmt.Advances slot inside := by
  obtain ⟨rules, st, hlower⟩ : ∃ rules st, skippingCalls.lower {} = .ok rules st :=
    exists_of_lowers (by decide +kernel)
  obtain ⟨hrules, hcalls, hcounts⟩ := lower_loops_controlled hlower
  obtain ⟨env, n, t, decl, u, hcall, env', hcount⟩ := reached_skippingCalls
  exact ⟨rules, st, hlower, hrules, ⟨env, n, t, decl, hcalls env n t decl [] .zero hcall⟩,
    env', n, u, hcounts env' n u _ _ _ _ _ hcount⟩

end Program

end RuleScript
