import RuleScript.Proofs.Lowering.Memory

/-!
# What lowering stores to

Each form of expression and statement, and each call, is shown to store only to what its place may
store to.

## Main results

* `Expr.lower_grown`: code for the calls in an expression is deeper than the expression
* `Stmt.lower_kept`: code for a statement stores only to what its place may store to
* `spliceWithin_grows`: code for a call is deeper than the call
-/

namespace RuleScript

section

variable {env : Env} {splice? : Option Splice} {depth : Nat} {s t u : Slots} {scopes : Scopes}

/-! ## Expressions -/

namespace Expr

mutual

/-- **Code for the calls in an expression is deeper than the expression.** -/
theorem lower_grown {e : Expr} {st st' : LowerState} {out : Lowered} (hs : Splice.Grows splice?)
    (henv : env.Ready st.slots 0) (h : e.lower env splice? st = .ok out st') :
    Grown env.scopes.depth st.slots st'.slots out.before := by
  match e with
  | .number span x =>
    obtain ⟨rfl, rfl⟩ := Lower.pure_ok.mp h
    exact .nil henv.valid
  | .boolean span b =>
    obtain ⟨rfl, rfl⟩ := Lower.pure_ok.mp h
    exact .nil henv.valid
  | .string span s =>
    obtain ⟨rfl, rfl⟩ := lower_string_ok h
    exact .nil henv.valid
  | .ident span name =>
    obtain ⟨v, -, rfl, rfl⟩ := lower_ident_ok h
    exact .nil henv.valid
  | .array span item items =>
    obtain ⟨explicit, vs, v, -, hvs, -, rfl⟩ := lower_array_ok h
    have hg := lowerList_grown hs henv hvs
    exact hg
  | .binary span op left right =>
    obtain ⟨lhs, t, rhs, v, hlhs, hrhs, -, rfl⟩ := lower_binary_ok h
    have hl := lower_grown hs henv hlhs
    exact hl.append (lower_grown hs (henv.grown hl) hrhs)
  | .not span operand =>
    obtain ⟨o, ho, -, rfl⟩ := lower_not_ok h
    have hg := lower_grown hs henv ho
    exact hg
  | .typeOf span operand =>
    obtain ⟨o, ho, rfl⟩ := lower_typeOf_ok h
    have hg := lower_grown hs henv ho
    -- The code of the operand is dropped, but the slots it was given stay given.
    exact ⟨hg.valid, hg.extend, fun slot hslot => by cases hslot⟩
  | .index span object place =>
    obtain ⟨a, t, i, item, ha, hi, -, -, rfl⟩ := lower_index_ok h
    have hg := lower_grown hs henv ha
    exact hg.append (lower_grown hs (henv.grown hg) hi)
  | .call span name args =>
    rcases lower_call_ok h with
      ⟨decl, splice, vs, t, body, r, hdecl, hcall, hvs, hspliced, rfl⟩ |
      ⟨f, vs, ty, -, -, hvs, -, rfl⟩
    · have hg := lowerList_grown hs henv hvs
      refine hg.append (Grown.block ?_)
      exact hs.grown hcall.splice (henv.grown hg) hdecl hcall.not_inlining hspliced
    · have hg := lowerArgs_grown hs henv hvs
      exact hg

theorem lowerList_grown {es : List Expr} {st st' : LowerState} {vs : LoweredList}
    (hs : Splice.Grows splice?) (henv : env.Ready st.slots 0)
    (h : lowerList env splice? es st = .ok vs st') :
    Grown env.scopes.depth st.slots st'.slots vs.before := by
  match es with
  | [] =>
    obtain ⟨rfl, rfl⟩ := lowerList_nil_ok h
    exact .nil henv.valid
  | e :: es =>
    obtain ⟨v, t, rest, hv, hrest, rfl⟩ := lowerList_cons_ok h
    have hg := lower_grown hs henv hv
    exact hg.append (lowerList_grown hs (henv.grown hg) hrest)

theorem lowerArgs_grown {f : FunctionDef} {given index : Nat} {span : Span}
    {params : List ParamDef} {bindings : Bindings} {es : List Expr} {st st' : LowerState}
    {vs : LoweredList} (hs : Splice.Grows splice?) (henv : env.Ready st.slots 0)
    (h : lowerArgs env splice? f given span index params bindings es st = .ok vs st') :
    Grown env.scopes.depth st.slots st'.slots vs.before := by
  match es with
  | [] =>
    obtain ⟨values, -, rfl, rfl⟩ := lowerArgs_nil_ok h
    exact .nil henv.valid
  | e :: es =>
    obtain ⟨p, ps, -, ⟨-, s, text, rest, -, hrest, rfl⟩ |
      ⟨-, v, t, bindings', rest, hv, -, hrest, rfl⟩⟩ := lowerArgs_cons_ok h
    · have hg := lowerArgs_grown hs henv hrest
      exact hg
    · have hg := lower_grown hs henv hv
      exact hg.append (lowerArgs_grown hs (henv.grown hg) hrest)

end

end Expr

/-! ## Statements -/

/-- Asking for the slot of a name gives the slot of that name. -/
theorem Lower.intern_granted {name : String} {span : Span} {slot : Slot} {st st' : LowerState}
    (hs : st.slots.Valid) (hd : depth < Slots.hiddenDepth)
    (h : Lower.intern name depth span st = .ok slot st') :
    Slots.Granted st.slots st'.slots ⟨name, depth⟩ slot := by
  obtain ⟨g, hg, rfl, hslots⟩ := Lower.grant_ok h
  rw [hslots]
  exact hs.intern (Nat.ne_of_lt hd) hg

/-- Asking for a slot without a name gives the next one. -/
theorem Lower.fresh_granted {label : String} {span : Span} {slot : Slot} {st st' : LowerState}
    (hs : st.slots.Valid) (h : Lower.fresh label span st = .ok slot st') :
    st'.slots.Valid ∧ st.slots.Extends st'.slots ∧ st'.slots.Hidden slot ∧
      slot = st.slots.size := by
  obtain ⟨g, hg, rfl, hslots⟩ := Lower.grant_ok h
  rw [hslots]
  exact hs.fresh hg

/-- The action before a new round of a counting loop moves a marker on that can be seen. -/
theorem Scopes.Stored.sees_marker {l : List Scope} {step : Action} (h : Stored s l)
    (hloop : loopAmong l = some (some step)) :
    ∃ slot, step = Stmt.countStep slot ∧ ∃ scope ∈ (⟨l⟩ : Scopes).visible, ∃ name,
      scope.bindings.get? name = some ⟨.number, true, .slot slot⟩ := by
  induction l with
  | nil => cases hloop
  | cons scope outer ih =>
    rw [loopAmong] at hloop
    cases hk : scope.kind with
    | function name ret =>
      simp only [hk] at hloop
      cases hloop
    | block =>
      simp only [hk] at hloop
      obtain ⟨slot, hstep, seen, hseen, hb⟩ := ih h.2 hloop
      refine ⟨slot, hstep, seen, ?_, hb⟩
      rw [visible_cons, hk]
      exact List.mem_cons_of_mem _ hseen
    | loop step' =>
      simp only [hk, Option.some.injEq] at hloop
      subst hloop
      obtain ⟨around, rest, name, slot, rfl, hstep, hb⟩ := h.1.marker hk
      refine ⟨slot, hstep, around, ?_, name, hb⟩
      rw [visible_cons, hk]
      refine List.mem_cons_of_mem _ ?_
      show around ∈ visible _
      rw [visible_cons]
      exact List.mem_cons_self

theorem Scopes.sees_of_binding? {name : String} {ty : Ty} {slot : Slot}
    (h : scopes.binding? name = some ⟨ty, true, .slot slot⟩) : scopes.Sees slot := by
  obtain ⟨scope, hscope, hb⟩ := List.exists_of_findSome?_eq_some h
  exact ⟨scope, hscope, name, _, hb, rfl, rfl⟩

namespace Stmt

open Scopes (Declares Writable)

/-- The steps of a declaration. -/
theorem lower_declare_kept {span : Span} {name : String} {ty : Option TypeExpr}
    {value : Option Expr} {constant : Bool} {scopes' : Scopes} {action : Action}
    {st st' : LowerState} (hs : Splice.Grows splice?) (henv : env.Ready st.slots 0)
    (h : (Stmt.declare span name ty value constant).lower env splice? st =
      .ok (scopes', action) st') :
    Kept env.scopes st.slots st'.slots action.writes ∧ Declares st'.slots env.scopes scopes' := by
  obtain ⟨hhere, annotated, lowered, t, ty', slot, -, hlowered, -, hslot, rfl, rfl⟩ :=
    lower_declare_ok h
  rcases lowerOption_ok hlowered with ⟨-, rfl, rfl⟩ | ⟨e, v, -, hv, rfl⟩
  · have hgrant := Lower.intern_granted henv.valid henv.depth_lt hslot
    refine ⟨⟨hgrant.valid, hgrant.extend, fun slot hslot => ?_⟩, ?_⟩
    · cases hslot
    · exact .declare .refl hhere rfl hgrant.get?
  · have hg := Expr.lower_grown hs henv hv
    have hgrant := Lower.intern_granted hg.valid henv.depth_lt hslot
    refine ⟨?_, .declare .refl hhere rfl hgrant.get?⟩
    rw [Action.writes_behind]
    have hbefore := hg.kept (Nat.le_refl env.scopes.depth)
    refine hbefore.append ⟨hgrant.valid, hgrant.extend, fun other hother => ?_⟩
    obtain rfl := List.mem_singleton.mp hother
    exact .new hhere hgrant.get?

/-- The steps of a branch with an alternative. -/
theorem saveCondition_kept {condition saved : Value} {save : List Action} {span : Span}
    {st st' : LowerState} (hs : st.slots.Valid)
    (h : saveCondition condition span st = .ok (save, saved) st') :
    Grown depth st.slots st'.slots save := by
  rcases saveCondition_ok h with ⟨-, rfl, -, rfl⟩ | ⟨slot, hslot, rfl, -⟩
  · exact .nil hs
  · obtain ⟨hvalid, hextend, hhidden, rfl⟩ := Lower.fresh_granted hs hslot
    refine ⟨hvalid, hextend, fun other hother => ?_⟩
    obtain rfl := List.mem_singleton.mp hother
    exact .inr ⟨hhidden, Nat.le_refl _⟩

mutual

/-- **Code for a statement stores only to what its place may store to**, and what the statement
declares is new. -/
theorem lower_kept {stmt : Stmt} {scopes' : Scopes} {action : Action} {env : Env}
    {st st' : LowerState} (hs : Splice.Grows splice?) (henv : env.Ready st.slots stmt.nesting)
    (h : stmt.lower env splice? st = .ok (scopes', action) st') :
    Kept env.scopes st.slots st'.slots action.writes ∧ Declares st'.slots env.scopes scopes' := by
  have henv₀ := henv.le (Nat.zero_le _)
  have hle := Nat.le_refl env.scopes.depth
  match stmt with
  | .block span body =>
    obtain ⟨actions, hbody, rfl, rfl⟩ := lower_block_ok h
    rw [nesting] at henv
    have hk := lowerBody_kept hs (henv.push (.inl rfl)) hbody
    exact ⟨hk.of_push rfl henv.inner_lt, .refl⟩
  | .declare span name ty value constant => exact lower_declare_kept hs henv₀ h
  | .assign span name value =>
    obtain ⟨ty, slot, v, hb, hv, -, rfl, rfl⟩ := lower_assign_ok h
    rw [Action.writes_behind]
    have hg := Expr.lower_grown hs henv₀ hv
    exact ⟨(hg.kept hle).write (.sees (Scopes.sees_of_binding? hb)), .refl⟩
  | .assignField span object field value =>
    obtain ⟨o, t, v, ho, hv, rfl, rfl⟩ := lower_assignField_ok h
    rw [Action.writes_behind]
    have hg := Expr.lower_grown hs henv₀ ho
    have hg' := hg.append (Expr.lower_grown hs (henv₀.grown hg) hv)
    refine ⟨?_, .refl⟩
    simpa [Action.writes] using hg'.kept hle
  | .branch span condition body none =>
    obtain ⟨v, t, actions, hv, -, hbody, rfl, rfl⟩ := lower_branch_ok h
    rw [Action.writes_behind]
    rw [nesting] at henv
    have hg := Expr.lower_grown hs henv₀ hv
    have hk := lowerBody_kept hs ((henv.grown hg).push (.inl rfl)) hbody
    exact ⟨(hg.kept hle).append (hk.of_push rfl henv.inner_lt), .refl⟩
  | .branch span condition body (some otherwise) =>
    obtain ⟨v, t, save, saved, t₁, actions, t₂, actions', hv, -, hsave, hbody, hother, rfl, rfl⟩ :=
      lower_branchElse_ok h
    rw [nesting] at henv
    have hg := Expr.lower_grown hs henv₀ hv
    have hg' : Grown env.scopes.depth t.slots t₁.slots save := saveCondition_kept hg.valid hsave
    have henv' := (henv.grown hg).grown hg'
    have hdepth := henv.inner_lt
    have hk := lowerBody_kept hs henv'.push_left hbody
    have hk' := lowerBody_kept hs (henv'.kept hk).push_right hother
    refine ⟨?_, .refl⟩
    have hall := (hg.kept hle).append ((hg'.kept hle).append
      ((hk.of_push rfl hdepth).append (hk'.of_push rfl hdepth)))
    rw [Action.writes_behind, Action.writes, Action.writesBody_append]
    simpa [Action.writesBody, Action.writes] using hall
  | .loop span condition body =>
    obtain ⟨v, t, actions, hv, -, hbody, rfl, rfl⟩ := lower_loop_ok h
    rw [Action.writes_loopWith]
    rw [nesting] at henv
    have hg := Expr.lower_grown hs henv₀ hv
    have hk := lowerBody_kept hs ((henv.grown hg).push (.inr rfl)) hbody
    exact ⟨(hg.kept hle).append (hk.of_push rfl henv.inner_lt), .refl⟩
  | .count span marker first limit body =>
    obtain ⟨a, t₁, b, t₂, slot, t₃, actions, ha, hb, -, -, hslot, hbody, rfl, rfl⟩ :=
      lower_count_ok h
    rw [nesting] at henv
    have hdepth := henv.depth_lt
    have houter := henv.push (.inl rfl)
    have hga := Expr.lower_grown hs (houter.le (Nat.zero_le _)) ha
    have hgb := Expr.lower_grown hs ((houter.le (Nat.zero_le _)).grown hga) hb
    have hgrant := Lower.intern_granted hgb.valid (by omega) hslot
    have hgrown := (hga.append hgb).kept (Nat.le_succ env.scopes.depth)
    -- Outside the loop the slot of the marker is deeper than everything that can be seen.
    have hkslot : Kept env.scopes t₂.slots t₃.slots [slot] := by
      refine ⟨hgrant.valid, hgrant.extend, fun other hother => ?_⟩
      obtain rfl := List.mem_singleton.mp hother
      exact .deeper (.inl ⟨_, hgrant.get?, Nat.lt_succ_self _, by simp only; omega⟩)
    have henv' := (henv.kept hgrown).kept hkslot
    have hk := lowerBody_kept hs (henv'.count hgrant.get?) hbody
    have hbodyKept := hk.of_count (by omega) (hk.extend.get? hgrant.get?)
    refine ⟨((hgrown.append hkslot).append hbodyKept).subset fun other hother => ?_, .refl⟩
    simp only [Action.writes_behind, Action.writes, Action.writesBody, Action.writes_loopWith,
      Action.writesBody_append, countStep, List.mem_append, List.mem_cons, List.not_mem_nil,
      or_false] at hother ⊢
    tauto
  | .ret span value =>
    obtain ⟨rfl, ⟨-, rfl, rfl⟩ | ⟨function, r, e, v, -, hf, hv, -, rfl⟩⟩ := lower_ret_ok h
    · exact ⟨.nil henv.valid, .refl⟩
    · rw [Action.writes_behind]
      have hg := Expr.lower_grown hs henv₀ hv
      exact ⟨(hg.kept hle).write (.result hf rfl), .refl⟩
  | .stop span =>
    obtain ⟨step, -, rfl, rfl, rfl⟩ := lower_stop_ok h
    exact ⟨.nil henv.valid, .refl⟩
  | .next span =>
    obtain ⟨rfl, rfl, ⟨-, rfl⟩ | ⟨step, hloop, rfl⟩⟩ := lower_next_ok h
    · exact ⟨.nil henv.valid, .refl⟩
    · obtain ⟨slot, rfl, scope, hscope, name, hb⟩ := henv.stored.sees_marker hloop
      have hk : Kept env.scopes st.slots st.slots ([] ++ [slot]) :=
        (Kept.nil henv.valid).write (.sees ⟨scope, hscope, name, _, hb, rfl, rfl⟩)
      exact ⟨hk, .refl⟩
  | .call span name args =>
    obtain ⟨rfl, ⟨decl, splice, vs, t, spliced, hdecl, hcall, hvs, hspliced, rfl⟩ |
      ⟨f, vs, -, -, hvs, rfl⟩⟩ := lower_call_ok h
    -- Whatever the body of a call stores to is deeper than the place of the call.
    · have hg := Expr.lowerList_grown hs henv₀ hvs
      have hg' := hs.grown hcall.splice (henv₀.grown hg) hdecl hcall.not_inlining hspliced
      rw [Action.writes_behind]
      refine ⟨?_, .refl⟩
      simpa [Action.writes] using (hg.append hg'.block).kept hle
    · rw [Action.writes_behind]
      refine ⟨?_, .refl⟩
      simpa [Action.writes] using (Expr.lowerArgs_grown hs henv₀ hvs).kept hle

theorem lowerBody_kept {body : List Stmt} {actions : List Action} {env : Env} {st st' : LowerState}
    (hs : Splice.Grows splice?) (henv : env.Ready st.slots (nestingBody body))
    (h : lowerBody env splice? body st = .ok actions st') :
    Kept env.scopes st.slots st'.slots (Action.writesBody actions) := by
  match body with
  | [] =>
    obtain ⟨rfl, rfl⟩ := lowerBody_nil_ok h
    exact .nil henv.valid
  | stmt :: body =>
    obtain ⟨scopes', action, t, rest, hstmt, hrest, rfl⟩ := lowerBody_cons_ok h
    rw [nestingBody] at henv
    obtain ⟨hk, hd⟩ := lower_kept hs (henv.le (Nat.le_max_left _ _)) hstmt
    have henv' := ((henv.kept hk).le (Nat.le_max_right _ _)).declares hd
    have hk' := lowerBody_kept hs henv' hrest
    exact hk.append (hk'.of_declares (hd.extend hk'.extend.get?))

end

end Stmt

/-! ## Calls -/

namespace FunctionDecl

/-- Binding the parameters of a call declares them and stores to them. -/
theorem bindParams_kept {params : List (Param × Value)} {scopes' : Scopes} {actions : List Action}
    {st st' : LowerState} {env : Env} (henv : env.Ready st.slots 0)
    (h : bindParams env params st = .ok (scopes', actions) st') :
    Kept env.scopes st.slots st'.slots (Action.writesBody actions) ∧
      Scopes.Declares st'.slots env.scopes scopes' := by
  induction params generalizing env st actions with
  | nil =>
    obtain ⟨rfl, rfl, rfl⟩ := bindParams_nil_ok h
    exact ⟨.nil henv.valid, .refl⟩
  | cons param rest ih =>
    obtain ⟨p, v⟩ := param
    obtain ⟨hhere, ty, slot, t, actions', -, hslot, hrest, rfl⟩ := bindParams_cons_ok h
    have hgrant := Lower.intern_granted henv.valid henv.depth_lt hslot
    have hk : Kept env.scopes st.slots t.slots [slot] := by
      refine ⟨hgrant.valid, hgrant.extend, fun other hother => ?_⟩
      obtain rfl := List.mem_singleton.mp hother
      exact .new hhere hgrant.get?
    have hd : Scopes.Declares t.slots env.scopes
        (env.scopes.declare p.name ⟨ty, false, .slot slot⟩) :=
      .declare .refl hhere rfl hgrant.get?
    obtain ⟨hk', hd'⟩ := ih ((henv.kept hk).declares hd) hrest
    have hd'' := hd.extend hk'.extend.get?
    exact ⟨hk.append (hk'.of_declares hd''), hd''.trans hd'⟩

/-- The slot for a return value is the next one. -/
theorem reserveReturn_grown {decl : FunctionDecl} {ret : Option ReturnSlot} {span : Span}
    {st st' : LowerState} (hs : st.slots.Valid)
    (h : reserveReturn env decl span st = .ok ret st') : st'.slots.Valid ∧
      st.slots.Extends st'.slots ∧
      ∀ r, ret = some r → st'.slots.Hidden r.slot ∧ r.slot = st.slots.size := by
  rcases reserveReturn_ok h with ⟨-, rfl, rfl⟩ | ⟨ty, slot, -, -, hslot, rfl⟩
  · exact ⟨hs, .refl _, fun r hr => by cases hr⟩
  · obtain ⟨hvalid, hextend, hhidden, hnext⟩ := Lower.fresh_granted hs hslot
    refine ⟨hvalid, hextend, fun r hr => ?_⟩
    cases hr
    exact ⟨hhidden, hnext⟩

/-- The scope of a function that is entered, with its return value in a slot that is newer than
those of all functions around it. -/
theorem stored_entered {outer : List Scope} (h : Scopes.Stored s outer) {function : String}
    {types : Table Ty} {ret : Option ReturnSlot} (hret : ∀ r, ret = some r → s.Hidden r.slot ∧
      ∀ other ∈ outer, ∀ r', other.result? = some r' → r'.slot < r.slot) :
    Scopes.Stored s (enteredScopes function types ret outer).open_ := by
  refine ⟨⟨fun {name b slot} hb hslot => .inr ?_, fun {r} hr => ?_, fun {step} hstep => ?_⟩, h⟩
  · exact get?_returnBindings hb
  · obtain rfl : ret = some r := hr
    exact ⟨(hret r rfl).1, Table.get?_insert_self _ _ _, (hret r rfl).2⟩
  · cases hstep

/-- What the body of a call may store to is deeper than the call. -/
theorem deeper_of_entered {function : String} {types : Table Ty} {ret : Option ReturnSlot}
    {slot : Slot} (hd : scopes.depth + 1 < Slots.hiddenDepth)
    (hret : ∀ r, ret = some r → t.Hidden r.slot ∧ s.size ≤ r.slot)
    (h : Scopes.Writable (enteredScopes function types ret scopes.open_) s t slot) :
    Slots.Deeper scopes.depth s t slot := by
  cases h with
  | deeper h => exact h.mono (Nat.le_succ _) (Nat.le_refl _) (.refl t)
  | sees h =>
    obtain ⟨scope, hscope, name, b, hb, hmutable, hslot⟩ := h
    rw [enteredScopes, Scopes.visible_cons] at hscope
    obtain rfl : scope = _ := List.mem_singleton.mp hscope
    obtain ⟨-, r, -, rfl⟩ := get?_returnBindings hb
    cases hmutable
  | result h hslot =>
    cases h
    subst hslot
    exact .inr (hret _ rfl)
  | new hhere hslot => exact .inl ⟨_, hslot, Nat.lt_succ_self _, hd⟩

/-- The place at the start of a call. -/
theorem ready_entered {name : String} {decl : FunctionDecl} (types : Table Ty)
    {ret : Option ReturnSlot} (henv : env.Ready s 0)
    (hdecl : env.declarations.functions.get? name = some decl) (hnew : decl.name ∉ env.inlining)
    (ht : t.Valid) (hextend : s.Extends t)
    (hret : ∀ r, ret = some r → t.Hidden r.slot ∧ r.slot = s.size) :
    (enteredEnv env decl types ret).Ready t (Stmt.nestingBody decl.body) := by
  refine ⟨ht, stored_entered (henv.stored.extend hextend) fun r hr => ⟨(hret r hr).1, ?_⟩, ?_⟩
  · intro other hother r' hr'
    obtain ⟨i, hi⟩ := List.getElem?_of_mem hother
    rw [(hret r hr).2]
    exact (henv.stored.holds hi).result_lt henv.valid hr'
  · obtain ⟨l₁, l₂, hentries, -⟩ := List.lookup_eq_some_iff.mp hdecl
    have hmem : (name, decl) ∈ env.declarations.functions.entries := by
      rw [hentries]
      exact List.mem_append_right _ List.mem_cons_self
    have hroom := henv.room
    have hless := Declarations.nesting_add_callNesting_le hmem hnew
    rw [FunctionDecl.nesting] at hless
    show env.scopes.depth + 1 + Stmt.nestingBody decl.body + Declarations.callNesting
      (decl.name :: env.inlining) env.declarations.functions.entries < _
    rw [Env.callNesting] at hroom
    omega

/-- **Code for a call is deeper than the call.** -/
theorem inline_grown {name : String} {decl : FunctionDecl} {args : List Value} {span : Span}
    {out : Spliced} {st st' : LowerState} (hs : Splice.Grows splice?)
    (henv : env.Ready st.slots 0) (hdecl : env.declarations.functions.get? name = some decl)
    (hnew : decl.name ∉ env.inlining) (h : inline splice? env decl args span st = .ok out st') :
    Grown env.scopes.depth st.slots st'.slots out.body := by
  obtain ⟨generics, types, ret, scopes', params, body, t₁, t₂, -, hret, hparams, hbody, rfl⟩ :=
    inline_entered_ok h
  obtain ⟨hvalid, hextend, hnext⟩ := reserveReturn_grown (by exact henv.valid) hret
  have hinner := ready_entered types henv hdecl hnew hvalid hextend hnext
  obtain ⟨hk, hd⟩ := bindParams_kept (hinner.le (Nat.zero_le _)) hparams
  have hk' := Stmt.lowerBody_kept hs ((hinner.kept hk).declares hd) hbody
  have hall := hk.append (hk'.of_declares (hd.extend hk'.extend.get?))
  refine ⟨hall.valid, hextend.trans hall.extend, fun slot hslot => ?_⟩
  rw [Action.writesBody_append] at hslot
  refine deeper_of_entered ?_ (fun r hr => ?_)
    ((hall.writes slot hslot).mono hextend.size_le (.refl _))
  · exact hinner.open_lt
  · obtain ⟨hhidden, heq⟩ := hnext r hr
    exact ⟨hall.extend.hidden hhidden, Nat.le_of_eq heq.symm⟩

end FunctionDecl

/-- **Code for a call is deeper than the call**, however deeply calls are inlined. -/
theorem spliceWithin_grows (depth : Nat) : Splice.Grows (spliceWithin depth) := by
  induction depth with
  | zero => exact ⟨fun hsplice => by cases hsplice⟩
  | succ depth ih =>
    refine ⟨fun hsplice henv hdecl hnew h => ?_⟩
    cases hsplice
    exact FunctionDecl.inline_grown ih henv hdecl hnew h

end

end RuleScript
