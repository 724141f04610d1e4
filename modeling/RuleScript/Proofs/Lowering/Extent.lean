import RuleScript.Proofs.Lowering.Points
import RuleScript.Proofs.Meaning.Types
import RuleScript.Proofs.Nodes

/-!
# How far slots reach

Lowered code names slots by their numbers: a value reads one, an action stores to one. Slots are
numbered in the order in which they are handed out, so every number in the code has to be below the
number of slots that were handed out by the time the code is there.

The code of a call is handed on with the values of its arguments in it, and code that comes first is
kept while more slots are handed out. So the bound is fixed ahead of time, as one that the number of
slots has not passed at the end.

## Main definitions

* `Value.slot?`, `Action.slot?`: the slot that a value reads or an action stores to
* `Value.Below`, `Action.Below`: every slot is below a bound

## Main results

* `Stmt.lowerBody_below`: the slots in the code for a body
* `Program.lower_below`: the slots in the rules of a program
-/

namespace RuleScript

variable {n : Nat}

theorem Slots.Granted.slot_lt {s t : Slots} {key : SlotKey} {slot : Slot}
    (h : Granted s t key slot) : slot < t.size :=
  h.valid.get?_lt h.get?

theorem Slots.Valid.hidden_lt {s : Slots} (hs : s.Valid) {slot : Slot} (h : s.Hidden slot) :
    slot < s.size := by
  obtain ⟨key, -, hkey⟩ := h
  exact hs.get?_lt hkey

/-! ## Slots in values and actions -/

namespace Value

/-- The slot that the value itself reads. -/
def slot? : Value → Option Slot
  | read _ slot => some slot
  | binary _ _ _ _ | not _ _ | index _ _ _ | call _ _ _ | constant _ _ | number _ _ | string _ _
  | template _ _ | boolean _ _ | array _ _ => none

/-- All slots that the value reads are below the bound. -/
abbrev Below (n : Nat) (v : Value) : Prop := v.Throughout fun w => ∀ slot ∈ w.slot?, slot < n

/-- A value that reads no slot itself. -/
theorem below_of_parts {v : Value} (hslot : v.slot? = none) (h : ∀ w ∈ v.parts, w.Below n) :
    v.Below n :=
  (throughout_iff v).mpr ⟨by rw [hslot]; exact nofun, h⟩

theorem below_read {ty : Ty} {slot : Slot} (h : slot < n) : (read ty slot).Below n :=
  (throughout_iff _).mpr ⟨by simpa [slot?] using h, nofun⟩

theorem below_negate {v : Value} (h : v.Below n) : v.negate.Below n :=
  below_of_parts rfl (by simpa [negate] using h)

theorem below_binary {ty : Ty} {op : BinOp} {lhs rhs : Value} (hl : lhs.Below n)
    (hr : rhs.Below n) : (binary ty op lhs rhs).Below n :=
  below_of_parts rfl (by simp [hl, hr])

theorem below_defaults? {ps : List ParamDef} {values : List Value}
    (h : defaults? ps = some values) : ∀ v ∈ values, v.Below n := by
  induction ps generalizing values with
  | nil =>
    cases h
    exact nofun
  | cons p ps ih =>
    rw [defaults?] at h
    split at h
    · cases h
      exact nofun
    · split at h
      · cases h
      · obtain ⟨rest, hrest, rfl⟩ := Option.map_eq_some_iff.mp h
        exact List.forall_mem_cons.mpr ⟨below_of_parts rfl nofun, ih hrest⟩

end Value

namespace Action

/-- The slot that the action itself stores to. -/
def slot? : Action → Option Slot
  | declare slot _ _ | assign slot _ => some slot
  | block _ | branch _ _ | loop _ _ | assignField _ _ _ | call _ _ | stop | next | noop => none

/-- All slots in the body are below the bound. -/
abbrev Below (n : Nat) (body : List Action) : Prop :=
  Throughout (fun a => ∀ slot ∈ a.slot?, slot < n) (fun v => ∀ slot ∈ v.slot?, slot < n) body

/-- An action that stores to no slot itself. -/
theorem below_of_parts {a : Action} (hslot : a.slot? = none) (hvalues : ∀ v ∈ a.values, v.Below n)
    (hinner : Below n a.inner) : Below n [a] :=
  throughout_cons.mpr ⟨by rw [hslot]; exact nofun, hvalues, hinner, throughout_nil⟩

/-- An action without a slot, a value or a body. -/
theorem below_simple {a : Action} (hslot : a.slot? = none) (hvalues : a.values = [])
    (hinner : a.inner = []) : Below n [a] :=
  below_of_parts hslot (by rw [hvalues]; exact nofun) (by rw [hinner]; exact throughout_nil)

theorem below_block {body : List Action} (h : Below n body) : Below n [block body] :=
  below_of_parts rfl nofun h

theorem below_branch {condition : Value} {body : List Action} (h : condition.Below n)
    (hbody : Below n body) : Below n [branch condition body] :=
  below_of_parts rfl (by simpa using h) hbody

theorem below_loop {condition : Value} {body : List Action} (h : condition.Below n)
    (hbody : Below n body) : Below n [loop condition body] :=
  below_of_parts rfl (by simpa using h) hbody

theorem below_declare {slot : Slot} {ty : Ty} {value : Value} (hslot : slot < n)
    (h : value.Below n) : Below n [declare slot ty value] :=
  throughout_cons.mpr
    ⟨by simpa [slot?] using hslot, List.forall_mem_singleton.mpr h, throughout_nil, throughout_nil⟩

theorem below_assign {slot : Slot} {value : Value} (hslot : slot < n) (h : value.Below n) :
    Below n [assign slot value] :=
  throughout_cons.mpr
    ⟨by simpa [slot?] using hslot, List.forall_mem_singleton.mpr h, throughout_nil, throughout_nil⟩

theorem below_append {as bs : List Action} (ha : Below n as) (hb : Below n bs) :
    Below n (as ++ bs) :=
  throughout_append.mpr ⟨ha, hb⟩

theorem below_cons {a : Action} {as : List Action} (ha : Below n [a]) (has : Below n as) :
    Below n (a :: as) :=
  below_append ha has

theorem below_behind {before : List Action} {a : Action} (hbefore : Below n before)
    (ha : Below n [a]) : Below n [behind before a] :=
  throughout_behind (fun _ => nofun) hbefore ha

theorem below_loopWith {check body : List Action} {condition : Value} (hcheck : Below n check)
    (h : condition.Below n) (hbody : Below n body) : Below n [loopWith check condition body] := by
  unfold loopWith
  split
  · exact below_loop h hbody
  · have hexit : Below n [branch condition.negate [stop]] :=
      below_branch (Value.below_negate h) (below_simple rfl rfl rfl)
    exact below_loop (Value.below_of_parts rfl nofun) (below_append hcheck (below_cons hexit hbody))

theorem below_countStep {slot : Slot} (h : slot < n) : Below n [Stmt.countStep slot] :=
  below_assign h (Value.below_binary (Value.below_read h) (Value.below_of_parts rfl nofun))

end Action

/-- The slots in a lowered expression and in the code before it. -/
structure Lowered.Below (n : Nat) (out : Lowered) : Prop where
  before : Action.Below n out.before
  value : out.value.Below n

/-- The slots in lowered expressions and in the code before them. -/
structure LoweredList.Below (n : Nat) (out : LoweredList) : Prop where
  before : Action.Below n out.before
  values : ∀ v ∈ out.values, v.Below n

/-- The slots in the body of a call, and the one that its value is in. -/
structure Spliced.Below (n : Nat) (out : Spliced) : Prop where
  body : Action.Below n out.body
  ret : ∀ r, out.ret = some r → r.slot < n

/-- The code of a call has only slots below the bound if its arguments have and the number of slots
does not pass the bound. -/
structure Splice.Below (n : Nat) (splice? : Option Splice) : Prop where
  below : ∀ {splice env name decl args span st out st'}, splice? = some splice →
    env.Ready st.slots 0 → env.declarations.functions.get? name = some decl →
    decl.name ∉ env.inlining → (∀ v ∈ args, v.Below n) → st'.slots.size ≤ n →
    splice env decl args span st = .ok out st' → out.Below n

section

variable {env : Env} {splice? : Option Splice} {s : Slots} {nesting : Nat}

/-! ## Slots of the open scopes -/

namespace Env.Ready

theorem bound_lt (h : env.Ready s nesting) {scope : Scope} (hscope : scope ∈ env.scopes.visible)
    {name : String} {b : Binding} {slot : Slot} (hb : scope.bindings.get? name = some b)
    (hslot : b.value = .slot slot) : slot < s.size := by
  obtain ⟨i, -, hi⟩ := Scopes.exists_of_mem_visible hscope
  rcases (h.stored.holds hi).named hb hslot with hkey | ⟨-, r, hr, rfl⟩
  · exact h.valid.get?_lt hkey
  · cases hslot
    exact (h.stored.holds hi).result_lt h.valid hr

/-- A variable that can be seen has a slot that is handed out already. -/
theorem binding_lt (h : env.Ready s nesting) {name : String} {b : Binding} {slot : Slot}
    (hb : env.scopes.binding? name = some b) (hslot : b.value = .slot slot) : slot < s.size := by
  obtain ⟨scope, hscope, hb⟩ := List.exists_of_findSome?_eq_some hb
  exact h.bound_lt hscope hb hslot

theorem result_lt (h : env.Ready s nesting) {function : String} {r : ReturnSlot}
    (hf : env.scopes.enclosingFunction? = some (function, some r)) : r.slot < s.size := by
  obtain ⟨scope, hscope, hr, -⟩ := Scopes.enclosingFunction?_eq_some hf
  obtain ⟨i, -, hi⟩ := Scopes.exists_of_mem_visible hscope
  exact (h.stored.holds hi).result_lt h.valid hr

theorem step_below (h : env.Ready s nesting) (hn : s.size ≤ n) {step : Action}
    (hloop : env.scopes.enclosingLoop? = some (some step)) : Action.Below n [step] := by
  obtain ⟨slot, rfl, scope, hscope, name, hb⟩ := h.stored.sees_marker hloop
  exact Action.below_countStep (Nat.lt_of_lt_of_le (h.bound_lt hscope hb rfl) hn)

end Env.Ready

/-! ## Expressions -/

namespace Expr

theorem ident_below (henv : env.Ready s nesting) (hn : s.size ≤ n) {span : Span} {name : String}
    {v : Value} (h : env.ident span name = .ok v) : v.Below n := by
  unfold Env.ident at h
  split at h
  case h_1 ty _ slot hb =>
    cases h
    exact Value.below_read (Nat.lt_of_lt_of_le (henv.binding_lt hb rfl) hn)
  case h_2 =>
    cases h
    exact Value.below_of_parts rfl nofun
  case h_3 =>
    split at h
    · cases h
      exact Value.below_of_parts rfl nofun
    · cases h

mutual

/-- The slots in the code for an expression. -/
theorem lower_below {e : Expr} {st st' : LowerState} {out : Lowered} (hg : Splice.Grows splice?)
    (hs : Splice.Below n splice?) (henv : env.Ready st.slots 0) (hn : st'.slots.size ≤ n)
    (h : e.lower env splice? st = .ok out st') : out.Below n := by
  match e with
  | .number span x =>
    obtain ⟨rfl, rfl⟩ := Lower.pure_ok.mp h
    exact ⟨Action.throughout_nil, Value.below_of_parts rfl nofun⟩
  | .boolean span b =>
    obtain ⟨rfl, rfl⟩ := Lower.pure_ok.mp h
    exact ⟨Action.throughout_nil, Value.below_of_parts rfl nofun⟩
  | .string span s =>
    obtain ⟨rfl, rfl⟩ := lower_string_ok h
    exact ⟨Action.throughout_nil, Value.below_of_parts rfl nofun⟩
  | .ident span name =>
    obtain ⟨v, hv, rfl, rfl⟩ := lower_ident_ok h
    exact ⟨Action.throughout_nil, ident_below henv hn hv⟩
  | .array span item items =>
    obtain ⟨explicit, vs, v, -, hvs, hv, rfl⟩ := lower_array_ok h
    obtain ⟨item, -, -, rfl⟩ := Value.ofItems_ok hv
    have hitems := lowerList_below hg hs henv hn hvs
    exact ⟨hitems.before, Value.below_of_parts rfl hitems.values⟩
  | .binary span op left right =>
    obtain ⟨lhs, t, rhs, v, hlhs, hrhs, hv, rfl⟩ := lower_binary_ok h
    have henv' := henv.grown (lower_grown hg henv hlhs)
    have hsize := (lower_grown hg henv' hrhs).extend.size_le
    have hl := lower_below hg hs henv (hsize.trans hn) hlhs
    have hr := lower_below hg hs henv' hn hrhs
    simp only [Value.combine, Except.bind_eq_ok] at hv
    obtain ⟨ty, -, hv⟩ := hv
    cases hv
    exact ⟨Action.below_append hl.before hr.before, Value.below_binary hl.value hr.value⟩
  | .not span operand =>
    obtain ⟨o, ho, -, rfl⟩ := lower_not_ok h
    have hoperand := lower_below hg hs henv hn ho
    exact ⟨hoperand.before, Value.below_negate hoperand.value⟩
  | .typeOf span operand =>
    obtain ⟨o, -, rfl⟩ := lower_typeOf_ok h
    exact ⟨Action.throughout_nil, Value.below_of_parts rfl nofun⟩
  | .index span object place =>
    obtain ⟨a, t, i, item, ha, hi, -, -, rfl⟩ := lower_index_ok h
    have henv' := henv.grown (lower_grown hg henv ha)
    have hsize := (lower_grown hg henv' hi).extend.size_le
    have harray := lower_below hg hs henv (hsize.trans hn) ha
    have hplace := lower_below hg hs henv' hn hi
    exact ⟨Action.below_append harray.before hplace.before,
      Value.below_of_parts rfl (by simp [harray.value, hplace.value])⟩
  | .call span name args =>
    rcases lower_call_ok h with
      ⟨decl, splice, vs, t, body, r, hdecl, hcall, hvs, hspliced, rfl⟩ |
      ⟨f, vs, ty, -, -, hvs, -, rfl⟩
    · have henv' := henv.grown (lowerList_grown hg henv hvs)
      have hsize :=
        (hg.grown hcall.splice henv' hdecl hcall.not_inlining hspliced).extend.size_le
      have hvalues := lowerList_below hg hs henv (hsize.trans hn) hvs
      have hbody := hs.below hcall.splice henv' hdecl hcall.not_inlining hvalues.values hn hspliced
      exact ⟨Action.below_append hvalues.before (Action.below_block hbody.body),
        Value.below_read (hbody.ret r rfl)⟩
    · have hvalues := lowerArgs_below hg hs henv hn hvs
      exact ⟨hvalues.before, Value.below_of_parts rfl hvalues.values⟩

theorem lowerList_below {es : List Expr} {st st' : LowerState} {vs : LoweredList}
    (hg : Splice.Grows splice?) (hs : Splice.Below n splice?) (henv : env.Ready st.slots 0)
    (hn : st'.slots.size ≤ n) (h : lowerList env splice? es st = .ok vs st') : vs.Below n := by
  match es with
  | [] =>
    obtain ⟨rfl, rfl⟩ := lowerList_nil_ok h
    exact ⟨Action.throughout_nil, nofun⟩
  | e :: es =>
    obtain ⟨v, t, rest, hv, hrest, rfl⟩ := lowerList_cons_ok h
    have henv' := henv.grown (lower_grown hg henv hv)
    have hsize := (lowerList_grown hg henv' hrest).extend.size_le
    have hfirst := lower_below hg hs henv (hsize.trans hn) hv
    have hothers := lowerList_below hg hs henv' hn hrest
    exact ⟨Action.below_append hfirst.before hothers.before,
      List.forall_mem_cons.mpr ⟨hfirst.value, hothers.values⟩⟩

theorem lowerArgs_below {f : FunctionDef} {given index : Nat} {span : Span}
    {params : List ParamDef} {bindings : Bindings} {es : List Expr} {st st' : LowerState}
    {vs : LoweredList} (hg : Splice.Grows splice?) (hs : Splice.Below n splice?)
    (henv : env.Ready st.slots 0) (hn : st'.slots.size ≤ n)
    (h : lowerArgs env splice? f given span index params bindings es st = .ok vs st') :
    vs.Below n := by
  match es with
  | [] =>
    obtain ⟨values, hvalues, rfl, rfl⟩ := lowerArgs_nil_ok h
    exact ⟨Action.throughout_nil, Value.below_defaults? hvalues⟩
  | e :: es =>
    obtain ⟨p, ps, -, ⟨-, s, text, rest, -, hrest, rfl⟩ |
      ⟨-, v, t, bindings', rest, hv, -, hrest, rfl⟩⟩ := lowerArgs_cons_ok h
    · have hothers := lowerArgs_below hg hs henv hn hrest
      exact ⟨hothers.before,
        List.forall_mem_cons.mpr ⟨Value.below_of_parts rfl nofun, hothers.values⟩⟩
    · have henv' := henv.grown (lower_grown hg henv hv)
      have hsize := (lowerArgs_grown hg henv' hrest).extend.size_le
      have hfirst := lower_below hg hs henv (hsize.trans hn) hv
      have hothers := lowerArgs_below hg hs henv' hn hrest
      exact ⟨Action.below_append hfirst.before hothers.before,
        List.forall_mem_cons.mpr ⟨hfirst.value, hothers.values⟩⟩

end

end Expr

/-! ## Statements -/

namespace Stmt

/-- The slots in the code for a declaration. -/
theorem lower_declare_below {span : Span} {name : String} {ty : Option TypeExpr}
    {value : Option Expr} {constant : Bool} {scopes' : Scopes} {action : Action}
    {st st' : LowerState} (hg : Splice.Grows splice?) (hs : Splice.Below n splice?)
    (henv : env.Ready st.slots 0) (hn : st'.slots.size ≤ n)
    (h : (Stmt.declare span name ty value constant).lower env splice? st =
      .ok (scopes', action) st') : Action.Below n [action] := by
  obtain ⟨-, annotated, lowered, t, ty', slot, -, hlowered, -, hslot, -, rfl⟩ := lower_declare_ok h
  rcases lowerOption_ok hlowered with ⟨-, rfl, rfl⟩ | ⟨e, v, -, hv, rfl⟩
  · exact Action.below_simple rfl rfl rfl
  · have hgrant :=
      Lower.intern_granted (Expr.lower_grown hg henv hv).valid henv.depth_lt hslot
    have hvalue := Expr.lower_below hg hs henv (hgrant.extend.size_le.trans hn) hv
    have hlt := Nat.lt_of_lt_of_le hgrant.slot_lt hn
    exact Action.below_behind hvalue.before (Action.below_declare hlt hvalue.value)

/-- The slot of a saved condition. -/
theorem saveCondition_below {condition saved : Value} {save : List Action} {span : Span}
    {st st' : LowerState} (hvalid : st.slots.Valid) (hcondition : condition.Below n)
    (hn : st'.slots.size ≤ n) (h : saveCondition condition span st = .ok (save, saved) st') :
    Action.Below n save ∧ saved.Below n := by
  rcases saveCondition_ok h with ⟨-, rfl, rfl, -⟩ | ⟨slot, hslot, rfl, rfl⟩
  · exact ⟨Action.throughout_nil, hcondition⟩
  · obtain ⟨hvalid', -, hhidden, -⟩ := Lower.fresh_granted hvalid hslot
    have hlt := Nat.lt_of_lt_of_le (hvalid'.hidden_lt hhidden) hn
    exact ⟨Action.below_declare hlt hcondition, Value.below_read hlt⟩

mutual

/-- The slots in the code for a statement. -/
theorem lower_below {stmt : Stmt} {scopes' : Scopes} {action : Action} {env : Env}
    {st st' : LowerState} (hg : Splice.Grows splice?) (hs : Splice.Below n splice?)
    (henv : env.Ready st.slots stmt.nesting) (hn : st'.slots.size ≤ n)
    (h : stmt.lower env splice? st = .ok (scopes', action) st') : Action.Below n [action] := by
  have henv₀ := henv.le (Nat.zero_le _)
  match stmt with
  | .block span body =>
    obtain ⟨actions, hbody, rfl, rfl⟩ := lower_block_ok h
    exact Action.below_block (lowerBody_below hg hs (henv.push (.inl rfl)) hn hbody)
  | .declare span name ty value constant => exact lower_declare_below hg hs henv₀ hn h
  | .assign span name value =>
    obtain ⟨ty, slot, v, hb, hv, -, rfl, rfl⟩ := lower_assign_ok h
    have hvalue := Expr.lower_below hg hs henv₀ hn hv
    have hsize := (Expr.lower_grown hg henv₀ hv).extend.size_le
    have hlt := Nat.lt_of_lt_of_le (henv.binding_lt hb rfl) (hsize.trans hn)
    exact Action.below_behind hvalue.before (Action.below_assign hlt hvalue.value)
  | .assignField span object field value =>
    obtain ⟨o, t, v, ho, hv, rfl, rfl⟩ := lower_assignField_ok h
    have henv' := henv₀.grown (Expr.lower_grown hg henv₀ ho)
    have hsize := (Expr.lower_grown hg henv' hv).extend.size_le
    have hobject := Expr.lower_below hg hs henv₀ (hsize.trans hn) ho
    have hvalue := Expr.lower_below hg hs henv' hn hv
    exact Action.below_behind (Action.below_append hobject.before hvalue.before)
      (Action.below_of_parts rfl (by simp [hobject.value, hvalue.value]) Action.throughout_nil)
  | .branch span condition body none =>
    obtain ⟨v, t, actions, hv, -, hbody, rfl, rfl⟩ := lower_branch_ok h
    have henv' : (env.push .block).Ready t.slots (nestingBody body) :=
      (henv.grown (Expr.lower_grown hg henv₀ hv)).push (.inl rfl)
    have hsize := (lowerBody_kept hg henv' hbody).extend.size_le
    have hcondition := Expr.lower_below hg hs henv₀ (hsize.trans hn) hv
    exact Action.below_behind hcondition.before
      (Action.below_branch hcondition.value (lowerBody_below hg hs henv' hn hbody))
  | .branch span condition body (some otherwise) =>
    obtain ⟨v, t, save, saved, t₁, actions, t₂, actions', hv, -, hsave, hbody, hother, rfl, rfl⟩ :=
      lower_branchElse_ok h
    have hgrown := Expr.lower_grown hg henv₀ hv
    have hsaved : Grown env.scopes.depth t.slots t₁.slots save :=
      saveCondition_kept hgrown.valid hsave
    have henv' := (henv.grown hgrown).grown hsaved
    rw [nesting] at henv'
    have hthen := henv'.push_left
    have hk := lowerBody_kept hg hthen hbody
    have helse := (henv'.kept hk).push_right
    have hn₂ := (lowerBody_kept hg helse hother).extend.size_le.trans hn
    have hn₁ := hk.extend.size_le.trans hn₂
    have hcondition := Expr.lower_below hg hs henv₀ (hsaved.extend.size_le.trans hn₁) hv
    obtain ⟨hsaves, hread⟩ := saveCondition_below hgrown.valid hcondition.value hn₁ hsave
    have hbranches := Action.below_cons
      (Action.below_branch hread (lowerBody_below hg hs hthen hn₂ hbody))
      (Action.below_branch (Value.below_negate hread) (lowerBody_below hg hs helse hn hother))
    exact Action.below_behind hcondition.before
      (Action.below_block (Action.below_append hsaves hbranches))
  | .loop span condition body =>
    obtain ⟨v, t, actions, hv, -, hbody, rfl, rfl⟩ := lower_loop_ok h
    have henv' := (henv.grown (Expr.lower_grown hg henv₀ hv)).push (.inr rfl)
    have hsize := (lowerBody_kept hg henv' hbody).extend.size_le
    have hcondition := Expr.lower_below hg hs henv₀ (hsize.trans hn) hv
    exact Action.below_loopWith hcondition.before hcondition.value
      (lowerBody_below hg hs henv' hn hbody)
  | .count span marker first limit body =>
    obtain ⟨a, t₁, b, t₂, slot, t₃, actions, ha, hb, -, -, hslot, hbody, rfl, rfl⟩ :=
      lower_count_ok h
    rw [nesting] at henv
    have houter : (env.push .block).Ready st.slots 0 := (henv.le (by omega)).push (.inl rfl)
    have hga := Expr.lower_grown hg houter ha
    have hgb := Expr.lower_grown hg (houter.grown hga) hb
    have hgrant := Lower.intern_granted hgb.valid houter.depth_lt hslot
    have henv' := ((henv.grown hga).grown hgb).granted hgrant
    have hinner := henv'.count hgrant.get?
    -- The number of slots only grows, so the bound at the end holds at every point before it.
    have hn₃ := (lowerBody_kept hg hinner hbody).extend.size_le.trans hn
    have hn₂ := hgrant.extend.size_le.trans hn₃
    have hfirst := Expr.lower_below hg hs houter (hgb.extend.size_le.trans hn₂) ha
    have hlimit := Expr.lower_below hg hs (houter.grown hga) hn₂ hb
    have hlt := Nat.lt_of_lt_of_le hgrant.slot_lt hn₃
    have hcondition : (Value.binary .boolean .lt (.read .number slot) b.value).Below n :=
      Value.below_binary (Value.below_read hlt) hlimit.value
    have hloop := Action.below_loopWith hlimit.before hcondition
      (Action.below_append (lowerBody_below hg hs hinner hn hbody) (Action.below_countStep hlt))
    exact Action.below_behind hfirst.before
      (Action.below_block (Action.below_cons (Action.below_declare hlt hfirst.value) hloop))
  | .ret span value =>
    obtain ⟨rfl, ⟨-, rfl, rfl⟩ | ⟨function, r, e, v, -, hf, hv, -, rfl⟩⟩ := lower_ret_ok h
    · exact Action.below_simple rfl rfl rfl
    · have hvalue := Expr.lower_below hg hs henv₀ hn hv
      have hsize := (Expr.lower_grown hg henv₀ hv).extend.size_le
      have hlt := Nat.lt_of_lt_of_le (henv.result_lt hf) (hsize.trans hn)
      exact Action.below_behind hvalue.before (Action.below_assign hlt hvalue.value)
  | .stop span =>
    obtain ⟨step, -, rfl, rfl, rfl⟩ := lower_stop_ok h
    exact Action.below_simple rfl rfl rfl
  | .next span =>
    obtain ⟨rfl, rfl, ⟨-, rfl⟩ | ⟨step, hloop, rfl⟩⟩ := lower_next_ok h
    · exact Action.below_simple rfl rfl rfl
    · exact Action.below_block
        (Action.below_cons (henv.step_below hn hloop) (Action.below_simple rfl rfl rfl))
  | .call span name args =>
    obtain ⟨rfl, ⟨decl, splice, vs, t, spliced, hdecl, hcall, hvs, hspliced, rfl⟩ |
      ⟨f, vs, -, -, hvs, rfl⟩⟩ := lower_call_ok h
    · have henv' := henv₀.grown (Expr.lowerList_grown hg henv₀ hvs)
      have hsize :=
        (hg.grown hcall.splice henv' hdecl hcall.not_inlining hspliced).extend.size_le
      have hvalues := Expr.lowerList_below hg hs henv₀ (hsize.trans hn) hvs
      have hbody := hs.below hcall.splice henv' hdecl hcall.not_inlining hvalues.values hn hspliced
      have hbefore := Action.below_append hvalues.before (Action.below_block hbody.body)
      exact Action.below_behind hbefore (Action.below_simple rfl rfl rfl)
    · have hvalues := Expr.lowerArgs_below hg hs henv₀ hn hvs
      exact Action.below_behind hvalues.before
        (Action.below_of_parts rfl hvalues.values Action.throughout_nil)

/-- **The slots in the code for a body.** -/
theorem lowerBody_below {body : List Stmt} {actions : List Action} {env : Env}
    {st st' : LowerState} (hg : Splice.Grows splice?) (hs : Splice.Below n splice?)
    (henv : env.Ready st.slots (nestingBody body)) (hn : st'.slots.size ≤ n)
    (h : lowerBody env splice? body st = .ok actions st') : Action.Below n actions := by
  match body with
  | [] =>
    obtain ⟨rfl, rfl⟩ := lowerBody_nil_ok h
    exact Action.throughout_nil
  | stmt :: body =>
    obtain ⟨scopes', action, t, rest, hstmt, hrest, rfl⟩ := lowerBody_cons_ok h
    rw [nestingBody] at henv
    have hfirst := henv.le (Nat.le_max_left _ _)
    obtain ⟨hk, hd⟩ := lower_kept hg hfirst hstmt
    have hothers := ((henv.kept hk).le (Nat.le_max_right _ _)).declares hd
    have hsize := (lowerBody_kept hg hothers hrest).extend.size_le
    exact Action.below_cons (lower_below hg hs hfirst (hsize.trans hn) hstmt)
      (lowerBody_below hg hs hothers hn hrest)

end

end Stmt

/-! ## Calls -/

namespace FunctionDecl

/-- The slots of the parameters of a call. -/
theorem bindParams_below {params : List (Param × Value)} {scopes' : Scopes}
    {actions : List Action} {st st' : LowerState} {env : Env} (henv : env.Ready st.slots 0)
    (hargs : ∀ p ∈ params, p.2.Below n) (hn : st'.slots.size ≤ n)
    (h : bindParams env params st = .ok (scopes', actions) st') : Action.Below n actions := by
  induction params generalizing env st actions with
  | nil =>
    obtain ⟨-, rfl, -⟩ := bindParams_nil_ok h
    exact Action.throughout_nil
  | cons param rest ih =>
    obtain ⟨p, v⟩ := param
    obtain ⟨hv, hargs⟩ := List.forall_mem_cons.mp hargs
    obtain ⟨hhere, ty, slot, t, actions', -, hslot, hrest, rfl⟩ := bindParams_cons_ok h
    have hgrant := Lower.intern_granted henv.valid henv.depth_lt hslot
    have hd : env.scopes.Declares t.slots
        (env.scopes.declare p.name ⟨ty, false, .slot slot⟩) := .declare .refl hhere rfl hgrant.get?
    have henv' := (henv.granted hgrant).declares hd
    have hsize := (bindParams_kept henv' hrest).1.extend.size_le
    have hlt := Nat.lt_of_lt_of_le hgrant.slot_lt (hsize.trans hn)
    exact Action.below_cons (Action.below_declare hlt hv) (ih henv' hargs hrest)

/-- The slots in the body of a call. -/
theorem inline_below {name : String} {decl : FunctionDecl} {args : List Value} {span : Span}
    {out : Spliced} {st st' : LowerState} (hg : Splice.Grows splice?)
    (hs : Splice.Below n splice?) (henv : env.Ready st.slots 0)
    (hdecl : env.declarations.functions.get? name = some decl) (hnew : decl.name ∉ env.inlining)
    (hargs : ∀ v ∈ args, v.Below n) (hn : st'.slots.size ≤ n)
    (h : inline splice? env decl args span st = .ok out st') : out.Below n := by
  obtain ⟨generics, types, ret, scopes', params, body, t₁, t₂, -, hret, hparams, hbody, rfl⟩ :=
    inline_entered_ok h
  obtain ⟨hvalid, hextend, hnext⟩ := reserveReturn_grown (by exact henv.valid) hret
  have hinner := ready_entered types henv hdecl hnew hvalid hextend hnext
  obtain ⟨hk, hd⟩ := bindParams_kept (hinner.le (Nat.zero_le _)) hparams
  have hbound := (hinner.kept hk).declares hd
  have hn₂ := (Stmt.lowerBody_kept hg hbound hbody).extend.size_le.trans hn
  have hactions := bindParams_below (hinner.le (Nat.zero_le _))
    (fun p hp => hargs p.2 (List.of_mem_zip hp).2) hn₂ hparams
  refine ⟨Action.below_append hactions (Stmt.lowerBody_below hg hs hbound hn hbody), fun r hr => ?_⟩
  exact Nat.lt_of_lt_of_le (hvalid.hidden_lt (hnext r hr).1) (hk.extend.size_le.trans hn₂)

end FunctionDecl

/-- The slots in the body of a call, however deeply calls are inlined. -/
theorem spliceWithin_below (depth : Nat) : Splice.Below n (spliceWithin depth) := by
  induction depth with
  | zero => exact ⟨fun hsplice => by cases hsplice⟩
  | succ depth ih =>
    refine ⟨fun hsplice henv hdecl hnew hargs hn h => ?_⟩
    cases hsplice
    exact FunctionDecl.inline_below (spliceWithin_grows depth) ih henv hdecl hnew hargs hn h

end

/-! ## Programs -/

namespace Program

/-- The slots in the rules of some events, and the number of slots after them. -/
theorem lowerEvents_below {declarations : Declarations} {maxInlineDepth : Nat}
    {events : List EventDecl} {rules : List Rule} {st st' : LowerState}
    (hroom : ∀ event ∈ events, Stmt.nestingBody event.body + 1 +
      Declarations.callNesting [] declarations.functions.entries < Slots.hiddenDepth)
    (hs : st.slots.Valid) (h : lowerEvents declarations maxInlineDepth events st = .ok rules st') :
    st.slots.size ≤ st'.slots.size ∧ ∀ rule ∈ rules, Action.Below st'.slots.size rule.body := by
  induction events generalizing st rules with
  | nil =>
    obtain ⟨rfl, rfl⟩ := lowerEvents_nil_ok h
    exact ⟨Nat.le_refl _, nofun⟩
  | cons event events ih =>
    obtain ⟨hevent, hevents⟩ := List.forall_mem_cons.mp hroom
    obtain ⟨rule, t, rest, hrule, hrest, rfl⟩ := lowerEvents_cons_ok h
    obtain ⟨trigger, scopes, body, t', -, hscopes, hbody, hslots, rfl⟩ := EventDecl.lower_ok hrule
    have hready := EventDecl.ready maxInlineDepth hs hscopes hevent
    have hk := Stmt.lowerBody_kept (spliceWithin_grows _) hready hbody
    obtain ⟨hsize, hothers⟩ := ih hevents (by rw [hslots]; exact hk.valid) hrest
    rw [hslots] at hsize
    have hfirst := Stmt.lowerBody_below (spliceWithin_grows _) (spliceWithin_below _) hready hsize
      hbody
    exact ⟨hk.extend.size_le.trans hsize, List.forall_mem_cons.mpr ⟨hfirst, hothers⟩⟩

variable {options : Options} {program : Program} {rules : List Rule} {st : LowerState}

/-- The slots after a program are those after its events. -/
theorem lower_slots (h : program.lower options = .ok rules st) :
    ∃ d t, Declarations.collect program = .ok d ∧
      lowerEvents d options.maxInlineDepth program.events (start options d) = .ok rules t ∧
      st.slots = t.slots := by
  simp only [lower, EStateM.run, lowerAll, Lower.bind_ok, Lower.ofExcept_ok, Lower.pure_ok] at h
  obtain ⟨d, _, ⟨hcollect, rfl⟩, _, _, hlog, _, t, hrules, _, _, hget, _, _, hlog', rfl, rfl⟩ := h
  cases hlog
  cases hget
  cases hlog'
  exact ⟨d, t, hcollect, hrules, rfl⟩

/-- **The slots in the rules of a program** are among those that were handed out. -/
theorem lower_below (h : program.lower options = .ok rules st)
    (hnesting : program.nesting < Slots.hiddenDepth) :
    ∀ rule ∈ rules, Action.Below st.slots.size rule.body := by
  obtain ⟨d, t, hcollect, hlower, hslots⟩ := lower_slots h
  rw [hslots]
  exact (lowerEvents_below (events_room hcollect hnesting) (Slots.valid_empty _) hlower).2

end Program

end RuleScript
