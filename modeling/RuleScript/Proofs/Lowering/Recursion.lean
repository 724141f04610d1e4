import RuleScript.Proofs.Lowering.Isolation
import RuleScript.Proofs.Lowering.References

/-!
# Calls do not come back

A call is replaced by the body of its function, so lowering would never end if a function could call
itself, on whatever detour. It is stopped by a list of the functions being inlined and by a limit on
their number. What has to be shown is that no call escapes that list: wherever a call stands, also
where it leaves no code behind, a successful lowering has inlined it with the right list.

## Main definitions

* `Program.Calls`: a body calls a function of the program
* `FunctionDecl.Inlined`: a function is inlined while some others are

## Main results

* `Stmt.inlined_of_lowerBody`: every function that a lowered body calls is inlined
* `Program.lower_paths_bounded`: a chain of calls that starts in an event repeats no function and is
  no longer than the limit
-/

namespace RuleScript

namespace TypeExpr

mutual

/-- No function is called in an annotation. -/
theorem function_notMem_references (name : String) :
    ∀ t : TypeExpr, .function name ∉ t.references
  | .named _ _ => by simp [references]
  | .array _ item => function_notMem_references name item
  | .function _ params ret => by
    rw [references, List.mem_append, not_or]
    exact ⟨function_notMem_referencesList name params, function_notMem_referencesOption name ret⟩
  | .variadic _ inner => function_notMem_references name inner
  | .union _ members => function_notMem_referencesList name members

theorem function_notMem_referencesList (name : String) :
    ∀ ts : List TypeExpr, .function name ∉ referencesList ts
  | [] => List.not_mem_nil
  | t :: ts => by
    rw [referencesList, List.mem_append, not_or]
    exact ⟨function_notMem_references name t, function_notMem_referencesList name ts⟩

theorem function_notMem_referencesOption (name : String) :
    ∀ t : Option TypeExpr, .function name ∉ referencesOption t
  | none => List.not_mem_nil
  | some t => function_notMem_references name t

end

end TypeExpr

namespace FunctionDecl

/-- The function is inlined for a call, while the given ones are being inlined around it and with
room for `n` calls inside each other, its own included. -/
structure Inlined (d : Declarations) (inlining : List String) (n : Nat) (decl : FunctionDecl) :
    Prop where
  not_inlining : decl.name ∉ inlining
  succeeds : ∃ m env args span st out st', n = m + 1 ∧ env.declarations = d ∧
    env.inlining = inlining ∧ inline (spliceWithin m) env decl args span st = .ok out st'

end FunctionDecl

section

variable {env : Env} {n : Nat} {name : String} {decl : FunctionDecl} {st st' : LowerState}

open FunctionDecl (Inlined)

/-- A call that may be inlined and is. -/
theorem Env.MayCall.inlined {given : Nat} {splice : Splice} {args : List Value} {span : Span}
    {out : Spliced} (h : env.MayCall (spliceWithin n) decl given splice)
    (hout : splice env decl args span st = .ok out st') :
    decl.Inlined env.declarations env.inlining n := by
  refine ⟨h.not_inlining, ?_⟩
  have hsplice := h.splice
  cases n with
  | zero => cases hsplice
  | succ m =>
    cases hsplice
    exact ⟨m, env, args, span, st, out, st', rfl, rfl, rfl, hout⟩

namespace Expr

mutual

/-- Every function that a lowered expression calls is inlined, also under `typeof`. -/
theorem inlined_of_lower (hdecl : env.declarations.functions.get? name = some decl) {e : Expr}
    {out : Lowered} {st st' : LowerState} (h : e.lower env (spliceWithin n) st = .ok out st')
    (hcall : .function name ∈ e.references) : decl.Inlined env.declarations env.inlining n := by
  match e with
  | .number _ _ | .string _ _ | .boolean _ _ | .ident _ _ => cases hcall
  | .array span item items =>
    obtain ⟨explicit, vs, v, -, hvs, -⟩ := lower_array_ok h
    rcases List.mem_append.mp hcall with hcall | hcall
    · exact absurd hcall (TypeExpr.function_notMem_referencesOption name item)
    · exact inlined_of_lowerList hdecl hvs hcall
  | .binary span op left right =>
    obtain ⟨lhs, t, rhs, v, hlhs, hrhs, -⟩ := lower_binary_ok h
    rcases List.mem_append.mp hcall with hcall | hcall
    · exact inlined_of_lower hdecl hlhs hcall
    · exact inlined_of_lower hdecl hrhs hcall
  | .not span operand =>
    obtain ⟨o, ho, -⟩ := lower_not_ok h
    exact inlined_of_lower hdecl ho hcall
  | .typeOf span operand =>
    -- The code of the operand is dropped, but only after it has been lowered.
    obtain ⟨o, ho, -⟩ := lower_typeOf_ok h
    exact inlined_of_lower hdecl ho hcall
  | .index span object place =>
    obtain ⟨a, t, i, item, ha, hi, -⟩ := lower_index_ok h
    rcases List.mem_append.mp hcall with hcall | hcall
    · exact inlined_of_lower hdecl ha hcall
    · exact inlined_of_lower hdecl hi hcall
  | .call span callee args =>
    rcases lower_call_ok h with
      ⟨decl', splice, vs, t, body, r, hdecl', hmay, hvs, hspliced, -⟩ |
      ⟨f, vs, ty, hnone, -, hvs, -⟩
    · rcases List.mem_cons.mp hcall with hcall | hcall
      · cases hcall
        cases hdecl.symm.trans hdecl'
        exact hmay.inlined hspliced
      · exact inlined_of_lowerList hdecl hvs hcall
    · rcases List.mem_cons.mp hcall with hcall | hcall
      · cases hcall
        cases hdecl.symm.trans hnone
      · exact inlined_of_lowerArgs hdecl hvs hcall

theorem inlined_of_lowerList (hdecl : env.declarations.functions.get? name = some decl)
    {es : List Expr} {vs : LoweredList} {st st' : LowerState}
    (h : lowerList env (spliceWithin n) es st = .ok vs st')
    (hcall : .function name ∈ referencesList es) :
    decl.Inlined env.declarations env.inlining n := by
  match es with
  | [] => cases hcall
  | e :: es =>
    obtain ⟨v, t, rest, hv, hrest, -⟩ := lowerList_cons_ok h
    rcases List.mem_append.mp hcall with hcall | hcall
    · exact inlined_of_lower hdecl hv hcall
    · exact inlined_of_lowerList hdecl hrest hcall

theorem inlined_of_lowerArgs (hdecl : env.declarations.functions.get? name = some decl)
    {f : FunctionDef} {given index : Nat} {span : Span} {params : List ParamDef}
    {bindings : Bindings} {es : List Expr} {vs : LoweredList} {st st' : LowerState}
    (h : lowerArgs env (spliceWithin n) f given span index params bindings es st = .ok vs st')
    (hcall : .function name ∈ referencesList es) :
    decl.Inlined env.declarations env.inlining n := by
  match es with
  | [] => cases hcall
  | e :: es =>
    obtain ⟨p, ps, -, ⟨-, s, text, rest, rfl, hrest, -⟩ |
      ⟨-, v, t, bindings', rest, hv, -, hrest, -⟩⟩ := lowerArgs_cons_ok h
    · exact inlined_of_lowerArgs hdecl hrest hcall
    · rcases List.mem_append.mp hcall with hcall | hcall
      · exact inlined_of_lower hdecl hv hcall
      · exact inlined_of_lowerArgs hdecl hrest hcall

end

end Expr

namespace Stmt

mutual

theorem inlined_of_lower {env : Env} (hdecl : env.declarations.functions.get? name = some decl)
    {s : Stmt} {out : Scopes × Action} {st st' : LowerState}
    (h : s.lower env (spliceWithin n) st = .ok out st') (hcall : .function name ∈ s.references) :
    decl.Inlined env.declarations env.inlining n := by
  obtain ⟨scopes, action⟩ := out
  match s with
  | .block span body =>
    obtain ⟨actions, hbody, -⟩ := lower_block_ok h
    exact (inlined_of_lowerBody (by exact hdecl) hbody hcall :)
  | .declare span x ty value constant =>
    obtain ⟨-, annotated, lowered, t, ty', slot, -, hlowered, -⟩ := lower_declare_ok h
    rcases List.mem_append.mp hcall with hcall | hcall
    · exact absurd hcall (TypeExpr.function_notMem_referencesOption name ty)
    · rcases lowerOption_ok hlowered with ⟨rfl, -⟩ | ⟨e, v, rfl, hv, -⟩
      · cases hcall
      · exact Expr.inlined_of_lower hdecl hv hcall
  | .assign span x value =>
    obtain ⟨ty, slot, v, -, hv, -⟩ := lower_assign_ok h
    exact Expr.inlined_of_lower hdecl hv hcall
  | .assignField span object field value =>
    obtain ⟨o, t, v, ho, hv, -⟩ := lower_assignField_ok h
    rcases List.mem_append.mp hcall with hcall | hcall
    · exact Expr.inlined_of_lower hdecl ho hcall
    · exact Expr.inlined_of_lower hdecl hv hcall
  | .branch span condition body none =>
    obtain ⟨v, t, actions, hv, -, hbody, -⟩ := lower_branch_ok h
    rcases List.mem_append.mp hcall with hcall | hcall
    · exact Expr.inlined_of_lower hdecl hv hcall
    · exact (inlined_of_lowerBody (by exact hdecl) hbody hcall :)
  | .branch span condition body (some otherwise) =>
    obtain ⟨v, t, save, saved, t₁, actions, t₂, actions', hv, -, -, hbody, hother, -⟩ :=
      lower_branchElse_ok h
    rcases List.mem_append.mp hcall with hcall | hcall
    · exact Expr.inlined_of_lower hdecl hv hcall
    · rcases List.mem_append.mp hcall with hcall | hcall
      · exact (inlined_of_lowerBody (by exact hdecl) hbody hcall :)
      · exact (inlined_of_lowerBody (by exact hdecl) hother hcall :)
  | .loop span condition body =>
    obtain ⟨v, t, actions, hv, -, hbody, -⟩ := lower_loop_ok h
    rcases List.mem_append.mp hcall with hcall | hcall
    · exact Expr.inlined_of_lower hdecl hv hcall
    · exact (inlined_of_lowerBody (by exact hdecl) hbody hcall :)
  | .count span marker first limit body =>
    obtain ⟨a, t₁, b, t₂, slot, t₃, actions, ha, hb, -, -, -, hbody, -⟩ := lower_count_ok h
    rcases List.mem_append.mp hcall with hcall | hcall
    · exact (Expr.inlined_of_lower (by exact hdecl) ha hcall :)
    · rcases List.mem_append.mp hcall with hcall | hcall
      · exact (Expr.inlined_of_lower (by exact hdecl) hb hcall :)
      · exact (inlined_of_lowerBody (by exact hdecl) hbody hcall :)
  | .ret span value =>
    obtain ⟨-, ⟨rfl, -⟩ | ⟨function, r, e, v, rfl, -, hv, -⟩⟩ := lower_ret_ok h
    · cases hcall
    · exact Expr.inlined_of_lower hdecl hv hcall
  | .stop span | .next span => cases hcall
  | .call span callee args =>
    obtain ⟨-, ⟨decl', splice, vs, t, spliced, hdecl', hmay, hvs, hspliced, -⟩ |
      ⟨f, vs, hnone, -, hvs, -⟩⟩ := lower_call_ok h
    · rcases List.mem_cons.mp hcall with hcall | hcall
      · cases hcall
        cases hdecl.symm.trans hdecl'
        exact hmay.inlined hspliced
      · exact Expr.inlined_of_lowerList hdecl hvs hcall
    · rcases List.mem_cons.mp hcall with hcall | hcall
      · cases hcall
        cases hdecl.symm.trans hnone
      · exact Expr.inlined_of_lowerArgs hdecl hvs hcall

/-- **Every function that a lowered body calls is inlined**, while the same functions are being
inlined as around the body. -/
theorem inlined_of_lowerBody {env : Env}
    (hdecl : env.declarations.functions.get? name = some decl) {body : List Stmt}
    {actions : List Action} {st st' : LowerState}
    (h : lowerBody env (spliceWithin n) body st = .ok actions st')
    (hcall : .function name ∈ referencesBody body) :
    decl.Inlined env.declarations env.inlining n := by
  match body with
  | [] => cases hcall
  | s :: body =>
    obtain ⟨scopes, action, t, rest, hs, hrest, -⟩ := lowerBody_cons_ok h
    rcases List.mem_append.mp hcall with hcall | hcall
    · exact inlined_of_lower hdecl hs hcall
    · exact (inlined_of_lowerBody (by exact hdecl) hrest hcall :)

end

end Stmt

end

/-! ## Chains of calls -/

/-- The body calls the function, which is one of the program. -/
def Program.Calls (program : Program) (body : List Stmt) (f : FunctionDecl) : Prop :=
  .function f ∈ program.items ∧ .function f.name ∈ Stmt.referencesBody body

variable {options : Options} {program : Program} {d : Declarations}

/-- The function that a body calls is found under its name. -/
theorem Program.Calls.get? {body : List Stmt} {f : FunctionDecl} (h : program.Calls body f)
    (hcollect : Declarations.collect program = .ok d) : d.functions.get? f.name = some f := by
  have hfound := (Declarations.lookup?_collect hcollect).mpr ⟨h.1, rfl⟩
  obtain ⟨g, hg, hsame⟩ := Option.map_eq_some_iff.mp hfound
  cases hsame
  exact hg

namespace FunctionDecl

/-- What an inlined function calls is inlined inside it. -/
theorem Inlined.calls {f g : FunctionDecl} {inlining : List String} {n : Nat}
    (h : f.Inlined d inlining n) (hcollect : Declarations.collect program = .ok d)
    (hcalls : program.Calls f.body g) : ∃ m, n = m + 1 ∧ g.Inlined d (f.name :: inlining) m := by
  obtain ⟨-, m, env, args, span, st, out, st', rfl, rfl, rfl, hinline⟩ := h
  obtain ⟨generics, bindings, ret, scopes, params, body, t₁, t₂, -, -, -, -, hbody, -⟩ :=
    inline_ok hinline
  exact ⟨m, rfl, Stmt.inlined_of_lowerBody (by exact hcalls.get? hcollect) hbody hcalls.2⟩

/-- A chain of calls that starts with an inlined function has no more functions than there is room
for, none of them twice and none that is being inlined around it. -/
theorem Inlined.path {f : FunctionDecl} {inlining : List String} {n : Nat}
    {path : List FunctionDecl} (h : f.Inlined d inlining n)
    (hcollect : Declarations.collect program = .ok d)
    (hpath : (f :: path).IsChain fun f g => program.Calls f.body g) :
    ((f :: path).map (·.name)).Nodup ∧ (f :: path).length ≤ n ∧
      ∀ g ∈ f :: path, g.name ∉ inlining := by
  induction path generalizing f inlining n with
  | nil =>
    obtain ⟨m, -, -, -, -, -, -, rfl, -⟩ := h.succeeds
    exact ⟨by simp, by simp, by simpa using h.not_inlining⟩
  | cons g path ih =>
    obtain ⟨hcalls, hrest⟩ := List.isChain_cons_cons.mp hpath
    obtain ⟨m, rfl, hg⟩ := h.calls hcollect hcalls
    obtain ⟨hnodup, hlength, hnew⟩ := ih hg hrest
    refine ⟨?_, Nat.succ_le_succ hlength, ?_⟩
    · rw [List.map_cons, List.nodup_cons]
      refine ⟨fun hmem => ?_, hnodup⟩
      obtain ⟨g', hg', hname⟩ := List.mem_map.mp hmem
      exact hnew g' hg' (hname ▸ List.mem_cons_self)
    · rintro g' (_ | ⟨_, hg'⟩) hinlining
      · exact h.not_inlining hinlining
      · exact hnew g' hg' (List.mem_cons_of_mem _ hinlining)

end FunctionDecl

namespace Program

/-- What an event calls is inlined, with nothing around it. -/
theorem inlined_of_event {rules : List Rule} {st : LowerState} {e : EventDecl} {f : FunctionDecl}
    (h : program.lower options = .ok rules st) (hevent : .event e ∈ program.items)
    (hcalls : program.Calls e.body f) :
    ∃ d, Declarations.collect program = .ok d ∧ f.Inlined d [] options.maxInlineDepth := by
  obtain ⟨d, t, hcollect, hlower⟩ := lower_ok h
  obtain ⟨before, after, hevents⟩ := List.append_of_mem (mem_events.mpr hevent)
  rw [hevents] at hlower
  obtain ⟨rules₁, t₁, rules₂, -, hrest, -⟩ := lowerEvents_append_ok hlower
  obtain ⟨rule, t₂, rest, hrule, -⟩ := lowerEvents_cons_ok hrest
  obtain ⟨trigger, scopes, body, t₃, -, -, hbody, -⟩ := EventDecl.lower_ok hrule
  exact ⟨d, hcollect, Stmt.inlined_of_lowerBody (hcalls.get? hcollect) hbody hcalls.2⟩

/-- **Calls do not come back.** If a program is lowered without an error, then no chain of calls
that starts in an event, each function called in the body of the one before it, has a function
twice, and none has more functions than calls may be inlined into each other. -/
theorem lower_paths_bounded {rules : List Rule} {st : LowerState} {e : EventDecl}
    {f : FunctionDecl} {path : List FunctionDecl} (h : program.lower options = .ok rules st)
    (hevent : .event e ∈ program.items) (hcalls : program.Calls e.body f)
    (hpath : (f :: path).IsChain fun f g => program.Calls f.body g) :
    ((f :: path).map (·.name)).Nodup ∧ (f :: path).length ≤ options.maxInlineDepth := by
  obtain ⟨d, hcollect, hf⟩ := inlined_of_event h hevent hcalls
  obtain ⟨hnodup, hlength, -⟩ := hf.path hcollect hpath
  exact ⟨hnodup, hlength⟩

/-- A function without calls. -/
def one : FunctionDecl :=
  ⟨"one", [], [], some (.named .zero "number"), [.ret .zero (some (.number .zero 1.0))], .zero⟩

/-- A function that calls another one. -/
def callsOne : FunctionDecl :=
  ⟨"callsOne", [], [], some (.named .zero "number"), [.ret .zero (some (.call .zero "one" []))],
    .zero⟩

/-- An event that calls a function only to ask for the type of its value, in an argument. -/
def asksType : EventDecl :=
  ⟨"server", [], [.call .zero "show" [.typeOf .zero (.call .zero "callsOne" [])]], .zero⟩

/-- A program in which the code of two calls is dropped. -/
def typeOfCall : Program :=
  ⟨[.event asksType,
    .function ⟨"show", [], [⟨"text", .named .zero "string", .zero⟩], none, [], .zero⟩,
    .function callsOne,
    .function one]⟩

theorem lower_paths_bounded_typeOfCall : typeOfCall.Calls asksType.body callsOne ∧
    typeOfCall.Calls callsOne.body one ∧ ∃ rules st,
      typeOfCall.lower { maxInlineDepth := 2 } = .ok rules st ∧
      ([callsOne, one].map (·.name)).Nodup ∧ [callsOne, one].length ≤ 2 := by
  have hfirst : typeOfCall.Calls asksType.body callsOne := ⟨by simp [typeOfCall], by decide⟩
  have hsecond : typeOfCall.Calls callsOne.body one := ⟨by simp [typeOfCall], by decide⟩
  obtain ⟨rules, st, hlower⟩ : ∃ rules st,
      typeOfCall.lower { maxInlineDepth := 2 } = .ok rules st :=
    exists_of_lowers (by decide +kernel)
  have hbounded := lower_paths_bounded hlower (by simp [typeOfCall]) hfirst
    (List.isChain_cons_cons.mpr ⟨hsecond, .singleton one⟩)
  exact ⟨hfirst, hsecond, rules, st, hlower, hbounded⟩

end Program

end RuleScript
