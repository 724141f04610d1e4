import RuleScript.Proofs.Typing.SlotPlan

/-!
# Lowered code refuses no read

Code for a part of a program can be marked as the program asks for, and it makes sense at its place:
it keeps the types of the slots, whatever the slots without a name are for elsewhere.

## Main definitions

* `Expr.Sensible`, `Stmt.Sensible`, `FunctionDecl.Sensible`: marked code that makes sense where it
  stands
* `Splice.Sensible`: code for calls can be marked so

## Main results

* `Expr.lower_sensible`, `Stmt.lower_sensible`: what an expression or a statement is lowered to
* `spliceWithin_sensible`: what calls are lowered to, however deeply they are inlined
-/

namespace RuleScript

open RuleScript.Computation

variable {plan : SlotPlan} {env : Env} {splice? : Option Splice} {st st' : LowerState}

/-! ## Expressions -/

/-- Marked code for an expression, and its value. -/
structure Expr.Sensible (plan : SlotPlan) (env : Env) (e : Expr) (ms : List Marked) (v : Value) :
    Prop where
  marks : e.Marks env.declarations plan.slots env.scopes.depth ms
  keeps : plan.Keeps env.scopes ms env.scopes
  gives : plan.Gives env.scopes v

/-- Marked code for some expressions, and what holds of their values. -/
structure Expr.SensibleList (plan : SlotPlan) (env : Env) (P : Value → Prop) (es : List Expr)
    (ms : List Marked) (vs : List Value) : Prop where
  marks : Expr.MarksList env.declarations plan.slots env.scopes.depth es ms
  keeps : plan.Keeps env.scopes ms env.scopes
  values : ∀ v ∈ vs, P v

/-- Marked code for a call, whose return value has its type in the plan. -/
structure Expr.SensibleCall (plan : SlotPlan) (env : Env) (name : String) (args : List Expr)
    (ms : List Marked) (ret : Option ReturnSlot) : Prop where
  marks : Expr.MarksCall env.declarations plan.slots env.scopes.depth name args ms
  keeps : plan.Keeps env.scopes ms env.scopes
  result : ∀ r, ret = some r → plan.types r.slot = some r.ty

/-- Marked code for the body of a call, whose return value has its type in the plan. -/
structure FunctionDecl.Sensible (plan : SlotPlan) (env : Env) (decl : FunctionDecl)
    (ms : List Marked) (ret : Option ReturnSlot) : Prop where
  marks : decl.Marks env.declarations plan.slots env.scopes.depth ms
  keeps : plan.Keeps env.scopes ms env.scopes
  result : ∀ r, ret = some r → plan.types r.slot = some r.ty

variable {s t u : Slots} {P : SlotPlan → Value → Prop}

/-- What an expression is lowered to between two states can be marked. -/
def Lowered.Sound (env : Env) (s t : Slots) (e : Expr) (out : Lowered) : Prop :=
  ∃ ms, Marked.eraseBody ms = out.before ∧ Planned s t fun plan =>
    plan.Fits (env.scopes.depth + 1) env.scopes → e.Sensible plan env ms out.value

/-- What some expressions are lowered to between two states can be marked. -/
def LoweredList.Sound (env : Env) (P : SlotPlan → Value → Prop) (s t : Slots) (es : List Expr)
    (out : LoweredList) : Prop :=
  ∃ ms, Marked.eraseBody ms = out.before ∧ Planned s t fun plan =>
    plan.Fits (env.scopes.depth + 1) env.scopes →
      Expr.SensibleList plan env (P plan) es ms out.values

/-- The code for a call between two states can be marked. -/
def Spliced.Sound (env : Env) (s t : Slots) (decl : FunctionDecl) (args : List Value)
    (out : Spliced) : Prop :=
  ∃ ms, Marked.eraseBody ms = out.body ∧ Planned s t fun plan =>
    plan.Fits (env.scopes.depth + 1) env.scopes → (∀ v ∈ args, plan.Gives env.scopes v) →
    decl.Sensible plan env ms out.ret

/-- Code for calls can be marked. -/
structure Splice.Sensible (splice? : Option Splice) : Prop where
  grows : Splice.Grows splice?
  sound : ∀ {splice env name decl args span st out st'}, splice? = some splice →
    env.Ready st.slots 0 → env.declarations.functions.get? name = some decl →
    decl.name ∉ env.inlining → args.length = decl.params.length →
    splice env decl args span st = .ok out st' → out.Sound env st.slots st'.slots decl args

/-- A value without code, and without expressions in it. -/
theorem Lowered.Sound.leaf {e : Expr} {v : Value} (hcall : (Task.expr e).call? = none)
    (hkept : e.kept = []) (hv : ∀ plan : SlotPlan, plan.Gives env.scopes v) :
    Lowered.Sound env s t e ⟨[], v⟩ :=
  ⟨[], rfl, .of_forall fun plan _ _ => ⟨.kept hcall (hkept ▸ .nil), fun _ _ _ _ => .nil, hv plan⟩⟩

/-- Values without code. -/
theorem LoweredList.Sound.nil {vs : List Value} (hvs : ∀ v ∈ vs, ∀ plan, P plan v) :
    LoweredList.Sound env P s t [] ⟨[], vs⟩ :=
  ⟨[], rfl, .of_forall fun plan _ _ => ⟨.nil, .nil, fun v hv => hvs v hv plan⟩⟩

namespace Lowered.Sound

variable {e e' : Expr} {v v' : Lowered} {depth depth' : Nat}

/-- An expression and more expressions after it. -/
theorem cons {es : List Expr} {vs : LoweredList} (h : v.Sound env s t e)
    (h' : vs.Sound env P t u es) (hg : Grown depth s t v.before)
    (hg' : Grown depth' t u vs.before)
    (hP : ∀ plan : SlotPlan, plan.Gives env.scopes v.value → P plan v.value) :
    LoweredList.Sound env P s u (e :: es) ⟨v.before ++ vs.before, v.value :: vs.values⟩ := by
  obtain ⟨ms, hms, hplanned⟩ := h
  obtain ⟨ms', hms', hplanned'⟩ := h'
  refine ⟨ms ++ ms', by rw [Marked.eraseBody_append, hms, hms'], ?_⟩
  refine (hplanned.and hplanned' hg.extend hg.valid hg'.extend).imp fun plan _ hboth hfits => ?_
  have hhead := hboth.1 hfits
  have htail := hboth.2 hfits
  exact ⟨.cons hhead.marks htail.marks, hhead.keeps.append htail.keeps (.refl _),
    List.forall_mem_cons.mpr ⟨hP plan hhead.gives, htail.values⟩⟩

theorem single (h : v.Sound env s t e) :
    LoweredList.Sound env (·.Gives env.scopes ·) s t [e] ⟨v.before, [v.value]⟩ := by
  obtain ⟨ms, hms, hplanned⟩ := h
  refine ⟨ms, hms, hplanned.imp fun plan _ hsensible hfits => ?_⟩
  obtain ⟨hmarks, hkeeps, hgives⟩ := hsensible hfits
  exact ⟨by simpa using Expr.MarksList.cons hmarks .nil, hkeeps, by simpa using hgives⟩

theorem pair (h : v.Sound env s t e) (h' : v'.Sound env t u e') (hg : Grown depth s t v.before)
    (hg' : Grown depth' t u v'.before) :
    LoweredList.Sound env (·.Gives env.scopes ·) s u [e, e']
      ⟨v.before ++ v'.before, [v.value, v'.value]⟩ :=
  h.cons h'.single hg hg' fun _ => id

/-- An expression that is made of others. -/
theorem compound {before : List Action} {values : List Value} {v : Value}
    (hcall : (Task.expr e).call? = none)
    (h : LoweredList.Sound env (·.Gives env.scopes ·) s t e.kept ⟨before, values⟩)
    (hv : ∀ plan : SlotPlan, (∀ v ∈ values, plan.Gives env.scopes v) →
      plan.Gives env.scopes v) : Lowered.Sound env s t e ⟨before, v⟩ := by
  obtain ⟨ms, hms, hplanned⟩ := h
  refine ⟨ms, hms, hplanned.imp fun plan _ hsensible hfits => ?_⟩
  obtain ⟨hmarks, hkeeps, hgives⟩ := hsensible hfits
  exact ⟨.kept hcall hmarks, hkeeps, hv plan hgives⟩

end Lowered.Sound

namespace LoweredList.Sound

variable {vs : LoweredList}

/-- A call of one of the program's own functions. -/
theorem own {args : List Expr} {name : String} {decl : FunctionDecl} {splice : Splice}
    {out : Spliced} {span : Span} {mid : LowerState}
    (h : vs.Sound env (·.Gives env.scopes ·) st.slots mid.slots args)
    (hs : Splice.Sensible splice?) (henv : env.Ready st.slots 0)
    (hdecl : env.declarations.functions.get? name = some decl)
    (hcall : env.MayCall splice? decl args.length splice)
    (hvs : Expr.lowerList env splice? args st = .ok vs mid)
    (hspliced : splice env decl vs.values span mid = .ok out st') :
    ∃ ms, Marked.eraseBody ms = vs.before ++ [.block out.body] ∧
      Planned st.slots st'.slots fun plan => plan.Fits (env.scopes.depth + 1) env.scopes →
        Expr.SensibleCall plan env name args ms out.ret := by
  have hgrown := Expr.lowerList_grown hs.grows henv hvs
  have henv' := henv.grown hgrown
  have hgrown' := hs.grows.grown hcall.splice henv' hdecl hcall.not_inlining hspliced
  have hlen : vs.values.length = decl.params.length := by
    rw [Expr.lowerList_length hvs, hcall.arity]
  obtain ⟨ms, hms, hargs⟩ := h
  obtain ⟨ms', hms', hbody⟩ :=
    hs.sound hcall.splice henv' hdecl hcall.not_inlining hlen hspliced
  refine ⟨ms ++ [.block ms'], ?_, ?_⟩
  · rw [Marked.eraseBody_append, hms, Marked.eraseBody, Marked.eraseBody, Marked.erase, hms']
  · have hall := hargs.and hbody hgrown.extend hgrown.valid hgrown'.extend
    refine hall.imp fun plan _ hboth hfits => ?_
    have hsensible := hboth.1 hfits
    obtain ⟨hmarks, hkeeps, hresult⟩ := hboth.2 hfits hsensible.values
    have hcode := hsensible.keeps.append hkeeps.block (.refl _)
    exact ⟨.own hdecl hsensible.marks hmarks, hcode, hresult⟩

end LoweredList.Sound

namespace Expr

/-- The value of a name. -/
theorem ident_gives {span : Span} {name : String} {v : Value} (h : env.ident span name = .ok v) :
    plan.Gives env.scopes v := by
  intro target guard hguard hprovides
  unfold Env.ident at h
  split at h
  case h_1 ty mutable slot hb =>
    cases h
    exact .read (.inr ⟨mutable, Scopes.binds_of_binding? hb⟩)
  case h_2 ty mutable text hb =>
    cases h
    exact .constant (hprovides _ _ _ (Scopes.binds_of_binding? hb))
  case h_3 =>
    split at h
    case h_1 c hc =>
      cases h
      exact .constant (hguard.constant hc)
    case h_2 => cases h

/-- The value of an array. -/
theorem array_gives {explicit : Option Ty} {span : Span} {vs : List Value} {v : Value}
    (h : Value.ofItems explicit vs span = .ok v) (hvs : ∀ v ∈ vs, plan.Gives env.scopes v) :
    plan.Gives env.scopes v := by
  obtain ⟨item, -, hitems, rfl⟩ := Value.ofItems_ok h
  intro target guard hguard hprovides
  refine .array (L := (guard item · = true)) (fun v hv => ?_) fun ds hds => hguard.list hds
  obtain ⟨b, b', hfits⟩ := Value.checkItems_ok hitems v hv
  exact (hvs v hv target guard hguard hprovides).mono fun d hd => hguard.fits hfits hd

/-- The value of an operation. -/
theorem binary_gives {op : BinOp} {lhs rhs v : Value} {span : Span}
    (h : Value.combine op lhs rhs span = .ok v) (hl : plan.Gives env.scopes lhs)
    (hr : plan.Gives env.scopes rhs) : plan.Gives env.scopes v := by
  simp only [Value.combine, Except.bind_eq_ok] at h
  obtain ⟨ty, hty, h⟩ := h
  cases h
  intro target guard hguard hprovides
  exact .binary (hl _ _ hguard hprovides) (hr _ _ hguard hprovides)
    fun a b ha hb => hguard.apply hty ha hb

theorem negate_gives {v : Value} (h : plan.Gives env.scopes v) :
    plan.Gives env.scopes v.negate :=
  fun _ _ hguard hprovides => .not (h _ _ hguard hprovides) hguard.truth

theorem index_gives {a place : Value} {item : Ty} (hty : a.ty = .array item)
    (ha : plan.Gives env.scopes a) (hplace : plan.Gives env.scopes place) :
    plan.Gives env.scopes (.index item a place) := by
  intro target guard hguard hprovides
  refine .index (ha _ _ hguard hprovides) (hplace _ _ hguard hprovides) fun x i hx => ?_
  rw [hty] at hx
  exact hguard.item hx

/-- The constants for arguments that are left out. -/
theorem defaults_harmless {params : List ParamDef} {values : List Value} {scopes : Scopes}
    (h : Value.defaults? params = some values) : ∀ v ∈ values, plan.Harmless scopes v := by
  induction params generalizing values with
  | nil =>
    cases h
    exact fun v hv => absurd hv List.not_mem_nil
  | cons p ps ih =>
    rw [Value.defaults?] at h
    split at h
    · cases h
      exact fun v hv => absurd hv List.not_mem_nil
    · cases hp : p.default? with
      | none =>
        rw [hp] at h
        cases h
      | some text =>
        simp only [hp, Option.map_eq_some_iff] at h
        obtain ⟨rest, hrest, rfl⟩ := h
        exact List.forall_mem_cons.mpr
          ⟨fun _ _ _ _ => .constant (Ensures.trivial _), ih hrest⟩

mutual

/-- **What an expression is lowered to.** -/
theorem lower_sensible {e : Expr} {out : Lowered} {st st' : LowerState}
    (hs : Splice.Sensible splice?) (henv : env.Ready st.slots 0)
    (h : e.lower env splice? st = .ok out st') : out.Sound env st.slots st'.slots e := by
  match e with
  | .number span x =>
    obtain ⟨rfl, rfl⟩ := Lower.pure_ok.mp h
    exact .leaf rfl rfl fun _ _ _ hguard _ => .number (hguard.number x)
  | .boolean span b =>
    obtain ⟨rfl, rfl⟩ := Lower.pure_ok.mp h
    exact .leaf rfl rfl fun _ _ _ hguard _ => .boolean (hguard.truth b)
  | .string span s =>
    obtain ⟨rfl, rfl⟩ := lower_string_ok h
    exact .leaf rfl rfl fun _ _ _ hguard _ => .string (hguard.text s)
  | .ident span name =>
    obtain ⟨v, hv, rfl, rfl⟩ := lower_ident_ok h
    exact .leaf rfl rfl fun _ => ident_gives hv
  | .array span item items =>
    obtain ⟨explicit, vs, v, -, hvs, hv, rfl⟩ := lower_array_ok h
    exact .compound rfl (lowerList_sensible hs henv hvs) fun _ => array_gives hv
  | .binary span op left right =>
    obtain ⟨lhs, t, rhs, v, hlhs, hrhs, hv, rfl⟩ := lower_binary_ok h
    have hgrown := lower_grown hs.grows henv hlhs
    have hgrown' := lower_grown hs.grows (henv.grown hgrown) hrhs
    have hboth := (lower_sensible hs henv hlhs).pair (lower_sensible hs (henv.grown hgrown) hrhs)
      hgrown hgrown'
    refine .compound rfl hboth fun _ hvs => ?_
    exact binary_gives hv (hvs _ (by simp)) (hvs _ (by simp))
  | .not span operand =>
    obtain ⟨o, ho, -, rfl⟩ := lower_not_ok h
    refine .compound rfl (lower_sensible hs henv ho).single fun _ hvs => ?_
    exact negate_gives (hvs _ (by simp))
  | .typeOf span operand =>
    obtain ⟨o, ho, rfl⟩ := lower_typeOf_ok h
    exact .leaf rfl rfl fun _ _ _ hguard _ => .string (hguard.text _)
  | .index span object place =>
    obtain ⟨a, t, i, item, ha, hi, hty, -, rfl⟩ := lower_index_ok h
    have hgrown := lower_grown hs.grows henv ha
    have hgrown' := lower_grown hs.grows (henv.grown hgrown) hi
    have hboth := (lower_sensible hs henv ha).pair (lower_sensible hs (henv.grown hgrown) hi)
      hgrown hgrown'
    refine .compound rfl hboth fun _ hvs => ?_
    exact index_gives hty (hvs _ (by simp)) (hvs _ (by simp))
  | .call span name args =>
    rcases lower_call_ok h with
      ⟨decl, splice, vs, t, body, r, hdecl, hcall, hvs, hspliced, rfl⟩ |
      ⟨f, vs, ty, hdecl, hf, hvs, hret, rfl⟩
    · obtain ⟨ms, hms, hplanned⟩ :=
        (lowerList_sensible hs henv hvs).own hs henv hdecl hcall hvs hspliced
      refine ⟨ms, hms, hplanned.imp fun plan _ hsensible hfits => ?_⟩
      obtain ⟨hmarks, hkeeps, hresult⟩ := hsensible hfits
      exact ⟨.call hmarks, hkeeps, fun _ _ _ _ => .read (.inl (hresult r rfl))⟩
    · obtain ⟨ms, hms, hplanned⟩ := lowerArgs_sensible hs henv hvs
      refine ⟨ms, hms, hplanned.imp fun plan _ hsensible hfits => ?_⟩
      obtain ⟨hmarks, hkeeps, hvalues⟩ := hsensible hfits
      refine ⟨.call (.target hdecl hmarks), hkeeps, fun target guard hguard hprovides => ?_⟩
      exact .call (fun v hv => hvalues v hv _ _ hguard hprovides) fun ds => hguard.value hf hret

theorem lowerList_sensible {es : List Expr} {vs : LoweredList} {st st' : LowerState}
    (hs : Splice.Sensible splice?) (henv : env.Ready st.slots 0)
    (h : lowerList env splice? es st = .ok vs st') :
    vs.Sound env (·.Gives env.scopes ·) st.slots st'.slots es := by
  match es with
  | [] =>
    obtain ⟨rfl, rfl⟩ := lowerList_nil_ok h
    exact .nil fun v hv => absurd hv List.not_mem_nil
  | e :: es =>
    obtain ⟨v, t, rest, hv, hrest, rfl⟩ := lowerList_cons_ok h
    have hgrown := lower_grown hs.grows henv hv
    have hgrown' := lowerList_grown hs.grows (henv.grown hgrown) hrest
    exact (lower_sensible hs henv hv).cons (lowerList_sensible hs (henv.grown hgrown) hrest) hgrown
      hgrown' fun _ => id

/-- What the arguments of a target function are lowered to. -/
theorem lowerArgs_sensible {f : FunctionDef} {given index : Nat} {span : Span}
    {params : List ParamDef} {bindings : Bindings} {es : List Expr} {vs : LoweredList}
    {st st' : LowerState} (hs : Splice.Sensible splice?) (henv : env.Ready st.slots 0)
    (h : lowerArgs env splice? f given span index params bindings es st = .ok vs st') :
    vs.Sound env (·.Harmless env.scopes ·) st.slots st'.slots es := by
  match es with
  | [] =>
    obtain ⟨values, hvalues, rfl, rfl⟩ := lowerArgs_nil_ok h
    exact .nil fun v hv plan => defaults_harmless hvalues v hv
  | e :: es =>
    obtain ⟨p, ps, -, ⟨-, s, text, rest, rfl, hrest, rfl⟩ |
      ⟨-, v, t, bindings', rest, hv, -, hrest, rfl⟩⟩ := lowerArgs_cons_ok h
    · have hgrown := lowerArgs_grown hs.grows henv hrest
      have htemplate : Lowered.Sound env st.slots st.slots (.string s text)
          ⟨[], .template .string text⟩ :=
        .leaf rfl rfl fun _ _ _ hguard _ => .template (hguard.text text)
      have hnone : Grown env.scopes.depth st.slots st.slots [] := .nil henv.valid
      exact htemplate.cons (lowerArgs_sensible hs henv hrest) hnone hgrown
        fun _ => SlotPlan.Gives.harmless
    · have hgrown := lower_grown hs.grows henv hv
      have hgrown' := lowerArgs_grown hs.grows (henv.grown hgrown) hrest
      exact (lower_sensible hs henv hv).cons (lowerArgs_sensible hs (henv.grown hgrown) hrest)
        hgrown hgrown' fun _ => SlotPlan.Gives.harmless

end

end Expr

/-! ## Statements -/

/-- Marked code for a statement, after which these scopes are open. -/
structure Stmt.Sensible (plan : SlotPlan) (env : Env) (stmt : Stmt) (m : Marked)
    (scopes' : Scopes) : Prop where
  marks : stmt.Marks env.declarations plan.slots env.scopes.depth m
  keeps : plan.Keeps env.scopes [m] scopes'

/-- Marked code for the statements of a body. -/
structure Stmt.SensibleBody (plan : SlotPlan) (env : Env) (body : List Stmt) (ms : List Marked) :
    Prop where
  marks : Stmt.MarksBody env.declarations plan.slots env.scopes.depth body ms
  keeps : plan.Keeps env.scopes ms env.scopes

namespace Stmt

/-- What a statement is lowered to between two states can be marked. -/
def Sound (env : Env) (s t : Slots) (stmt : Stmt) (scopes' : Scopes) (action : Action) : Prop :=
  ∃ m : Marked, m.erase = action ∧ Planned s t fun plan =>
    plan.Fits env.scopes.depth env.scopes → stmt.Sensible plan env m scopes'

/-- What the statements of a body are lowered to between two states can be marked. -/
def SoundBody (env : Env) (s t : Slots) (body : List Stmt) (actions : List Action) : Prop :=
  ∃ ms, Marked.eraseBody ms = actions ∧ Planned s t fun plan =>
    plan.Fits env.scopes.depth env.scopes → SensibleBody plan env body ms

/-- What the statements inside a new scope are lowered to between two states can be marked. -/
def SoundInside (env : Env) (s t : Slots) (body : List Stmt) (actions : List Action) : Prop :=
  ∃ ms, Marked.eraseBody ms = actions ∧ Planned s t fun plan =>
    plan.Fits env.scopes.depth env.scopes →
      MarksBody env.declarations plan.slots (env.scopes.depth + 1) body ms ∧
        plan.Keeps env.scopes ms env.scopes

/-- What saves a condition between two states can be marked. -/
def SoundSave (s t : Slots) (condition saved : Value) (save : List Action) : Prop :=
  ∃ ms, Marked.eraseBody ms = save ∧ Marked.isUnmarkedBody ms = true ∧ Planned s t fun plan =>
    ∀ n scopes, plan.Fits n scopes → plan.Gives scopes condition →
      plan.Keeps scopes ms scopes ∧ plan.Gives scopes saved

section

variable {stmt : Stmt} {scopes' : Scopes} {span : Span}

/-- A statement without statements inside it: an action behind the code of its expressions. -/
theorem Sound.plain {before : List Action} {values : List Value} {m : Marked}
    (hstmt : stmt.isPlain = true) (hm : m.isUnmarked = true)
    (h : LoweredList.Sound env (·.Gives env.scopes ·) s t stmt.parts ⟨before, values⟩)
    (htu : t.Extends u)
    (hkeeps : ∀ plan : SlotPlan, u.Extends plan.slots → plan.Fits env.scopes.depth env.scopes →
      (∀ v ∈ values, plan.Gives env.scopes v) → plan.Keeps env.scopes [m] scopes') :
    stmt.Sound env s u scopes' (.behind before m.erase) := by
  obtain ⟨ms, rfl, hplanned⟩ := h
  refine ⟨.behind ms m, Marked.erase_behind ms m, (hplanned.extend htu).imp ?_⟩
  intro plan hplan hsensible hfits
  obtain ⟨hmarks, hbefore, hvalues⟩ := hsensible (hfits.of_le (Nat.le_succ _) (Nat.le_refl _))
  exact ⟨.plain hstmt hm hmarks,
    (hbefore.append (hkeeps plan hplan hfits hvalues) (.refl _)).behind⟩

/-- A statement without expressions. -/
theorem Sound.alone {m : Marked} (hstmt : stmt.isPlain = true) (hparts : stmt.parts = [])
    (hm : m.isUnmarked = true)
    (hkeeps : ∀ plan : SlotPlan, plan.Fits env.scopes.depth env.scopes →
      plan.Keeps env.scopes [m] scopes') : stmt.Sound env s t scopes' m.erase := by
  refine ⟨m, rfl, .of_forall fun plan _ hfits => ⟨?_, hkeeps plan hfits⟩⟩
  show stmt.Marks env.declarations plan.slots env.scopes.depth (.behind [] m)
  exact .plain hstmt hm (hparts ▸ .nil)

/-- The steps of a declaration. -/
theorem lower_declare_sensible {name : String} {ty : Option TypeExpr} {value : Option Expr}
    {constant : Bool} {action : Action} (hs : Splice.Sensible splice?) (henv : env.Ready st.slots 0)
    (h : (Stmt.declare span name ty value constant).lower env splice? st =
      .ok (scopes', action) st') :
    (Stmt.declare span name ty value constant).Sound env st.slots st'.slots scopes' action := by
  obtain ⟨hhere, annotated, lowered, t, ty', slot, -, hlowered, hty, hslot, rfl, rfl⟩ :=
    lower_declare_ok h
  rcases lowerOption_ok hlowered with ⟨rfl, rfl, rfl⟩ | ⟨e, v, rfl, hv, rfl⟩
  · have hgrant := Lower.intern_granted henv.valid henv.depth_lt hslot
    refine ⟨.opened slot, rfl, .of_forall fun plan hplan hfits => ?_⟩
    have hnamed := hplan.get? hgrant.get?
    exact ⟨.opened hnamed, .opened hhere hnamed⟩
  · have hgrown := Expr.lower_grown hs.grows henv hv
    have hgrant := Lower.intern_granted hgrown.valid henv.depth_lt hslot
    refine Sound.plain (m := .declare slot ty' v.value) rfl rfl
      (Expr.lower_sensible hs henv hv).single hgrant.extend fun plan hplan hfits hvalues => ?_
    exact .declare hfits (Nat.le_refl _) hhere (hplan.get? hgrant.get?) (hvalues _ (by simp))
      fun hguard d hd => declaredType_sound hguard hty hd

/-- The condition of a branch with an alternative. -/
theorem saveCondition_sensible {condition saved : Value} {save : List Action}
    (hst : st.slots.Valid) (hty : condition.ty = .boolean)
    (h : saveCondition condition span st = .ok (save, saved) st') :
    SoundSave st.slots st'.slots condition saved save := by
  rcases saveCondition_ok h with ⟨-, rfl, rfl, rfl⟩ | ⟨slot, hslot, rfl, rfl⟩
  · exact ⟨[], rfl, rfl, .of_forall fun plan _ n scopes _ hv => ⟨.nil, hv⟩⟩
  · obtain ⟨-, -, hhidden, rfl⟩ := Lower.fresh_granted hst hslot
    refine ⟨[.declare _ .boolean condition], rfl, rfl, ?_⟩
    have hfresh : Planned st.slots st'.slots fun plan => plan.types st.slots.size = some .boolean :=
      .fresh (Nat.le_refl _) hhidden
    refine hfresh.imp fun plan _ htype n scopes hfits hv => ?_
    exact ⟨.save hfits (hty ▸ htype) hv, fun _ _ _ _ => .read (.inl htype)⟩

/-- The step of a counting loop. -/
theorem step_keeps {n : Nat} {scopes : Scopes} {slot : Slot} (hfits : plan.Fits n scopes)
    (hty : plan.slotTypes scopes slot .number) :
    plan.Keeps scopes
      [.assign slot (.binary .number .add (.read .number slot) (.number .number 1.0))] scopes := by
  refine .assign hfits hty (fun target guard hguard _ => ?_) fun _ _ => id
  have hsum : BinOp.add.resultType .number .number Span.zero = .ok .number := rfl
  exact .binary (.read hty) (.number (hguard.number _)) fun a b ha hb => hguard.apply hsum ha hb

/-- The scopes inside a counting loop, before that of the body. -/
def markerScopes (scopes : Scopes) (marker : String) (slot : Slot) : Scopes :=
  (scopes.push .block).declare marker ⟨.number, true, .slot slot⟩

/-- A counting loop. The limit is evaluated in each round, when the marker is in its slot already,
but it was lowered before that: it makes sense in a plan in which the slot has the type of the
marker all the time. -/
theorem count_keeps {scopes : Scopes} {marker : String} {slot : Slot} {a b : Value}
    {check ms : List Marked} (hfits : plan.Fits scopes.depth scopes)
    (hnamed : plan.slots.get? ⟨marker, scopes.depth + 1⟩ = some slot)
    (hlt : scopes.depth + 1 < Slots.hiddenDepth) (ha : a.ty = .number) (hb : b.ty = .number)
    (hgives : plan.Gives (scopes.push .block) a)
    (hcheck : (plan.withType slot .number).Keeps (scopes.push .block) check (scopes.push .block))
    (hgives' : (plan.withType slot .number).Gives (scopes.push .block) b)
    (hbody : plan.Keeps (markerScopes scopes marker slot) ms (markerScopes scopes marker slot)) :
    plan.Keeps (scopes.push .block) [.declare slot .number a,
      .loopWith check (.binary .boolean .lt (.read .number slot) b)
        (ms ++ [.assign slot (.binary .number .add (.read .number slot) (.number .number 1.0))])]
      (scopes.push .block) := by
  have hmarker : plan.slotTypes (markerScopes scopes marker slot) slot .number :=
    .inr ⟨true, Scopes.binds_declare_self (List.cons_ne_nil _ _)⟩
  have houter : plan.Fits scopes.depth (scopes.push .block) :=
    hfits.push rfl (hfits.stored.push (.inl rfl)) hlt
  have hinner : plan.Fits scopes.depth (markerScopes scopes marker slot) :=
    houter.declare (Nat.le_succ _) rfl rfl hnamed
  have hsame : (plan.withType slot .number).slotTypes (scopes.push .block) =
      plan.slotTypes (markerScopes scopes marker slot) := hfits.slotTypes_withType hnamed hlt
  have hprovides : ∀ {target : Target} {guard : Guard target},
      (markerScopes scopes marker slot).Provides guard → (scopes.push .block).Provides guard :=
    fun hs => Scopes.Constants.of_binds hs fun hb => hb.declare rfl
  have hadds : (scopes.push .block).Adds (markerScopes scopes marker slot) :=
    SlotPlan.Keeps.adds_declare rfl hnamed
  have hstart : plan.Keeps (scopes.push .block) [.declare slot .number a]
      (markerScopes scopes marker slot) :=
    .declare houter (Nat.le_succ _) rfl hnamed hgives fun _ d hd => ha ▸ hd
  have hcondition : plan.Gives (markerScopes scopes marker slot)
      (.binary .boolean .lt (.read .number slot) b) := by
    intro target guard hguard hs
    have hless : BinOp.lt.resultType .number b.ty Span.zero = .ok .boolean := by rw [hb]; rfl
    exact .binary (.read hmarker) (hgives'.of_slotTypes hsame hprovides _ _ hguard hs)
      fun x y hx hy => hguard.apply hless hx hy
  have hround := hbody.append (step_keeps hinner hmarker) (.refl _)
  have hloop := SlotPlan.Keeps.loopWith (hcheck.of_slotTypes hsame hprovides) hcondition hround
  exact (hstart.append hloop hadds).weaken hadds

/-- The statements inside a new scope. -/
theorem SoundBody.inside {kind : ScopeKind} {body : List Stmt} {actions : List Action}
    (h : SoundBody (env.push kind) s t body actions) (hkind : kind = .block ∨ kind = .loop none)
    (hlt : env.scopes.depth + 1 < Slots.hiddenDepth) :
    SoundInside env s t body actions := by
  obtain ⟨ms, hms, hplanned⟩ := h
  refine ⟨ms, hms, hplanned.imp fun plan _ hsensible hfits => ?_⟩
  have hfunction : kind.isFunction = false := by rcases hkind with rfl | rfl <;> rfl
  have hinner : plan.Fits env.scopes.depth (env.scopes.push kind) :=
    hfits.push hfunction (hfits.stored.push hkind) hlt
  obtain ⟨hmarks, hkeeps⟩ := hsensible (hinner.of_le (Nat.le_succ _) (Nat.le_succ _))
  exact ⟨hmarks, hkeeps.push⟩

section

variable {condition : Expr} {v : Lowered} {body otherwise : List Stmt}
  {actions actions' : List Action} {depth depth' : Nat} {w x : Slots}

/-- A branch without an alternative. -/
theorem Sound.branch (hv : v.Sound env s t condition) (hbody : SoundInside env t u body actions)
    (hg : Grown depth s t v.before) (htu : t.Extends u) :
    (Stmt.branch span condition body none).Sound env s u env.scopes
      (.behind v.before (.branch v.value actions)) := by
  obtain ⟨before, hbefore, hcondition⟩ := hv
  obtain ⟨ms, rfl, hbody⟩ := hbody
  refine ⟨.behind before (.branch v.value ms), by rw [Marked.erase_behind, hbefore]; rfl, ?_⟩
  refine (hcondition.and hbody hg.extend hg.valid htu).imp fun plan _ hboth hfits => ?_
  have hsensible := hboth.1 (hfits.of_le (Nat.le_succ _) (Nat.le_refl _))
  obtain ⟨hmarks, hkeeps⟩ := hboth.2 hfits
  exact ⟨.branch hsensible.marks hmarks,
    (hsensible.keeps.append (.branch hsensible.gives hkeeps) (.refl _)).behind⟩

/-- A branch with an alternative, whose condition is saved if need be. -/
theorem Sound.branchElse {saved : Value} {save : List Action} (hv : v.Sound env s t condition)
    (hsave : SoundSave t u v.value saved save) (hbody : SoundInside env u w body actions)
    (hother : SoundInside env w x otherwise actions') (hg : Grown depth s t v.before)
    (hg' : Grown depth' t u save) (huw : u.Extends w) (hw : w.Valid) (hwx : w.Extends x) :
    (Stmt.branch span condition body (some otherwise)).Sound env s x env.scopes
      (.behind v.before
        (.block (save ++ [.branch saved actions, .branch saved.negate actions']))) := by
  obtain ⟨before, hbefore, hcondition⟩ := hv
  obtain ⟨store, rfl, hstore, hsaved⟩ := hsave
  obtain ⟨ms, rfl, hfirst⟩ := hbody
  obtain ⟨ms', rfl, hsecond⟩ := hother
  refine ⟨.behind before (.block (store ++ [.branch saved ms, .branch saved.negate ms'])),
    by simp [Marked.erase, Marked.eraseBody, hbefore], ?_⟩
  have hsu := hg.extend.trans hg'.extend
  have hall := ((hcondition.and hsaved hg.extend hg.valid hg'.extend).and hfirst hsu hg'.valid
    huw).and hsecond (hsu.trans huw) hw hwx
  refine hall.imp fun plan _ hall hfits => ?_
  obtain ⟨⟨⟨hcondition, hsaved⟩, hfirst⟩, hsecond⟩ := hall
  have hsensible := hcondition (hfits.of_le (Nat.le_succ _) (Nat.le_refl _))
  obtain ⟨hkeepsStore, hgives⟩ := hsaved _ _ hfits hsensible.gives
  obtain ⟨hmarks, hkeeps⟩ := hfirst hfits
  obtain ⟨hmarks', hkeeps'⟩ := hsecond hfits
  have hbranches : plan.Keeps env.scopes ([.branch saved ms] ++ [.branch saved.negate ms'])
      env.scopes :=
    .append (.branch hgives hkeeps) (.branch (Expr.negate_gives hgives) hkeeps') (.refl _)
  exact ⟨.branchElse hsensible.marks hstore hmarks hmarks',
    (hsensible.keeps.append (hkeepsStore.append hbranches (.refl _)).block (.refl _)).behind⟩

/-- A loop, whose condition may need actions of its own. -/
theorem Sound.loop (hv : v.Sound env s t condition) (hbody : SoundInside env t u body actions)
    (hg : Grown depth s t v.before) (htu : t.Extends u) :
    (Stmt.loop span condition body).Sound env s u env.scopes
      (.loopWith v.before v.value actions) := by
  obtain ⟨check, hcheck, hcondition⟩ := hv
  obtain ⟨ms, rfl, hbody⟩ := hbody
  refine ⟨.loopWith check v.value ms, by rw [Marked.erase_loopWith, hcheck], ?_⟩
  refine (hcondition.and hbody hg.extend hg.valid htu).imp fun plan _ hboth hfits => ?_
  have hsensible := hboth.1 (hfits.of_le (Nat.le_succ _) (Nat.le_refl _))
  obtain ⟨hmarks, hkeeps⟩ := hboth.2 hfits
  exact ⟨.loop hsensible.marks hmarks, .loopWith hsensible.keeps hsensible.gives hkeeps⟩

/-- A counting loop. -/
theorem Sound.count {marker : String} {first limit : Expr} {a b : Lowered} {slot : Slot}
    (hfirst : a.Sound (env.push .block) s t first) (hlimit : b.Sound (env.push .block) t u limit)
    (hbody : SoundBody { env with scopes := countScopes env.scopes marker slot } w x body actions)
    (hg : Grown depth s t a.before) (hg' : Grown depth' t u b.before) (huw : u.Extends w)
    (hwx : w.Extends x) (hslot : w.get? ⟨marker, env.scopes.depth + 1⟩ = some slot)
    (hlt : env.scopes.depth + 2 < Slots.hiddenDepth) (ha : a.value.ty = .number)
    (hb : b.value.ty = .number) :
    (Stmt.count span marker first limit body).Sound env s x env.scopes
      (.behind a.before (.block
        [.declare slot .number a.value,
         .loopWith b.before (.binary .boolean .lt (.read .number slot) b.value)
          (actions ++ [countStep slot])])) := by
  obtain ⟨before, hbefore, hfirst⟩ := hfirst
  obtain ⟨check, hcheck, hlimit⟩ := hlimit
  obtain ⟨ms, rfl, hbody⟩ := hbody
  refine ⟨.behind before (.block [.declare slot .number a.value, .loopWith check
      (.binary .boolean .lt (.read .number slot) b.value)
      (ms ++ [.assign slot (.binary .number .add (.read .number slot) (.number .number 1.0))])]),
    by simp [Marked.erase, Marked.eraseBody, hbefore, hcheck, countStep, Value.ofNumber], ?_⟩
  have hall := (hfirst.and hlimit.above hg.extend hg.valid hg'.extend).and
    (hbody.of_size_le huw.size_le) (hg.extend.trans hg'.extend) hg'.valid (huw.trans hwx)
  refine hall.imp fun plan hplan hall hfits => ?_
  obtain ⟨⟨hfirst, hlimit⟩, hbody⟩ := hall
  have hnamed := hplan.get? (hwx.get? hslot)
  have hlt' := Nat.lt_of_succ_lt hlt
  have hinner : plan.Fits env.scopes.depth (env.scopes.push .block) :=
    hfits.push rfl (hfits.stored.push (.inl rfl)) hlt'
  obtain ⟨hmarks, hkeeps, hgives⟩ :=
    hfirst (hinner.of_le (Nat.le_add_right _ 2) (Nat.le_refl _))
  obtain ⟨hmarks', hcheck, hgives'⟩ :=
    hlimit _ (hfits.below_withType hnamed hlt') (hfits.withType hnamed hlt')
  obtain ⟨hmarksBody, hround⟩ := hbody
    ((hfits.count (Nat.le_refl _) hnamed hlt).of_le (Nat.le_add_right _ 2) (Nat.le_succ _))
  refine ⟨.count hmarks hmarks' rfl rfl hmarksBody, ?_⟩
  have hloop := (count_keeps hfits hnamed hlt' ha hb hgives hcheck hgives' hround.push).block
  exact (hkeeps.append hloop (.refl _)).push.behind

end

mutual

/-- **What a statement is lowered to.** -/
theorem lower_sensible {stmt : Stmt} {scopes' : Scopes} {action : Action} {env : Env}
    {st st' : LowerState} (hs : Splice.Sensible splice?) (henv : env.Ready st.slots stmt.nesting)
    (h : stmt.lower env splice? st = .ok (scopes', action) st') :
    stmt.Sound env st.slots st'.slots scopes' action := by
  have henv₀ := henv.le (Nat.zero_le _)
  match stmt with
  | .block span body =>
    obtain ⟨actions, hbody, rfl, rfl⟩ := lower_block_ok h
    rw [nesting] at henv
    obtain ⟨ms, rfl, hplanned⟩ :=
      (lowerBody_sensible hs (henv.push (.inl rfl)) hbody).inside (.inl rfl) henv.inner_lt
    refine ⟨.block ms, rfl, hplanned.imp fun plan _ hsensible hfits => ?_⟩
    obtain ⟨hmarks, hkeeps⟩ := hsensible hfits
    exact ⟨.block hmarks, hkeeps.block⟩
  | .declare span name ty value constant => exact lower_declare_sensible hs henv₀ h
  | .assign span name value =>
    obtain ⟨ty, slot, v, hb, hv, hty, rfl, rfl⟩ := lower_assign_ok h
    refine Sound.plain (m := .assign slot v.value) rfl rfl
      (Expr.lower_sensible hs henv₀ hv).single (.refl _) fun plan _ hfits hvalues => ?_
    exact .assign hfits (.inr ⟨true, Scopes.binds_of_binding? hb⟩) (hvalues _ (by simp))
      fun hguard d hd => hguard.stored hty hd
  | .assignField span object field value =>
    obtain ⟨o, t, v, ho, hv, rfl, rfl⟩ := lower_assignField_ok h
    have hgrown := Expr.lower_grown hs.grows henv₀ ho
    have hgrown' := Expr.lower_grown hs.grows (henv₀.grown hgrown) hv
    have hboth := (Expr.lower_sensible hs henv₀ ho).pair
      (Expr.lower_sensible hs (henv₀.grown hgrown) hv) hgrown hgrown'
    refine Sound.plain (m := .assignField o.value field v.value) rfl rfl hboth (.refl _)
      fun plan _ _ hvalues target guard hguard hprovides => ?_
    exact .assignField (hvalues _ (by simp) _ _ hguard hprovides)
      (hvalues _ (by simp) _ _ hguard hprovides)
  | .branch span condition body none =>
    obtain ⟨v, t, actions, hv, -, hbody, rfl, rfl⟩ := lower_branch_ok h
    rw [nesting] at henv
    have hgrown := Expr.lower_grown hs.grows henv₀ hv
    have hinner := (henv.grown hgrown).push (.inl rfl)
    have hk := lowerBody_kept hs.grows hinner hbody
    have hinside := (lowerBody_sensible hs hinner hbody).inside (.inl rfl) henv.inner_lt
    exact .branch (Expr.lower_sensible hs henv₀ hv) hinside hgrown hk.extend
  | .branch span condition body (some otherwise) =>
    obtain ⟨v, t, save, saved, t₁, actions, t₂, actions', hv, hboolean, hsave, hbody, hother, rfl,
      rfl⟩ := lower_branchElse_ok h
    rw [nesting] at henv
    have hlt := henv.inner_lt
    have hgrown := Expr.lower_grown hs.grows henv₀ hv
    have hgrown' : Grown env.scopes.depth t.slots t₁.slots save :=
      saveCondition_kept hgrown.valid hsave
    have henv' := (henv.grown hgrown).grown hgrown'
    have hk := lowerBody_kept hs.grows henv'.push_left hbody
    have hk' := lowerBody_kept hs.grows (henv'.kept hk).push_right hother
    have hsaved := saveCondition_sensible hgrown.valid hboolean hsave
    have hinside := (lowerBody_sensible hs henv'.push_left hbody).inside (.inl rfl) hlt
    have hinside' := (lowerBody_sensible hs (henv'.kept hk).push_right hother).inside (.inl rfl) hlt
    exact .branchElse (Expr.lower_sensible hs henv₀ hv) hsaved hinside hinside' hgrown hgrown'
      hk.extend hk.valid hk'.extend
  | .loop span condition body =>
    obtain ⟨v, t, actions, hv, -, hbody, rfl, rfl⟩ := lower_loop_ok h
    rw [nesting] at henv
    have hgrown := Expr.lower_grown hs.grows henv₀ hv
    have hinner := (henv.grown hgrown).push (.inr rfl)
    have hk := lowerBody_kept hs.grows hinner hbody
    have hinside := (lowerBody_sensible hs hinner hbody).inside (.inr rfl) henv.inner_lt
    exact .loop (Expr.lower_sensible hs henv₀ hv) hinside hgrown hk.extend
  | .count span marker first limit body =>
    obtain ⟨a, t₁, b, t₂, slot, t₃, actions, ha, hb, hnumber, hnumber', hslot, hbody, rfl, rfl⟩ :=
      lower_count_ok h
    rw [nesting] at henv
    have hlt : env.scopes.depth + 2 < Slots.hiddenDepth := by have := henv.depth_lt; omega
    have houter := henv.push (.inl rfl)
    have houter₀ := houter.le (Nat.zero_le _)
    have hga := Expr.lower_grown hs.grows houter₀ ha
    have hgb := Expr.lower_grown hs.grows (houter₀.grown hga) hb
    have hgrant := Lower.intern_granted hgb.valid (by omega) hslot
    have hbodyEnv := (((henv.grown hga).grown hgb).granted hgrant).count hgrant.get?
    have hk := lowerBody_kept hs.grows hbodyEnv hbody
    exact .count (Expr.lower_sensible hs houter₀ ha)
      (Expr.lower_sensible hs (houter₀.grown hga) hb) (lowerBody_sensible hs hbodyEnv hbody) hga hgb
      hgrant.extend hk.extend hgrant.get? hlt hnumber hnumber'
  | .ret span value =>
    obtain ⟨rfl, ⟨rfl, rfl, rfl⟩ | ⟨function, r, e, v, rfl, hf, hv, hty, rfl⟩⟩ := lower_ret_ok h
    · exact Sound.alone (m := .noop) rfl rfl rfl fun _ _ _ _ _ _ => .noop
    · refine Sound.plain (m := .assign r.slot v.value) rfl rfl
        (Expr.lower_sensible hs henv₀ hv).single (.refl _) fun plan _ hfits hvalues => ?_
      obtain ⟨scope, hscope, hresult, -⟩ := Scopes.enclosingFunction?_eq_some hf
      have htype := hfits.results scope (env.scopes.visible_prefix.subset hscope) r hresult
      exact .assign hfits (.inl htype) (hvalues _ (by simp)) fun hguard d hd =>
        hguard.stored hty hd
  | .stop span =>
    obtain ⟨step, -, rfl, rfl, rfl⟩ := lower_stop_ok h
    exact Sound.alone (m := .stop) rfl rfl rfl fun _ _ _ _ _ _ => .stop
  | .next span =>
    obtain ⟨rfl, rfl, ⟨-, rfl⟩ | ⟨step, hloop, rfl⟩⟩ := lower_next_ok h
    · exact Sound.alone (m := .next) rfl rfl rfl fun _ _ _ _ _ _ => .next
    · obtain ⟨slot, rfl, scope, hscope, name, hb⟩ := henv.stored.sees_marker hloop
      refine Sound.alone (m := .block [.assign slot _, .next]) rfl rfl rfl fun plan hfits => ?_
      have hbinds : env.scopes.Binds ⟨.number, true, .slot slot⟩ :=
        ⟨scope, env.scopes.visible_prefix.subset hscope, name, hb⟩
      exact ((step_keeps hfits (.inr ⟨true, hbinds⟩)).append
        (fun _ _ _ _ => .next) (.refl _)).block
  | .call span name args =>
    obtain ⟨rfl, ⟨decl, splice, vs, t, spliced, hdecl, hcall, hvs, hspliced, rfl⟩ |
      ⟨f, vs, hdecl, -, hvs, rfl⟩⟩ := lower_call_ok h
    · obtain ⟨ms, hms, hplanned⟩ :=
        (Expr.lowerList_sensible hs henv₀ hvs).own hs henv₀ hdecl hcall hvs hspliced
      refine ⟨.behind ms .noop, by rw [Marked.erase_behind, hms, Marked.erase], ?_⟩
      refine hplanned.imp fun plan _ hsensible hfits => ?_
      obtain ⟨hmarks, hkeeps, -⟩ := hsensible (hfits.of_le (Nat.le_succ _) (Nat.le_refl _))
      exact ⟨.call rfl hmarks, (hkeeps.append (fun _ _ _ _ => .noop) (.refl _)).behind⟩
    · obtain ⟨ms, hms, hplanned⟩ := Expr.lowerArgs_sensible hs henv₀ hvs
      refine ⟨.behind ms (.call f.target vs.values), by rw [Marked.erase_behind, hms]; rfl, ?_⟩
      refine hplanned.imp fun plan _ hsensible hfits => ?_
      obtain ⟨hmarks, hkeeps, hvalues⟩ := hsensible (hfits.of_le (Nat.le_succ _) (Nat.le_refl _))
      refine ⟨.call rfl (.target hdecl hmarks), (hkeeps.append ?_ (.refl _)).behind⟩
      exact fun _ _ hguard hprovides => .call fun v hv => hvalues v hv _ _ hguard hprovides

theorem lowerBody_sensible {body : List Stmt} {actions : List Action} {env : Env}
    {st st' : LowerState} (hs : Splice.Sensible splice?)
    (henv : env.Ready st.slots (nestingBody body))
    (h : lowerBody env splice? body st = .ok actions st') :
    SoundBody env st.slots st'.slots body actions := by
  match body with
  | [] =>
    obtain ⟨rfl, rfl⟩ := lowerBody_nil_ok h
    exact ⟨[], rfl, .of_forall fun _ _ _ => ⟨.nil, .nil⟩⟩
  | stmt :: body =>
    obtain ⟨scopes', action, t, rest, hstmt, hrest, rfl⟩ := lowerBody_cons_ok h
    rw [nestingBody] at henv
    have hhead := henv.le (Nat.le_max_left _ _)
    obtain ⟨hk, hd⟩ := lower_kept hs.grows hhead hstmt
    have htail := ((henv.kept hk).le (Nat.le_max_right _ _)).declares hd
    have hk' := lowerBody_kept hs.grows htail hrest
    obtain ⟨m, rfl, hplanned⟩ := lower_sensible hs hhead hstmt
    obtain ⟨ms, rfl, hplanned'⟩ := lowerBody_sensible hs htail hrest
    refine ⟨m :: ms, rfl, ?_⟩
    have hall := hplanned.and hplanned' hk.extend hk.valid hk'.extend
    refine hall.imp fun plan hplan hboth hfits => ?_
    have hdeclares := hd.extend (hk'.extend.trans hplan).get?
    obtain ⟨hmarks, hkeeps⟩ := hboth.1 hfits
    have hadds := Scopes.Adds.of_declares hdeclares
    obtain ⟨hmarks', hkeeps'⟩ := hboth.2 (hfits.declares hdeclares)
    refine ⟨.cons hmarks ?_, (hkeeps.append hkeeps' hadds).weaken hadds⟩
    rw [← hdeclares.depth_eq]
    exact hmarks'

end

end

end Stmt

/-! ## Calls -/

namespace FunctionDecl

/-- The arguments of a call. -/
theorem bindParams_sensible {params : List Param} {args : List Value} {env : Env} {scopes' : Scopes}
    {actions : List Action} {st st' : LowerState} {declarations : Declarations} {types : Table Ty}
    (henv : env.Ready st.slots 0) (hd : env.declarations = declarations)
    (hseen : ∀ name, env.scopes.type? name = types.get? name)
    (hlen : args.length = params.length)
    (hsuits : ∀ p v ty, (p, v) ∈ params.zip args →
      (declarations.within types).resolve p.ty = .ok ty →
      ∀ {target : Target} {guard : Guard target}, guard.Sound (fun ty => ty.hasGeneric = false) →
      ∀ d, v.ty.hasGeneric = false → guard v.ty d = true → guard ty d = true)
    (h : bindParams env (params.zip args) st = .ok (scopes', actions) st') :
    ∃ ms, Marked.eraseBody ms = actions ∧ ms.length = params.length ∧ ms.all Marked.isPass = true ∧
      ∀ plan : SlotPlan, st'.slots.Extends plan.slots → plan.Fits env.scopes.depth env.scopes →
        (∀ v ∈ args, plan.Gives env.scopes v) → plan.Keeps env.scopes ms scopes' := by
  induction params generalizing args env actions st with
  | nil =>
    obtain ⟨rfl, rfl, rfl⟩ := bindParams_nil_ok h
    exact ⟨[], rfl, rfl, rfl, fun _ _ _ _ => .nil⟩
  | cons p params ih =>
    cases args with
    | nil => cases hlen
    | cons v args =>
      obtain ⟨hhere, ty, slot, t, actions', hty, hslot, hrest, rfl⟩ := bindParams_cons_ok h
      have hgrant := Lower.intern_granted henv.valid henv.depth_lt hslot
      have hdeclares : env.scopes.Declares t.slots
          (env.scopes.declare p.name ⟨ty, false, .slot slot⟩) :=
        .declare .refl hhere rfl hgrant.get?
      have henv' := (henv.granted hgrant).declares hdeclares
      have hextend := (bindParams_kept henv' hrest).1.extend
      have hresolve : (declarations.within types).resolve p.ty = .ok ty := by
        refine (Env.resolveIn_congr hd.symm (fun name => ?_) p.ty).trans hty
        exact (Declarations.type?_within name).trans (hseen name).symm
      obtain ⟨ms, rfl, hms, hpass, hkeeps⟩ := ih henv' hd
        (fun name => Scopes.type?_declare.trans (hseen name)) (Nat.succ.inj hlen)
        (fun q w ty' hmem => hsuits q w ty' (List.mem_cons_of_mem _ hmem)) hrest
      refine ⟨.pass slot ty v :: ms, rfl, congrArg Nat.succ hms, by simp [hpass, Marked.isPass],
        fun plan hplan hfits hvalues => ?_⟩
      obtain ⟨hv, hvs⟩ := List.forall_mem_cons.mp hvalues
      have hdeclares' := hdeclares.extend (hextend.trans hplan).get?
      have hadds := Scopes.Adds.of_declares hdeclares'
      have hfirst : plan.Keeps env.scopes [.pass slot ty v]
          (env.scopes.declare p.name ⟨ty, false, .slot slot⟩) :=
        .pass hfits (Nat.le_refl _) hhere (hplan.get? (hextend.get? hgrant.get?)) hv
          (hsuits p v ty List.mem_cons_self hresolve)
      exact hfirst.append (hkeeps plan hplan (hfits.declares hdeclares')
        fun w hw => (hvs w hw).adds hadds) hadds

/-- The slot for a return value has its type in the plan. -/
theorem reserveReturn_planned {decl : FunctionDecl} {ret : Option ReturnSlot} {span : Span}
    (hst : st.slots.Valid) (h : reserveReturn env decl span st = .ok ret st') :
    Planned st.slots st'.slots fun plan =>
      ∀ r, ret = some r → plan.types r.slot = some r.ty := by
  obtain ⟨-, -, hnext⟩ := reserveReturn_grown hst h
  cases ret with
  | none => exact .of_forall fun _ _ r hr => by cases hr
  | some r =>
    obtain ⟨hhidden, hslot⟩ := hnext r rfl
    have htype : Planned st.slots st'.slots fun plan => plan.types r.slot = some r.ty :=
      .fresh (Nat.le_of_eq hslot.symm) hhidden
    refine htype.imp fun plan _ htype r' hr => ?_
    cases hr
    exact htype

/-- **What a call is lowered to.** -/
theorem inline_sensible {name : String} {decl : FunctionDecl} {args : List Value} {span : Span}
    {out : Spliced} (hs : Splice.Sensible splice?) (henv : env.Ready st.slots 0)
    (hdecl : env.declarations.functions.get? name = some decl) (hnew : decl.name ∉ env.inlining)
    (hlen : args.length = decl.params.length)
    (h : inline splice? env decl args span st = .ok out st') :
    out.Sound env st.slots st'.slots decl args := by
  obtain ⟨generics, types, ret, scopes', params, body, t₁, t₂, htyped, hret, hparams, hbody, rfl⟩ :=
    inline_entered_ok h
  have hreserved := reserveReturn_planned (by exact henv.valid) hret
  obtain ⟨hvalid, hextend, hnext⟩ := reserveReturn_grown (by exact henv.valid) hret
  have hentered := ready_entered types henv hdecl hnew hvalid hextend hnext
  obtain ⟨hk, hd⟩ := bindParams_kept (hentered.le (Nat.zero_le _)) hparams
  have hinner := (hentered.kept hk).declares hd
  have hk' := Stmt.lowerBody_kept hs.grows hinner hbody
  have hsuits : ∀ p v ty, (p, v) ∈ decl.params.zip args →
      (env.declarations.within types).resolve p.ty = .ok ty →
      ∀ {target : Target} {guard : Guard target}, guard.Sound (fun ty => ty.hasGeneric = false) →
      ∀ d, v.ty.hasGeneric = false → guard v.ty d = true → guard ty d = true := by
    intro p v ty hmem hty target guard hguard d hconcrete
    refine hguard.param htyped hconcrete ?_ hty
    rw [List.zip_map_right]
    exact List.mem_map.mpr ⟨(p, v), hmem, rfl⟩
  obtain ⟨ms, rfl, hms, hpass, hpassed⟩ := bindParams_sensible (hentered.le (Nat.zero_le _)) rfl
    (fun _ => Scopes.type?_function rfl) hlen hsuits hparams
  obtain ⟨ms', rfl, hplanned⟩ := Stmt.lowerBody_sensible hs hinner hbody
  refine ⟨ms ++ ms', Marked.eraseBody_append _ _, ?_⟩
  refine (hreserved.and (hplanned.of_size_le hk.extend.size_le) hextend hvalid
    (hk.extend.trans hk'.extend)).imp fun plan hplan hboth hfits hargs => ?_
  obtain ⟨hresult, hsensible⟩ := hboth
  have hstored := hentered.stored.extend ((hk.extend.trans hk'.extend).trans hplan)
  have hfits' := hfits.enter hstored hentered.open_lt hresult
  have hdeclares := hd.extend (hk'.extend.trans hplan).get?
  have hadds := Scopes.Adds.of_declares hdeclares
  have henter : env.scopes.Adds (FunctionDecl.enteredScopes decl.name types ret env.scopes.open_) :=
    .enter env.scopes
  obtain ⟨hmarks, hkeeps⟩ := hsensible (hfits'.declares hdeclares)
  have hpassed := hpassed plan (hk'.extend.trans hplan) hfits' fun v hv => (hargs v hv).adds henter
  have hall := (hpassed.append hkeeps hadds).weaken hadds
  have hdepth : scopes'.depth = env.scopes.depth + 1 := hdeclares.depth_eq
  refine ⟨.mk hms hpass (hdepth ▸ hmarks), ?_, hresult⟩
  exact hall.of_slotTypes (SlotPlan.slotTypes_enter hresult) fun hs => henter.provides hs

end FunctionDecl

/-- **What calls are lowered to**, however deeply they are inlined. -/
theorem spliceWithin_sensible (depth : Nat) : Splice.Sensible (spliceWithin depth) := by
  induction depth with
  | zero => exact ⟨spliceWithin_grows 0, fun hsplice => by cases hsplice⟩
  | succ depth ih =>
    refine ⟨spliceWithin_grows _, fun hsplice henv hdecl hnew hlen h => ?_⟩
    cases hsplice
    exact FunctionDecl.inline_sensible ih henv hdecl hnew hlen h

end RuleScript
