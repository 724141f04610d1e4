import RuleScript.Proofs.Lowering.Points

/-!
# Variables stay apart

All variables live in one array, those of a function that is inlined beside those of its callers.
Still each variable behaves as if it had an array of its own: the bindings of all open scopes have
slots of their own, and the code of a statement leaves alone what the statement could not name. It
stores to no constant and no parameter, to nothing outside the nearest function, and to no return
value and no saved condition that is older than the statement, apart from the return value of the
nearest function.

## Main definitions

* `Scopes.Spares`: storing to a slot leaves alone what is not of the nearest function

## Main results

* `Scopes.Writable.spares`: what a place may store to is nothing that it has to leave alone
* `Program.Reached.apart`: this holds at every point of lowering a program
-/

namespace RuleScript

namespace Scopes

/-- The slot holds the return value of the nearest function. -/
def Returns (s : Scopes) (slot : Slot) : Prop :=
  ∃ function r, s.enclosingFunction? = some (function, some r) ∧ r.slot = slot

/-- Storing to a slot leaves alone the constants and parameters of all open scopes, everything
outside the nearest function, and the slots without a name that are handed out already. Only the
return value of the nearest function is not left alone. -/
structure Spares (s : Scopes) (slots : Slots) (slot : Slot) : Prop where
  constants : ∀ scope ∈ s.open_, ∀ name b, scope.bindings.get? name = some b →
    b.mutable = false → b.value = .slot slot → name = returnLabel ∧ s.Returns slot
  outside : ∀ scope ∈ s.open_.drop s.visible.length, ∀ name b,
    scope.bindings.get? name = some b → b.value ≠ .slot slot
  hidden : slots.Hidden slot → s.Returns slot

variable {scopes : Scopes} {s t : Slots} {slot : Slot} {scope : Scope} {i : Nat} {name : String}
  {b : Binding}

/-- A binding that a place may store to can be seen, and it is a variable or the return value of the
nearest function. -/
theorem Writable.of_bound (h : Writable scopes s t slot) (hstored : Stored s scopes.open_)
    (hs : s.Valid) (ht : t.Valid) (he : s.Extends t) (hdepth : scopes.depth < Slots.hiddenDepth)
    (hi : scopes.open_[i]? = some scope) (hb : scope.bindings.get? name = some b)
    (hslot : b.value = .slot slot) : i < scopes.visible.length ∧
      (b.mutable = true ∨ name = returnLabel ∧ scopes.Returns slot) := by
  cases h with
  | deeper h =>
    refine absurd h ((hstored.extend he).not_deeper ht (.refl t) hdepth
      (fun other hother r hr => ?_) (boundIn_eq_some.mpr ⟨scope, hi, hb⟩) hslot)
    obtain ⟨j, hj⟩ := List.getElem?_of_mem hother
    exact (hstored.holds hj).result_lt hs hr
  | sees h =>
    obtain ⟨seen, hseen, name', b', hb', hmutable, hslot'⟩ := h
    obtain ⟨j, hlt, hj⟩ := exists_of_mem_visible hseen
    obtain ⟨rfl, rfl⟩ := hstored.slot_unique hs hdepth hi hj hb hb' hslot hslot'
    rw [hi] at hj
    cases hj
    rw [hb] at hb'
    cases hb'
    exact ⟨hlt, .inl hmutable⟩
  | @result function r h hr =>
    obtain ⟨seen, hseen, hresult, -⟩ := enclosingFunction?_eq_some h
    obtain ⟨j, hlt, hj⟩ := exists_of_mem_visible hseen
    subst hr
    obtain ⟨rfl, rfl⟩ := hstored.slot_unique hs hdepth hi hj hb
      ((hstored.holds hj).result hresult).2.1 hslot rfl
    exact ⟨hlt, .inr ⟨rfl, function, r, h, rfl⟩⟩
  | @new name' hhere hnew =>
    have hlt := (List.getElem?_eq_some_iff.mp hi).1
    rcases (hstored.holds hi).slot_cases hb hslot with hold | ⟨-, -, hold, -⟩
    -- The key of a new name is that of the binding, which is then in the innermost scope; but
    -- there the name is still free.
    · have hkey := ht.key_unique hnew (he.get? hold)
      simp only [SlotKey.mk.injEq, List.length_drop, Scopes.depth] at hkey
      obtain ⟨rfl, hzero⟩ := hkey
      obtain rfl : i = 0 := by omega
      have hnone : scope.bindings.get? name' = none := by
        obtain ⟨l⟩ := scopes
        cases l with
        | nil => cases hi
        | cons first outer =>
          cases hi
          simpa [Table.contains] using hhere
      rw [hb] at hnone
      cases hnone
    · exact absurd (he.hidden hold) (ht.not_hidden hnew (Nat.ne_of_lt hdepth))

/-- **What a place may store to is nothing that it has to leave alone.** -/
theorem Writable.spares (h : Writable scopes s t slot) (hstored : Stored s scopes.open_)
    (hs : s.Valid) (ht : t.Valid) (he : s.Extends t)
    (hdepth : scopes.depth < Slots.hiddenDepth) : scopes.Spares s slot where
  constants scope hscope name b hb hmutable hslot := by
    obtain ⟨i, hi⟩ := List.getElem?_of_mem hscope
    obtain ⟨-, hmutable' | hreturn⟩ := h.of_bound hstored hs ht he hdepth hi hb hslot
    · rw [hmutable] at hmutable'
      cases hmutable'
    · exact hreturn
  outside scope hscope name b hb hslot := by
    obtain ⟨i, hi⟩ := List.getElem?_of_mem hscope
    rw [List.getElem?_drop] at hi
    have hlt := (h.of_bound hstored hs ht he hdepth hi hb hslot).1
    exact absurd hlt (Nat.not_lt_of_le (Nat.le_add_right _ _))
  hidden hhidden := by
    cases h with
    | deeper h =>
      rcases h with ⟨key, hkey, -, hnamed⟩ | ⟨-, hnew⟩
      · exact absurd (he.hidden hhidden) (ht.not_hidden hkey (Nat.ne_of_lt hnamed))
      · obtain ⟨key, -, hkey⟩ := hhidden
        exact absurd (hs.get?_lt hkey) (Nat.not_lt_of_le hnew)
    | sees h =>
      obtain ⟨seen, hseen, name, b, hb, hmutable, hslot⟩ := h
      obtain ⟨i, -, hi⟩ := exists_of_mem_visible hseen
      have hlt := (List.getElem?_eq_some_iff.mp hi).1
      rcases (hstored.holds hi).slot_cases hb hslot with hold | ⟨-, hconstant, -⟩
      · refine absurd hhidden (hs.not_hidden hold ?_)
        rw [Scopes.depth] at hdepth
        simp only [List.length_drop]
        omega
      · rw [hmutable] at hconstant
        cases hconstant
    | @result function r h hr => exact ⟨function, r, h, hr⟩
    | new hhere hnew =>
      exact absurd (he.hidden hhidden) (ht.not_hidden hnew (Nat.ne_of_lt hdepth))

end Scopes

/-- **Variables stay apart.** At every point of lowering a program without an error, the bindings of
all open scopes have slots of their own, and the code of every statement, with all code of the calls
in it, leaves alone the constants and parameters of all open scopes, everything outside the nearest
function, and all older return values and saved conditions but the return value of the nearest
function. -/
theorem Program.Reached.apart {options : Options} {program : Program} {rules : List Rule}
    {st : LowerState} {p : Point} (h : program.lower options = .ok rules st)
    (hnesting : program.nesting < Slots.hiddenDepth) (hp : Reached options program p) :
    Scopes.Distinct p.env.scopes.open_ ∧ ∀ stmt, p.task = .stmt stmt → ∃ scopes action t,
      stmt.lower p.env (spliceWithin p.depth) p.state = .ok (scopes, action) t ∧
      ∀ slot ∈ action.writes, p.env.scopes.Spares p.state.slots slot := by
  obtain ⟨hready, hsucceeds⟩ := hp.sound h hnesting
  have hdepth := (hready.le (Nat.zero_le _)).depth_lt
  refine ⟨fun {i j name name' b b' slot} => hready.stored.distinct hready.valid hdepth, ?_⟩
  intro stmt hstmt
  obtain ⟨task, env, n, state⟩ := p
  obtain rfl : task = .stmt stmt := hstmt
  obtain ⟨⟨scopes, action⟩, t, hlower⟩ := hsucceeds
  obtain ⟨hk, -⟩ := Stmt.lower_kept (spliceWithin_grows n) hready hlower
  refine ⟨scopes, action, t, hlower, fun slot hslot => ?_⟩
  exact (hk.writes slot hslot).spares hready.stored hready.valid hk.valid hk.extend hdepth

namespace Program

/-- A program whose event calls a function that calls another one. -/
def nestedCall : Program :=
  let z := Span.zero
  let number : TypeExpr := .named z "number"
  ⟨[.function ⟨"inner", [], [⟨"x", number, z⟩], some number,
      [.ret z (some (.binary z .add (.ident z "x") (.number z 1.0)))], z⟩,
    .function ⟨"outer", [], [⟨"x", number, z⟩], some number,
      [.declare z "y" none (some (.call z "inner" [.ident z "x"])) false,
        .ret z (some (.ident z "y"))], z⟩,
    .event ⟨"server", [],
      [.declare z "x" none (some (.number z 1.0)) false,
        .assign z "x" (.call z "outer" [.ident z "x"])], z⟩]⟩

/-- Whether lowering a program ends without an error. -/
def lowers (options : Options) (program : Program) : Bool :=
  match program.lower options with
  | .ok _ _ => true
  | .error _ _ => false

theorem exists_of_lowers {options : Options} {program : Program}
    (h : program.lowers options = true) : ∃ rules st, program.lower options = .ok rules st := by
  rw [lowers] at h
  split at h
  case h_1 rules st hlower => exact ⟨rules, st, hlower⟩
  case h_2 => cases h

/-- The first statement of the outer function is reached while that function is inlined. -/
theorem reached_nestedCall {rules : List Rule} {st : LowerState}
    (h : nestedCall.lower {} = .ok rules st) :
    ∃ p, Reached {} nestedCall p ∧ p.env.inlining = ["outer"] ∧
      p.task =
        .stmt (.declare .zero "y" none (some (.call .zero "inner" [.ident .zero "x"])) false) := by
  have hnesting : nestedCall.nesting < Slots.hiddenDepth := by decide
  have hevents : nestedCall.events = [] ++ _ :: [] := rfl
  have hevent : Reached {} nestedCall _ := .event rfl hevents rfl rfl rfl
  obtain ⟨actions, t, hbody⟩ := (hevent.sound h hnesting).succeeds
  obtain ⟨_, _, _, _, hfirst, -, -⟩ := Stmt.lowerBody_cons_ok hbody
  have hassign := (hevent.step (.bodyTail hfirst)).step .bodyHead
  have hvalue := (hassign.step .stmtParts).step .exprsHead
  obtain ⟨v, u, hlower⟩ := (hvalue.sound h hnesting).succeeds
  rcases Expr.lower_call_ok hlower with ⟨_, _, _, _, _, _, _, _, hargs, -⟩ | ⟨_, _, _, hnone, -⟩
  case inr => cases hnone
  have hcall := hvalue.step (.callee rfl rfl hargs)
  obtain ⟨⟨out, w, hinline⟩, -⟩ := (hcall.sound h hnesting).succeeds
  obtain ⟨_, _, _, _, _, _, _, _, hgenerics, hbindings, hret, hparams, -⟩ :=
    FunctionDecl.inline_ok hinline
  have hinner := (hcall.step (.callBody hgenerics hbindings hret hparams)).step .bodyHead
  exact ⟨_, hinner, rfl, rfl⟩

theorem Reached.apart_nestedCall : ∃ p, Reached {} nestedCall p ∧ p.env.inlining = ["outer"] ∧
    Scopes.Distinct p.env.scopes.open_ ∧ ∃ stmt, p.task = .stmt stmt ∧ ∃ scopes action t,
      stmt.lower p.env (spliceWithin p.depth) p.state = .ok (scopes, action) t ∧
      ∀ slot ∈ action.writes, p.env.scopes.Spares p.state.slots slot := by
  obtain ⟨rules, st, hlower⟩ : ∃ rules st, nestedCall.lower {} = .ok rules st :=
    exists_of_lowers (by decide +kernel)
  obtain ⟨p, hp, hinlining, htask⟩ := reached_nestedCall hlower
  obtain ⟨hdistinct, hspares⟩ := Reached.apart hlower (by decide) hp
  exact ⟨p, hp, hinlining, hdistinct, _, htask, hspares _ htask⟩

end Program

end RuleScript
