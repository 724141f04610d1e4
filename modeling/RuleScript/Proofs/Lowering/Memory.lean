import RuleScript.Proofs.Lowering.Nesting
import RuleScript.Proofs.Lowering.Scopes
import RuleScript.Proofs.Slots

/-!
# Where lowered code stores

All variables of all scopes share one array, and a slot is found by a name and a depth. What keeps
them apart is that code stores only to what its place may store to: the variables it can see and may
change, the return value of its own function, new variables of its own scope, and everything that is
deeper or newer than the place itself. Code for a call is deeper than its caller, so it never stores
to anything of its caller.

## Main definitions

* `Action.writes`: the slots that an action stores to
* `Scopes.Stored`: every binding of the open scopes has the slot of its name and depth
* `Scopes.Distinct`: no two bindings have the same slot
* `Env.Ready`: what holds wherever something is lowered
* `Slots.Deeper`, `Scopes.Writable`: what code at a depth, and at a place, may store to

## Main results

* `Scopes.Stored.slot_unique`: the bindings of the open scopes have distinct slots
* `Scopes.Stored.not_deeper`: what is bound in an open scope is not deeper than its place
-/

namespace RuleScript

/-! ## The slots that actions store to -/

namespace Action

mutual

/-- The slots that an action stores to, those inside others included. -/
def writes : Action → List Slot
  | block body => writesBody body
  | branch _ body => writesBody body
  | loop _ body => writesBody body
  | declare slot _ _ => [slot]
  | assign slot _ => [slot]
  | assignField _ _ _ | call _ _ | stop | next | noop => []

/-- The slots that the actions of a body store to. -/
def writesBody : List Action → List Slot
  | [] => []
  | a :: as => writes a ++ writesBody as

end

theorem writesBody_append (as bs : List Action) :
    writesBody (as ++ bs) = writesBody as ++ writesBody bs := by
  induction as with
  | nil => rfl
  | cons a as ih => simp only [List.cons_append, writesBody, ih, List.append_assoc]

theorem writes_behind (before : List Action) (action : Action) :
    (behind before action).writes = writesBody before ++ action.writes := by
  unfold behind
  split
  case isTrue h =>
    rw [List.isEmpty_iff.mp h]
    rfl
  case isFalse => simp only [writes, writesBody_append, writesBody, List.append_nil]

theorem writes_loopWith (check : List Action) (condition : Value) (body : List Action) :
    (loopWith check condition body).writes = writesBody check ++ writesBody body := by
  unfold loopWith
  split
  case isTrue h =>
    rw [List.isEmpty_iff.mp h]
    rfl
  case isFalse => simp [writes, writesBody_append, writesBody]

end Action

/-! ## The slots of the open scopes -/

namespace Scopes

/-- What holds of the innermost of some open scopes. A binding has the slot of its name and of the
depth, apart from the return value of a function, which is newer than those of the functions around
it. The marker of a counting loop is a variable of the scope around the loop. -/
structure Holds (slots : Slots) (scope : Scope) (outer : List Scope) : Prop where
  named : ∀ {name b slot}, scope.bindings.get? name = some b → b.value = .slot slot →
    slots.get? ⟨name, outer.length + 1⟩ = some slot ∨
      name = returnLabel ∧ ∃ r, scope.result? = some r ∧ b = ⟨r.ty, false, .slot r.slot⟩
  result : ∀ {r}, scope.result? = some r → slots.Hidden r.slot ∧
    scope.bindings.get? returnLabel = some ⟨r.ty, false, .slot r.slot⟩ ∧
    ∀ other ∈ outer, ∀ r', other.result? = some r' → r'.slot < r.slot
  marker : ∀ {step}, scope.kind = .loop (some step) → ∃ around rest name slot,
    outer = around :: rest ∧ step = Stmt.countStep slot ∧
    around.bindings.get? name = some ⟨.number, true, .slot slot⟩

/-- Every binding of the open scopes has the slot of its name and depth. -/
def Stored (slots : Slots) : List Scope → Prop
  | [] => True
  | scope :: outer => Holds slots scope outer ∧ Stored slots outer

variable {slots slots' : Slots} {l outer : List Scope} {scope : Scope}

theorem Holds.extend (h : Holds slots scope outer) (he : slots.Extends slots') :
    Holds slots' scope outer where
  named hb hslot := (h.named hb hslot).imp_left he.get?
  result hr := ⟨he.hidden (h.result hr).1, (h.result hr).2⟩
  marker := h.marker

theorem Stored.extend (h : Stored slots l) (he : slots.Extends slots') : Stored slots' l := by
  induction l with
  | nil => trivial
  | cons scope outer ih => exact ⟨h.1.extend he, ih h.2⟩

/-- The scope at a place, with the scopes behind it. -/
theorem Stored.holds (h : Stored slots l) {i : Nat} (hi : l[i]? = some scope) :
    Holds slots scope (l.drop (i + 1)) := by
  induction l generalizing i with
  | nil => cases hi
  | cons first outer ih =>
    cases i with
    | zero =>
      cases hi
      exact h.1
    | succ i => exact ih h.2 hi

/-- A return value among the open scopes is older than the next slot. -/
theorem Holds.result_lt (h : Holds slots scope outer) (hs : slots.Valid) {r : ReturnSlot}
    (hr : scope.result? = some r) : r.slot < slots.size := by
  obtain ⟨key, -, hkey⟩ := (h.result hr).1
  exact hs.get?_lt hkey

/-- What is bound to a slot: it has a name at the depth of its scope, or it is a return value. -/
theorem Holds.slot_cases (h : Holds slots scope outer) {name : String} {b : Binding} {slot : Slot}
    (hb : scope.bindings.get? name = some b) (hslot : b.value = .slot slot) :
    slots.get? ⟨name, outer.length + 1⟩ = some slot ∨
      name = returnLabel ∧ b.mutable = false ∧ slots.Hidden slot ∧
        ∃ r, scope.result? = some r ∧ r.slot = slot := by
  rcases h.named hb hslot with hnamed | ⟨hname, r, hr, rfl⟩
  · exact .inl hnamed
  · cases hslot
    exact .inr ⟨hname, rfl, (h.result hr).1, r, hr, rfl⟩

/-- The return value of an inner function is newer than that of an outer one. -/
theorem Stored.result_lt (h : Stored slots l) {i j : Nat} {scope scope' : Scope} (hij : i < j)
    (hi : l[i]? = some scope) (hj : l[j]? = some scope') {r r' : ReturnSlot}
    (hr : scope.result? = some r) (hr' : scope'.result? = some r') : r'.slot < r.slot := by
  refine ((h.holds hi).result hr).2.2 scope' ?_ r' hr'
  have hdrop : (l.drop (i + 1))[j - (i + 1)]? = some scope' := by
    rw [List.getElem?_drop, ← hj]
    congr 1
    omega
  exact List.mem_of_getElem? hdrop

/-- **The bindings of the open scopes have distinct slots.** -/
theorem Stored.slot_unique (h : Stored slots l) (hs : slots.Valid)
    (hdepth : l.length < Slots.hiddenDepth) {i j : Nat} {scope scope' : Scope} {name name' : String}
    {b b' : Binding} {slot : Slot} (hi : l[i]? = some scope) (hj : l[j]? = some scope')
    (hb : scope.bindings.get? name = some b) (hb' : scope'.bindings.get? name' = some b')
    (hslot : b.value = .slot slot) (hslot' : b'.value = .slot slot) : i = j ∧ name = name' := by
  have hlt : i < l.length := (List.getElem?_eq_some_iff.mp hi).1
  have hlt' : j < l.length := (List.getElem?_eq_some_iff.mp hj).1
  have hH := h.holds hi
  have hH' := h.holds hj
  have hlen : (l.drop (i + 1)).length = l.length - (i + 1) := List.length_drop
  have hlen' : (l.drop (j + 1)).length = l.length - (j + 1) := List.length_drop
  rcases hH.slot_cases hb hslot with hnamed | ⟨rfl, -, hhidden, r, hr, rfl⟩
  · rcases hH'.slot_cases hb' hslot' with hnamed' | ⟨-, -, hhidden', -⟩
    · have hkey := hs.key_unique hnamed hnamed'
      simp only [SlotKey.mk.injEq] at hkey
      exact ⟨by omega, hkey.1⟩
    · exact absurd hhidden' (hs.not_hidden hnamed (by simp only; omega))
  · rcases hH'.slot_cases hb' hslot' with hnamed' | ⟨rfl, -, -, r', hr', heq⟩
    · exact absurd hhidden (hs.not_hidden hnamed' (by simp only; omega))
    -- Return values are ordered by age, so two functions do not share one.
    · refine ⟨?_, rfl⟩
      rcases Nat.lt_trichotomy i j with hij | hij | hij
      · exact absurd heq (Nat.ne_of_lt (h.result_lt hij hi hj hr hr'))
      · exact hij
      · exact absurd heq (Nat.ne_of_gt (h.result_lt hij hj hi hr' hr))

/-- What a name is bound to in the scope at a place, counted from the innermost one. -/
def boundIn (l : List Scope) (i : Nat) (name : String) : Option Binding :=
  l[i]?.bind (·.bindings.get? name)

theorem boundIn_eq_some {i : Nat} {name : String} {b : Binding} :
    boundIn l i name = some b ↔ ∃ scope, l[i]? = some scope ∧ scope.bindings.get? name = some b :=
  Option.bind_eq_some_iff

/-- No two bindings of the scopes have the same slot. -/
def Distinct (l : List Scope) : Prop :=
  ∀ {i j name name' b b' slot}, boundIn l i name = some b → boundIn l j name' = some b' →
    b.value = .slot slot → b'.value = .slot slot → i = j ∧ name = name'

theorem Stored.distinct (h : Stored slots l) (hs : slots.Valid)
    (hdepth : l.length < Slots.hiddenDepth) : Distinct l := by
  intro i j name name' b b' slot hb hb' hslot hslot'
  obtain ⟨scope, hi, hb⟩ := boundIn_eq_some.mp hb
  obtain ⟨scope', hj, hb'⟩ := boundIn_eq_some.mp hb'
  exact h.slot_unique hs hdepth hi hj hb hb' hslot hslot'

/-- What can be seen is open. -/
theorem boundIn_visible {s : Scopes} {i : Nat} {name : String} {b : Binding}
    (h : boundIn s.visible i name = some b) : boundIn s.open_ i name = some b := by
  obtain ⟨scope, hi, hb⟩ := boundIn_eq_some.mp h
  obtain ⟨rest, hrest⟩ := s.visible_prefix
  refine boundIn_eq_some.mpr ⟨scope, ?_, hb⟩
  rw [← hrest, List.getElem?_append_left (List.getElem?_eq_some_iff.mp hi).1]
  exact hi

/-! ## Opening scopes and declaring variables -/

theorem Stored.push (h : Stored slots l) {kind : ScopeKind}
    (hkind : kind = .block ∨ kind = .loop none) :
    Stored slots ((⟨l⟩ : Scopes).push kind).open_ := by
  refine ⟨⟨fun {name b slot} hb _ => ?_, fun {r} hr => ?_, fun {step} hstep => ?_⟩, h⟩
  · cases hb
  · rcases hkind with rfl | rfl <;> cases hr
  · rcases hkind with rfl | rfl <;> cases hstep

/-- A binding that has the slot of its name and depth, if it has one, may be declared under a name
that is not taken. -/
theorem Stored.declare {s : Scopes} (h : Stored slots s.open_) {name : String} {b : Binding}
    (hhere : s.declaredHere name = false)
    (hslot : ∀ slot, b.value = .slot slot → slots.get? ⟨name, s.depth⟩ = some slot) :
    Stored slots (s.declare name b).open_ := by
  obtain ⟨l⟩ := s
  cases l with
  | nil => exact h
  | cons scope outer =>
    obtain ⟨hscope, houter⟩ := h
    have hnone : scope.bindings.get? name = none := by simpa [Table.contains] using hhere
    refine ⟨⟨fun {other b' slot'} hb' hslot' => ?_, fun {r} hr => ?_, hscope.marker⟩, houter⟩
    · by_cases hname : other = name
      · subst hname
        simp only [Table.get?_insert_self, Option.some.injEq] at hb'
        subst hb'
        exact .inl (hslot slot' hslot')
      · rw [Table.get?_insert_of_ne _ _ hname] at hb'
        exact hscope.named hb' hslot'
    · obtain ⟨hhidden, hreturn, hnewer⟩ := hscope.result hr
      refine ⟨hhidden, ?_, hnewer⟩
      have hname : returnLabel ≠ name := by
        rintro rfl
        rw [hreturn] at hnone
        cases hnone
      rw [Table.get?_insert_of_ne _ _ hname]
      exact hreturn

theorem Stored.declares {s s' : Scopes} (h : Stored slots s.open_) (hd : Declares slots s s') :
    Stored slots s'.open_ := by
  induction hd with
  | refl => exact h
  | declare _ hhere hb hslot ih =>
    refine ih.declare hhere fun slot hb' => ?_
    rw [hb] at hb'
    cases hb'
    exact hslot

/-- The scopes inside a counting loop. -/
theorem Stored.count {s : Scopes} (h : Stored slots s.open_) {marker : String} {slot : Slot}
    (hslot : slots.get? ⟨marker, s.depth + 1⟩ = some slot) :
    Stored slots (Stmt.countScopes s marker slot).open_ := by
  have hblock : Stored slots (s.push .block).open_ := h.push (.inl rfl)
  have hmarker : Stored slots ((s.push .block).declare marker ⟨.number, true, .slot slot⟩).open_ :=
    hblock.declare rfl fun slot' hslot' => by cases hslot'; exact hslot
  refine ⟨⟨fun {name b slot} hb _ => ?_, fun {r} hr => ?_, fun {step} hstep => ?_⟩, hmarker⟩
  · cases hb
  · cases hr
  · cases hstep
    exact ⟨_, _, marker, slot, rfl, rfl, Table.get?_insert_self _ _ _⟩

end Scopes

/-! ## What a place may store to -/

/-- The slots that code below a depth may store to: those of deeper variables, and those without a
name that are handed out on the way. -/
def Slots.Deeper (depth : Nat) (s t : Slots) (slot : Slot) : Prop :=
  (∃ key, t.get? key = some slot ∧ depth < key.depth ∧ key.depth < Slots.hiddenDepth) ∨
    t.Hidden slot ∧ s.size ≤ slot

namespace Scopes

/-- A variable that can be seen and changed has the slot. -/
def Sees (s : Scopes) (slot : Slot) : Prop :=
  ∃ scope ∈ s.visible, ∃ name b, scope.bindings.get? name = some b ∧ b.mutable = true ∧
    b.value = .slot slot

/-- The slots that code at a place may store to. -/
inductive Writable (scopes : Scopes) (s t : Slots) (slot : Slot) : Prop
  | deeper (h : Slots.Deeper scopes.depth s t slot)
  | sees (h : scopes.Sees slot)
  | result {function : String} {r : ReturnSlot}
    (h : scopes.enclosingFunction? = some (function, some r)) (hslot : r.slot = slot)
  | new {name : String} (hhere : scopes.declaredHere name = false)
    (hslot : t.get? ⟨name, scopes.depth⟩ = some slot)

end Scopes

theorem Slots.Deeper.mono {depth depth' : Nat} {s s' t t' : Slots} {slot : Slot}
    (h : Deeper depth s t slot) (hd : depth' ≤ depth) (hs : s'.size ≤ s.size)
    (ht : t.Extends t') : Deeper depth' s' t' slot := by
  rcases h with ⟨key, hkey, hlt, hhidden⟩ | ⟨hhidden, hle⟩
  · exact .inl ⟨key, ht.get? hkey, Nat.lt_of_le_of_lt hd hlt, hhidden⟩
  · exact .inr ⟨ht.hidden hhidden, Nat.le_trans hs hle⟩

namespace Scopes

variable {scopes scopes' : Scopes} {s s' t t' : Slots} {slot : Slot}

theorem Writable.mono (h : Writable scopes s t slot) (hs : s'.size ≤ s.size)
    (ht : t.Extends t') : Writable scopes s' t' slot := by
  cases h with
  | deeper h => exact .deeper (h.mono (Nat.le_refl _) hs ht)
  | sees h => exact .sees h
  | result h hslot => exact .result h hslot
  | new hhere hslot => exact .new hhere (ht.get? hslot)

theorem sees_declare {name : String} {b : Binding} (h : (scopes.declare name b).Sees slot) :
    scopes.Sees slot ∨ b.value = .slot slot := by
  obtain ⟨l⟩ := scopes
  cases l with
  | nil => exact .inl h
  | cons scope outer =>
    obtain ⟨seen, hseen, other, b', hb', hmutable, hslot⟩ := h
    rw [declare_cons, visible_cons] at hseen
    rcases List.mem_cons.mp hseen with rfl | hseen
    · by_cases hname : other = name
      · subst hname
        simp only [Table.get?_insert_self, Option.some.injEq] at hb'
        subst hb'
        exact .inr hslot
      · rw [Table.get?_insert_of_ne _ _ hname] at hb'
        refine .inl ⟨scope, ?_, other, b', hb', hmutable, hslot⟩
        rw [visible_cons]
        exact List.mem_cons_self
    · refine .inl ⟨seen, ?_, other, b', hb', hmutable, hslot⟩
      rw [visible_cons]
      exact List.mem_cons_of_mem _ hseen

/-- What may be stored to after some declarations might have been stored to before them. -/
theorem Writable.of_declares (hd : Declares t scopes scopes') (h : Writable scopes' s t slot) :
    Writable scopes s t slot := by
  induction hd with
  | refl => exact h
  | @declare scopes' name b slot' hd hhere hb hslot ih =>
    refine ih ?_
    cases h with
    | deeper h => exact .deeper (by rwa [depth_declare] at h)
    | sees h =>
      rcases sees_declare h with h | h
      · exact .sees h
      · rw [hb] at h
        cases h
        exact .new hhere hslot
    | result h hslot => exact .result (by rwa [enclosingFunction?_declare] at h) hslot
    | @new other hother hslot' =>
      rw [depth_declare] at hslot'
      exact .new ((Declares.refl.declare hhere hb hslot).declaredHere_eq_false hother) hslot'

/-- What a body inside a new scope may store to, the place of the scope may store to. -/
theorem Writable.of_push {kind : ScopeKind} (hkind : kind.isFunction = false)
    (hdepth : scopes.depth + 1 < Slots.hiddenDepth) (h : Writable (scopes.push kind) s t slot) :
    Writable scopes s t slot := by
  cases h with
  | deeper h => exact .deeper (h.mono (by simp) (Nat.le_refl _) (.refl t))
  | sees h =>
    obtain ⟨seen, hseen, name, b, hb, hmutable, hslot⟩ := h
    rw [visible_push hkind] at hseen
    rcases List.mem_cons.mp hseen with rfl | hseen
    · cases hb
    · exact .sees ⟨seen, hseen, name, b, hb, hmutable, hslot⟩
  | @result function r h hslot =>
    cases kind with
    | function => cases hkind
    | block => exact .result h hslot
    | loop => exact .result h hslot
  | @new name hhere hslot => exact .deeper (.inl ⟨_, hslot, Nat.lt_succ_self _, hdepth⟩)

end Scopes

/-- What is bound in an open scope is not deeper, provided that the return values of the functions
around are older than what is new. -/
theorem Scopes.Stored.not_deeper {scopes : Scopes} {s t u : Slots} {slot : Slot} {i : Nat}
    {name : String} {b : Binding} (h : Stored u scopes.open_) (hu : u.Valid) (he : t.Extends u)
    (hdepth : scopes.depth < Slots.hiddenDepth)
    (hold : ∀ other ∈ scopes.open_, ∀ r, other.result? = some r → r.slot < s.size)
    (hb : boundIn scopes.open_ i name = some b) (hslot : b.value = .slot slot) :
    ¬ Slots.Deeper scopes.depth s t slot := by
  obtain ⟨scope, hi, hb⟩ := boundIn_eq_some.mp hb
  have hlen : (scopes.open_.drop (i + 1)).length + 1 ≤ scopes.depth := by
    have hlt := (List.getElem?_eq_some_iff.mp hi).1
    rw [List.length_drop, Scopes.depth]
    omega
  rcases (h.holds hi).slot_cases hb hslot with hnamed | ⟨-, -, hhidden, r, hr, rfl⟩
  · rintro (⟨key, hkey, hdeep, -⟩ | ⟨hhidden, -⟩)
    · rw [hu.key_unique (he.get? hkey) hnamed] at hdeep
      exact absurd hlen (Nat.not_le_of_lt hdeep)
    · exact hu.not_hidden hnamed (by simp only; omega) (he.hidden hhidden)
  · rintro (⟨key, hkey, -, hnamed⟩ | ⟨-, hnew⟩)
    · exact hu.not_hidden (he.get? hkey) (Nat.ne_of_lt hnamed) hhidden
    · exact absurd (hold scope (List.mem_of_getElem? hi) r hr) (Nat.not_lt_of_le hnew)

/-! ## What lowering leaves behind -/

/-- What holds wherever something that opens so many scopes is lowered. -/
structure Env.Ready (env : Env) (slots : Slots) (nesting : Nat) : Prop where
  valid : slots.Valid
  stored : Scopes.Stored slots env.scopes.open_
  room : env.scopes.depth + nesting + env.callNesting < Slots.hiddenDepth

/-- What lowering something below a depth leaves behind: more slots, and actions that store only to
what is deeper or new. -/
structure Grown (depth : Nat) (s t : Slots) (actions : List Action) : Prop where
  valid : t.Valid
  extend : s.Extends t
  writes : ∀ slot ∈ Action.writesBody actions, Slots.Deeper depth s t slot

/-- Code for a call is deeper than the call. -/
structure Splice.Grows (splice? : Option Splice) : Prop where
  grown : ∀ {splice env name decl args span st out st'}, splice? = some splice →
    env.Ready st.slots 0 → env.declarations.functions.get? name = some decl →
    decl.name ∉ env.inlining → splice env decl args span st = .ok out st' →
    Grown env.scopes.depth st.slots st'.slots out.body

section

variable {env : Env} {splice? : Option Splice} {depth : Nat} {s t u : Slots}

theorem Grown.nil (hs : s.Valid) : Grown depth s s [] := by
  refine ⟨hs, .refl s, fun slot hslot => ?_⟩
  cases hslot

theorem Grown.append {as bs : List Action} (ha : Grown depth s t as) (hb : Grown depth t u bs) :
    Grown depth s u (as ++ bs) := by
  refine ⟨hb.valid, ha.extend.trans hb.extend, fun slot hslot => ?_⟩
  rw [Action.writesBody_append] at hslot
  rcases List.mem_append.mp hslot with hslot | hslot
  · exact (ha.writes slot hslot).mono (Nat.le_refl _) (Nat.le_refl _) hb.extend
  · exact (hb.writes slot hslot).mono (Nat.le_refl _) ha.extend.size_le (.refl u)

theorem Grown.block {as : List Action} (h : Grown depth s t as) : Grown depth s t [.block as] := by
  refine ⟨h.valid, h.extend, fun slot hslot => h.writes slot ?_⟩
  simpa [Action.writesBody, Action.writes] using hslot

theorem Env.Ready.grown {nesting : Nat} {as : List Action} (h : env.Ready s nesting)
    (hg : Grown depth s t as) : env.Ready t nesting :=
  ⟨hg.valid, h.stored.extend hg.extend, h.room⟩

theorem Env.Ready.granted {nesting : Nat} {key : SlotKey} {slot : Slot} (h : env.Ready s nesting)
    (hg : Slots.Granted s t key slot) : env.Ready t nesting :=
  ⟨hg.valid, h.stored.extend hg.extend, h.room⟩

theorem Env.Ready.le {nesting nesting' : Nat} (h : env.Ready s nesting) (hle : nesting' ≤ nesting) :
    env.Ready s nesting' :=
  ⟨h.valid, h.stored, by have := h.room; omega⟩

/-- What lowering something at a place leaves behind: more slots, and code that stores only to what
the place may store to. -/
structure Kept (scopes : Scopes) (s t : Slots) (written : List Slot) : Prop where
  valid : t.Valid
  extend : s.Extends t
  writes : ∀ slot ∈ written, Scopes.Writable scopes s t slot

variable {scopes : Scopes} {written written' : List Slot}

theorem Kept.nil (hs : s.Valid) : Kept scopes s s [] := by
  refine ⟨hs, .refl s, fun slot hslot => ?_⟩
  cases hslot

theorem Kept.append (h : Kept scopes s t written) (h' : Kept scopes t u written') :
    Kept scopes s u (written ++ written') := by
  refine ⟨h'.valid, h.extend.trans h'.extend, fun slot hslot => ?_⟩
  rcases List.mem_append.mp hslot with hslot | hslot
  · exact (h.writes slot hslot).mono (Nat.le_refl _) h'.extend
  · exact (h'.writes slot hslot).mono h.extend.size_le (.refl u)

theorem Kept.subset (h : Kept scopes s t written) (hsub : written' ⊆ written) :
    Kept scopes s t written' :=
  ⟨h.valid, h.extend, fun slot hslot => h.writes slot (hsub hslot)⟩

/-- Storing to one more slot that the place may store to. -/
theorem Kept.write (h : Kept scopes s t written) {slot : Slot}
    (hslot : Scopes.Writable scopes s t slot) : Kept scopes s t (written ++ [slot]) := by
  refine ⟨h.valid, h.extend, fun other hother => ?_⟩
  rcases List.mem_append.mp hother with hother | hother
  · exact h.writes other hother
  · obtain rfl := List.mem_singleton.mp hother
    exact hslot

theorem Grown.kept {as : List Action} (h : Grown depth s t as) (hd : scopes.depth ≤ depth) :
    Kept scopes s t (Action.writesBody as) :=
  ⟨h.valid, h.extend, fun slot hslot =>
    .deeper ((h.writes slot hslot).mono hd (Nat.le_refl _) (.refl t))⟩

theorem Kept.of_push {kind : ScopeKind} (hkind : kind.isFunction = false)
    (hd : scopes.depth + 1 < Slots.hiddenDepth) (h : Kept (scopes.push kind) s t written) :
    Kept scopes s t written :=
  ⟨h.valid, h.extend, fun slot hslot => (h.writes slot hslot).of_push hkind hd⟩

theorem Kept.of_declares {scopes' : Scopes} (hd : scopes.Declares t scopes')
    (h : Kept scopes' s t written) : Kept scopes s t written :=
  ⟨h.valid, h.extend, fun slot hslot => (h.writes slot hslot).of_declares hd⟩

theorem Env.Ready.kept {nesting : Nat} (h : env.Ready s nesting) (hk : Kept scopes s t written) :
    env.Ready t nesting :=
  ⟨hk.valid, h.stored.extend hk.extend, h.room⟩

theorem Env.Ready.push {nesting : Nat} (h : env.Ready s (nesting + 1)) {kind : ScopeKind}
    (hkind : kind = .block ∨ kind = .loop none) : (env.push kind).Ready s nesting := by
  refine ⟨h.valid, h.stored.push hkind, ?_⟩
  have hroom := h.room
  show env.scopes.depth + 1 + nesting + env.callNesting < _
  omega

/-- The place of the first of two branches, which has the room of the deeper one. -/
theorem Env.Ready.push_left {m n : Nat} (h : env.Ready s (max m n + 1)) :
    (env.push .block).Ready s m :=
  (h.le (Nat.succ_le_succ (Nat.le_max_left m n))).push (.inl rfl)

theorem Env.Ready.push_right {m n : Nat} (h : env.Ready s (max m n + 1)) :
    (env.push .block).Ready s n :=
  (h.le (Nat.succ_le_succ (Nat.le_max_right m n))).push (.inl rfl)

theorem Env.Ready.declares {nesting : Nat} (h : env.Ready s nesting)
    (hd : env.scopes.Declares s scopes) : ({ env with scopes } : Env).Ready s nesting := by
  refine ⟨h.valid, h.stored.declares hd, ?_⟩
  show scopes.depth + nesting + env.callNesting < _
  rw [hd.depth_eq]
  exact h.room

/-- The place inside a counting loop. -/
theorem Env.Ready.count {nesting : Nat} (h : env.Ready s (nesting + 2)) {marker : String}
    {slot : Slot} (hslot : s.get? ⟨marker, env.scopes.depth + 1⟩ = some slot) :
    ({ env with scopes := Stmt.countScopes env.scopes marker slot } : Env).Ready s nesting := by
  refine ⟨h.valid, h.stored.count hslot, ?_⟩
  have hroom := h.room
  show env.scopes.depth + 1 + 1 + nesting + env.callNesting < _
  omega

/-- What the body of a counting loop may store to, the place of the loop may store to. -/
theorem Kept.of_count {marker : String} {slot : Slot} (hd : scopes.depth + 2 < Slots.hiddenDepth)
    (hslot : t.get? ⟨marker, scopes.depth + 1⟩ = some slot)
    (h : Kept (Stmt.countScopes scopes marker slot) s t written) : Kept scopes s t written := by
  have hmarker :
      Kept ((scopes.push .block).declare marker ⟨.number, true, .slot slot⟩) s t written :=
    Kept.of_push rfl (by rw [Scopes.depth_declare]; exact hd) h
  have hdeclares : Scopes.Declares t (scopes.push .block)
      ((scopes.push .block).declare marker ⟨.number, true, .slot slot⟩) :=
    .declare .refl rfl rfl hslot
  exact (hmarker.of_declares hdeclares).of_push rfl (Nat.lt_of_succ_lt hd)

theorem Env.Ready.depth_lt {nesting : Nat} (h : env.Ready s nesting) :
    env.scopes.depth + nesting < Slots.hiddenDepth := by
  have := h.room
  omega

/-- The open scopes of a place are fewer than the depth of hidden slots. -/
theorem Env.Ready.open_lt {nesting : Nat} (h : env.Ready s nesting) :
    env.scopes.depth < Slots.hiddenDepth :=
  Nat.lt_of_le_of_lt (Nat.le_add_right _ _) h.depth_lt

/-- A place with room for a scope has room for the slots in it. -/
theorem Env.Ready.inner_lt {nesting : Nat} (h : env.Ready s (nesting + 1)) :
    env.scopes.depth + 1 < Slots.hiddenDepth := by
  have := h.depth_lt
  omega

end

end RuleScript
