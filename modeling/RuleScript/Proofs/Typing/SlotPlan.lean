import RuleScript.Proofs.Meaning.Stmt
import RuleScript.Proofs.Run.Trust

/-!
# What every slot is for

At every place in a program a slot is for variables of one type at most: those that are bound to it
in an open scope. Return values and saved conditions have slots of their own, which keep their types
from one round of a loop to the next. A *plan* says which, for all slots that a program is given.

While a program is lowered, only some of its slots have been handed out. What holds of the code for
a part of the program holds in every plan that agrees with what that part was given.

## Main definitions

* `Scopes.Adds`: scopes that bind more variables
* `SlotPlan`: the types of the slots that stand for no variable
* `SlotPlan.slotTypes`: the types of all slots at a place
* `SlotPlan.Keeps`, `SlotPlan.Gives`: code and values that make sense at a place
* `Planned`: what holds in every plan that agrees with what was handed out

## Main results

* `SlotPlan.Fits.unique`: a slot has one type
* `Planned.and`: what is handed out by one part after the other
-/

namespace RuleScript

open RuleScript.Computation

/-! ## What is bound -/

namespace Scopes

variable {s s' : Scopes} {scope : Scope} {outer : List Scope} {b b' : Binding} {name : String}
  {slots : Slots}

theorem Binds.declare (h : s.Binds b) (hhere : s.declaredHere name = false) :
    (s.declare name b').Binds b := by
  obtain ⟨l⟩ := s
  cases l with
  | nil => exact h
  | cons scope outer =>
    rw [declare_cons, binds_cons]
    refine (binds_cons.mp h).imp_left fun ⟨other, hother⟩ => ⟨other, ?_⟩
    have hne : other ≠ name := by
      rintro rfl
      simp [Table.contains, hother] at hhere
    exact (Table.get?_insert_of_ne _ _ hne).trans hother

/-- The variable that is declared is bound, where there is a scope. -/
theorem binds_declare_self (hopen : s.open_ ≠ []) : (s.declare name b).Binds b := by
  obtain ⟨l⟩ := s
  cases l with
  | nil => exact absurd rfl hopen
  | cons scope outer => exact binds_cons.mpr (.inl ⟨name, Table.get?_insert_self _ _ _⟩)

/-- A slot that is bound belongs to a name that is not deeper, or to none. -/
theorem Stored.binds_cases (h : Stored slots s.open_) (hb : s.Binds b) {slot : Slot}
    (hslot : b.value = .slot slot) :
    (∃ key, slots.get? key = some slot ∧ key.depth ≤ s.depth) ∨ slots.Hidden slot ∧
      ∃ scope ∈ s.open_, ∃ r, scope.result? = some r ∧ b = ⟨r.ty, false, .slot r.slot⟩ := by
  obtain ⟨scope, hscope, name, hb⟩ := hb
  obtain ⟨i, hi⟩ := List.getElem?_of_mem hscope
  have hlt := (List.getElem?_eq_some_iff.mp hi).1
  rcases (h.holds hi).named hb hslot with hnamed | ⟨-, r, hr, rfl⟩
  · refine .inl ⟨_, hnamed, ?_⟩
    simp only [List.length_drop, depth]
    omega
  · cases hslot
    exact .inr ⟨((h.holds hi).result hr).1, scope, hscope, r, hr, rfl⟩

/-- One scope's variables are not another's. -/
theorem Stored.binds_unique (h : Stored slots s.open_) (hs : slots.Valid)
    (hdepth : s.depth < Slots.hiddenDepth) (hb : s.Binds b) (hb' : s.Binds b') {slot : Slot}
    (hslot : b.value = .slot slot) (hslot' : b'.value = .slot slot) : b = b' := by
  obtain ⟨scope, hscope, name, hb⟩ := hb
  obtain ⟨scope', hscope', name', hb'⟩ := hb'
  obtain ⟨i, hi⟩ := List.getElem?_of_mem hscope
  obtain ⟨j, hj⟩ := List.getElem?_of_mem hscope'
  obtain ⟨rfl, rfl⟩ := h.slot_unique hs hdepth hi hj hb hb' hslot hslot'
  cases hi.symm.trans hj
  exact Option.some.inj (hb.symm.trans hb')

/-- Scopes that bind everything that is bound, and variables beside. -/
structure Adds (s s' : Scopes) : Prop where
  binds : ∀ {b}, s.Binds b → s'.Binds b
  new : ∀ {b}, s'.Binds b → s.Binds b ∨ ∃ slot, b.value = .slot slot

namespace Adds

theorem refl (s : Scopes) : s.Adds s := ⟨id, .inl⟩

theorem push (s : Scopes) (kind : ScopeKind) : s.Adds (s.push kind) :=
  ⟨binds_push.mpr, fun h => .inl (binds_push.mp h)⟩

theorem trans {s'' : Scopes} (h : s.Adds s') (h' : s'.Adds s'') : s.Adds s'' :=
  ⟨fun hb => h'.binds (h.binds hb), fun hb => (h'.new hb).elim h.new .inr⟩

theorem of_declares (h : Declares slots s s') : s.Adds s' := by
  induction h with
  | refl => exact .refl s
  | declare _ hhere hb _ ih =>
    refine ih.trans ⟨fun h => h.declare hhere, fun h => ?_⟩
    rcases binds_of_declare h with rfl | h
    · exact .inr ⟨_, hb⟩
    · exact .inl h

/-- Only the return value is bound at the start of a call, beside what is bound outside. -/
theorem enter (s : Scopes) {function : String} {types : Table Ty} {ret : Option ReturnSlot} :
    s.Adds (FunctionDecl.enteredScopes function types ret s.open_) := by
  refine ⟨fun hb => binds_cons.mpr (.inr hb), fun hb => ?_⟩
  refine (binds_cons.mp hb).symm.imp_right fun ⟨name, hb⟩ => ?_
  obtain ⟨-, r, -, rfl⟩ := FunctionDecl.get?_returnBindings hb
  exact ⟨r.slot, rfl⟩

end Adds

/-- The constants of a trigger have the types that they are bound to. -/
def Provides {target : Target} (guard : Guard target) (s : Scopes) : Prop :=
  s.Constants fun ty text => Ensures (guard ty · = true) (Computation.constant text)

theorem Adds.provides {target : Target} {guard : Guard target} (h : s.Adds s')
    (hs : s.Provides guard) : s'.Provides guard := by
  intro ty mutable text hb
  rcases h.new hb with hb | ⟨slot, hslot⟩
  · exact hs ty mutable text hb
  · cases hslot

end Scopes

/-! ## Plans -/

/-- The slots of a program, and the types of those that stand for no variable of the place. -/
structure SlotPlan where
  slots : Slots
  types : Slot → Option Ty
  valid : slots.Valid

namespace SlotPlan

variable {plan : SlotPlan} {s s' s'' : Scopes} {ms ms' : List Marked} {m : Marked} {n : Nat}
  {slot : Slot} {ty : Ty}

/-- The types of the slots at a place. -/
def slotTypes (plan : SlotPlan) (s : Scopes) : SlotTypes := fun slot ty =>
  plan.types slot = some ty ∨ ∃ mutable, s.Binds ⟨ty, mutable, .slot slot⟩

/-- A plan suits a place. The slots that stand for no variable of the place have no name, or a name
above some depth that is not bound at the place. -/
structure Fits (plan : SlotPlan) (n : Nat) (s : Scopes) : Prop where
  stored : Scopes.Stored plan.slots s.open_
  open_lt : s.depth < Slots.hiddenDepth
  le : n ≤ s.depth + 1
  results : ∀ scope ∈ s.open_, ∀ r, scope.result? = some r → plan.types r.slot = some r.ty
  apart : ∀ slot ty, plan.types slot = some ty → plan.slots.Hidden slot ∨
    (∃ key, plan.slots.get? key = some slot ∧ key.depth < n) ∧ ∀ b, s.Binds b → b.value ≠ .slot slot

namespace Fits

theorem not_hidden (h : plan.Fits n s) {key : SlotKey} (hkey : plan.slots.get? key = some slot)
    (hdepth : key.depth ≤ s.depth) : ¬ plan.slots.Hidden slot :=
  plan.valid.not_hidden hkey (Nat.ne_of_lt (Nat.lt_of_le_of_lt hdepth h.open_lt))

/-- **A slot has one type.** -/
theorem unique (h : plan.Fits n s) {ty' : Ty} (hty : plan.slotTypes s slot ty)
    (hty' : plan.slotTypes s slot ty') : ty = ty' := by
  have hmixed : ∀ {ty ty' mutable}, plan.types slot = some ty →
      s.Binds ⟨ty', mutable, .slot slot⟩ → ty = ty' := by
    intro ty ty' mutable hty hb
    rcases h.apart slot ty hty with hhidden | ⟨-, hnot⟩
    -- A variable has a name, so only a return value is bound to a slot without one.
    · rcases h.stored.binds_cases hb rfl with ⟨key, hkey, hdepth⟩ | ⟨-, scope, hscope, r, hr, heq⟩
      · exact absurd hhidden (h.not_hidden hkey hdepth)
      · cases heq
        exact Option.some.inj (hty.symm.trans (h.results scope hscope r hr))
    · exact absurd rfl (hnot _ hb)
  rcases hty with hty | ⟨mutable, hb⟩
  · rcases hty' with hty' | ⟨mutable', hb'⟩
    · exact Option.some.inj (hty.symm.trans hty')
    · exact hmixed hty hb'
  · rcases hty' with hty' | ⟨mutable', hb'⟩
    · exact (hmixed hty' hb).symm
    · cases h.stored.binds_unique plan.valid h.open_lt hb hb' rfl rfl
      rfl

/-- A plan suits more scopes, if their new variables are not above the depth. -/
theorem adds (h : plan.Fits n s) (hlt : s'.depth < Slots.hiddenDepth) (hle : s.depth ≤ s'.depth)
    (hstored : Scopes.Stored plan.slots s'.open_)
    (hresults : ∀ scope ∈ s'.open_, ∀ r, scope.result? = some r → plan.types r.slot = some r.ty)
    (hnew : ∀ b slot, s'.Binds b → b.value = .slot slot → s.Binds b ∨ plan.slots.Hidden slot ∨
      ∃ key, plan.slots.get? key = some slot ∧ n ≤ key.depth) : plan.Fits n s' := by
  refine ⟨hstored, hlt, Nat.le_trans h.le (Nat.succ_le_succ hle), hresults, fun slot ty hty => ?_⟩
  refine (h.apart slot ty hty).imp_right fun ⟨⟨key, hkey, hdepth⟩, hnot⟩ =>
    ⟨⟨key, hkey, hdepth⟩, fun b hb hslot => ?_⟩
  rcases hnew b slot hb hslot with hb | hhidden | ⟨key', hkey', hdepth'⟩
  · exact hnot b hb hslot
  · exact h.not_hidden hkey (Nat.le_of_lt_succ (Nat.lt_of_lt_of_le hdepth h.le)) hhidden
  · rw [plan.valid.key_unique hkey hkey'] at hdepth
    exact absurd hdepth (Nat.not_lt_of_le hdepth')

/-- A plan suits a place also if more slots above it might stand for something else. -/
theorem of_le (h : plan.Fits n s) {n' : Nat} (hn : n ≤ n') (hle : n' ≤ s.depth + 1) :
    plan.Fits n' s := by
  refine ⟨h.stored, h.open_lt, hle, h.results, fun slot ty hty => ?_⟩
  exact (h.apart slot ty hty).imp_right fun ⟨⟨key, hkey, hdepth⟩, hnot⟩ =>
    ⟨⟨key, hkey, Nat.lt_of_lt_of_le hdepth hn⟩, hnot⟩

theorem push (h : plan.Fits n s) {kind : ScopeKind} (hkind : kind.isFunction = false)
    (hstored : Scopes.Stored plan.slots (s.push kind).open_)
    (hlt : s.depth + 1 < Slots.hiddenDepth) : plan.Fits n (s.push kind) := by
  refine h.adds hlt (Nat.le_succ _) hstored (fun scope hscope r hr => ?_)
    fun b slot hb _ => .inl (Scopes.binds_push.mp hb)
  rcases List.mem_cons.mp hscope with rfl | hscope
  · cases kind with
    | function => cases hkind
    | block => cases hr
    | loop => cases hr
  · exact h.results scope hscope r hr

/-- Declaring a variable in the innermost scope, which is not above the depth. -/
theorem declare (h : plan.Fits n s) (hn : n ≤ s.depth) {name : String} {b : Binding}
    (hhere : s.declaredHere name = false) (hb : b.value = .slot slot)
    (hslot : plan.slots.get? ⟨name, s.depth⟩ = some slot) : plan.Fits n (s.declare name b) := by
  refine h.adds (by rw [Scopes.depth_declare]; exact h.open_lt)
    (by rw [Scopes.depth_declare]) (h.stored.declare hhere fun slot' hslot' => ?_)
    (fun scope hscope r hr => ?_) fun b' slot' hb' hslot' => ?_
  · cases hb.symm.trans hslot'
    exact hslot
  · obtain ⟨l⟩ := s
    cases l with
    | nil => cases hscope
    | cons first outer =>
      rcases List.mem_cons.mp hscope with rfl | hscope
      · exact h.results first List.mem_cons_self r hr
      · exact h.results scope (List.mem_cons_of_mem _ hscope) r hr
  · rcases Scopes.binds_of_declare hb' with rfl | hb'
    · cases hb.symm.trans hslot'
      exact .inr (.inr ⟨_, hslot, hn⟩)
    · exact .inl hb'

/-- The place after some declarations. -/
theorem declares (h : plan.Fits s.depth s) (hd : s.Declares plan.slots s') :
    plan.Fits s'.depth s' := by
  induction hd with
  | refl => exact h
  | declare _ hhere hb hslot ih =>
    rw [Scopes.depth_declare]
    exact ih.declare (Nat.le_refl _) hhere hb hslot

/-- The scopes inside a counting loop. -/
theorem count (h : plan.Fits n s) (hn : n ≤ s.depth) {marker : String}
    (hslot : plan.slots.get? ⟨marker, s.depth + 1⟩ = some slot)
    (hlt : s.depth + 2 < Slots.hiddenDepth) : plan.Fits n (Stmt.countScopes s marker slot) := by
  have houter : plan.Fits n (s.push .block) :=
    h.push rfl (h.stored.push (.inl rfl)) (Nat.lt_of_succ_lt hlt)
  have hmarker : plan.Fits n ((s.push .block).declare marker ⟨.number, true, .slot slot⟩) :=
    houter.declare (Nat.le_succ_of_le hn) rfl rfl hslot
  exact hmarker.push rfl (h.stored.count hslot) (by rw [Scopes.depth_declare]; exact hlt)

/-- Entering a call, whose return value has its type in the plan. -/
theorem enter (h : plan.Fits n s) {function : String} {types : Table Ty} {ret : Option ReturnSlot}
    (hstored : Scopes.Stored plan.slots
      (FunctionDecl.enteredScopes function types ret s.open_).open_)
    (hlt : s.depth + 1 < Slots.hiddenDepth)
    (hret : ∀ r, ret = some r → plan.types r.slot = some r.ty) :
    plan.Fits n (FunctionDecl.enteredScopes function types ret s.open_) := by
  refine h.adds hlt (Nat.le_succ _) hstored (fun scope hscope r hr => ?_) fun b slot hb hslot => ?_
  · rcases List.mem_cons.mp hscope with rfl | hscope
    · exact hret r hr
    · exact h.results scope hscope r hr
  · rcases Scopes.binds_cons.mp hb with ⟨name, hb⟩ | hb
    · obtain ⟨-, r, rfl, rfl⟩ := FunctionDecl.get?_returnBindings hb
      cases hslot
      exact .inr (.inl (hstored.1.result rfl).1)
    · exact .inl hb

end Fits

/-! ## Places with the same types -/

theorem slotTypes_of_adds (h : s.Adds s') (hty : plan.slotTypes s slot ty) :
    plan.slotTypes s' slot ty :=
  hty.imp_right fun ⟨mutable, hb⟩ => ⟨mutable, h.binds hb⟩

/-- An empty scope changes no types. -/
theorem slotTypes_push {kind : ScopeKind} : plan.slotTypes (s.push kind) = plan.slotTypes s := by
  funext slot ty
  simp only [slotTypes, Scopes.binds_push]

/-- At the start of a call the slots have the types that they have outside. -/
theorem slotTypes_enter {function : String} {types : Table Ty} {ret : Option ReturnSlot}
    (hret : ∀ r, ret = some r → plan.types r.slot = some r.ty) :
    plan.slotTypes (FunctionDecl.enteredScopes function types ret s.open_) =
      plan.slotTypes s := by
  funext slot ty
  refine propext ⟨fun hty => ?_, fun hty => ?_⟩
  · rcases hty with hty | ⟨mutable, hb⟩
    · exact .inl hty
    · rcases Scopes.binds_cons.mp hb with ⟨name, hb⟩ | hb
      · obtain ⟨-, r, rfl, heq⟩ := FunctionDecl.get?_returnBindings hb
        cases heq
        exact .inl (hret r rfl)
      · exact .inr ⟨mutable, hb⟩
  · exact hty.imp_right fun ⟨mutable, hb⟩ => ⟨mutable, Scopes.binds_cons.mpr (.inr hb)⟩

/-! ## Slots of variables that are not declared yet -/

/-- A plan that has at least the types of another one. -/
structure Below (plan plan' : SlotPlan) : Prop where
  slots_eq : plan'.slots = plan.slots
  types : ∀ slot ty, plan.types slot = some ty → plan'.types slot = some ty

/-- The plan in which a slot has this type. -/
def withType (plan : SlotPlan) (slot : Slot) (ty : Ty) : SlotPlan :=
  { plan with types := fun other => if other = slot then some ty else plan.types other }

section

variable {marker : String}

/-- The slot of a variable that is deeper than all that are bound stands for nothing yet. -/
theorem Fits.types_eq_none (h : plan.Fits n s)
    (hslot : plan.slots.get? ⟨marker, s.depth + 1⟩ = some slot)
    (hlt : s.depth + 1 < Slots.hiddenDepth) : plan.types slot = none := by
  rw [Option.eq_none_iff_forall_ne_some]
  intro ty hty
  rcases h.apart slot ty hty with hhidden | ⟨⟨key, hkey, hdepth⟩, -⟩
  · exact plan.valid.not_hidden hslot (Nat.ne_of_lt hlt) hhidden
  · rw [plan.valid.key_unique hkey hslot] at hdepth
    exact absurd h.le (Nat.not_le_of_lt hdepth)

theorem Fits.below_withType (h : plan.Fits n s)
    (hslot : plan.slots.get? ⟨marker, s.depth + 1⟩ = some slot)
    (hlt : s.depth + 1 < Slots.hiddenDepth) : plan.Below (plan.withType slot ty) := by
  refine ⟨rfl, fun other ty' hty' => ?_⟩
  refine (if_neg ?_).trans hty'
  rintro rfl
  rw [h.types_eq_none hslot hlt] at hty'
  cases hty'

/-- The slot of a variable has its type already where the variable is not declared yet. -/
theorem Fits.withType (h : plan.Fits n s)
    (hslot : plan.slots.get? ⟨marker, s.depth + 1⟩ = some slot)
    (hlt : s.depth + 1 < Slots.hiddenDepth) :
    (plan.withType slot ty).Fits (s.depth + 2) (s.push .block) := by
  have houter : plan.Fits n (s.push .block) := h.push rfl (h.stored.push (.inl rfl)) hlt
  have hshallow : ∀ b, s.Binds b → b.value ≠ .slot slot := by
    intro b hb hvalue
    rcases h.stored.binds_cases hb hvalue with ⟨key, hkey, hdepth⟩ | ⟨hhidden, -⟩
    · rw [plan.valid.key_unique hkey hslot] at hdepth
      exact absurd hdepth (Nat.not_succ_le_self _)
    · exact plan.valid.not_hidden hslot (Nat.ne_of_lt hlt) hhidden
  refine ⟨houter.stored, hlt, Nat.le_refl _, fun scope hscope r hr => ?_, fun other ty' hty' => ?_⟩
  · exact (h.below_withType hslot hlt).types _ _ (houter.results scope hscope r hr)
  · by_cases hother : other = slot
    · subst hother
      exact .inr ⟨⟨_, hslot, Nat.lt_succ_self _⟩, fun b hb => hshallow b (Scopes.binds_push.mp hb)⟩
    · have hty : plan.types other = some ty' := (if_neg hother).symm.trans hty'
      exact (houter.apart other ty' hty).imp_right fun ⟨⟨key, hkey, hdepth⟩, hnot⟩ =>
        ⟨⟨key, hkey, Nat.lt_of_lt_of_le hdepth (Nat.le_succ_of_le h.le)⟩, hnot⟩

theorem Fits.slotTypes_withType (h : plan.Fits n s) {mutable : Bool}
    (hslot : plan.slots.get? ⟨marker, s.depth + 1⟩ = some slot)
    (hlt : s.depth + 1 < Slots.hiddenDepth) :
    (plan.withType slot ty).slotTypes (s.push .block) =
      plan.slotTypes ((s.push .block).declare marker ⟨ty, mutable, .slot slot⟩) := by
  have hbelow : plan.Below (plan.withType slot ty) := h.below_withType hslot hlt
  funext other ty'
  refine propext ⟨fun hty => ?_, fun hty => ?_⟩
  · rcases hty with hty | ⟨mutable', hb⟩
    · by_cases hother : other = slot
      · subst hother
        cases (if_pos rfl).symm.trans hty
        exact .inr ⟨mutable, Scopes.binds_declare_self (List.cons_ne_nil _ _)⟩
      · exact .inl ((if_neg hother).symm.trans hty)
    · exact .inr ⟨mutable', hb.declare rfl⟩
  · rcases hty with hty | ⟨mutable', hb⟩
    · exact .inl (hbelow.types _ _ hty)
    · rcases Scopes.binds_of_declare hb with heq | hb
      · cases heq
        exact .inl (if_pos rfl)
      · exact .inr ⟨mutable', hb⟩

end

/-! ## Code that makes sense at a place -/

/-- Where the constants of the trigger have their types, running the actions refuses no read and
keeps the types of the slots; where it ends normally, they are those of another place. -/
def Keeps (plan : SlotPlan) (s : Scopes) (ms : List Marked) (s' : Scopes) : Prop :=
  ∀ (target : Target) (guard : Guard target), guard.Sound (fun ty => ty.hasGeneric = false) →
    s.Provides guard → Marked.Keeps guard (plan.slotTypes s) ms (plan.slotTypes s')

/-- Where the constants of the trigger have their types, so does the value, and evaluating it
refuses no read. -/
def Gives (plan : SlotPlan) (s : Scopes) (v : Value) : Prop :=
  ∀ (target : Target) (guard : Guard target), guard.Sound (fun ty => ty.hasGeneric = false) →
    s.Provides guard → v.Gives guard (plan.slotTypes s) (guard v.ty · = true)

theorem Gives.adds {v : Value} (h : plan.Gives s v) (hadds : s.Adds s') : plan.Gives s' v :=
  fun target guard hguard hs' =>
    (h target guard hguard (hs'.of_binds hadds.binds)).of_types fun _ _ =>
      slotTypes_of_adds hadds

theorem Gives.of_slotTypes {plan' : SlotPlan} {v : Value} (h : plan'.Gives s' v)
    (heq : plan'.slotTypes s' = plan.slotTypes s)
    (hprovides : ∀ {target : Target} {guard : Guard target}, s.Provides guard → s'.Provides guard) :
    plan.Gives s v := by
  intro target guard hguard hs
  rw [← heq]
  exact h target guard hguard (hprovides hs)

/-- Where the constants of the trigger have their types, evaluating the value refuses no read. -/
def Harmless (plan : SlotPlan) (s : Scopes) (v : Value) : Prop :=
  ∀ (target : Target) (guard : Guard target), guard.Sound (fun ty => ty.hasGeneric = false) →
    s.Provides guard → v.Gives guard (plan.slotTypes s) fun _ => True

theorem Gives.harmless {v : Value} (h : plan.Gives s v) : plan.Harmless s v :=
  fun _ _ hguard hs => (h _ _ hguard hs).mono fun _ _ => trivial

namespace Keeps

theorem nil : plan.Keeps s [] s := fun _ _ _ _ => .nil

theorem append (h : plan.Keeps s ms s') (h' : plan.Keeps s' ms' s'') (hadds : s.Adds s') :
    plan.Keeps s (ms ++ ms') s'' := fun _ _ hguard hs =>
  (h _ _ hguard hs).append (h' _ _ hguard (hadds.provides hs)) fun _ _ =>
    slotTypes_of_adds hadds

theorem weaken (h : plan.Keeps s ms s') (hadds : s''.Adds s') : plan.Keeps s ms s'' :=
  fun _ _ hguard hs => (h _ _ hguard hs).weaken fun _ _ => slotTypes_of_adds hadds

theorem block (h : plan.Keeps s ms s') : plan.Keeps s [.block ms] s' :=
  fun _ _ hguard hs => (h _ _ hguard hs).block

theorem behind (h : plan.Keeps s (ms ++ [m]) s') : plan.Keeps s [.behind ms m] s' :=
  fun _ _ hguard hs => (h _ _ hguard hs).behind

/-- Code that makes sense at a place makes sense at another with the same types. -/
theorem of_slotTypes {plan' : SlotPlan} (h : plan'.Keeps s' ms s')
    (heq : plan'.slotTypes s' = plan.slotTypes s)
    (hprovides : ∀ {target : Target} {guard : Guard target}, s.Provides guard → s'.Provides guard) :
    plan.Keeps s ms s := by
  intro target guard hguard hs
  rw [← heq]
  exact h target guard hguard (hprovides hs)

/-- Code inside a scope of its own. -/
theorem push {kind : ScopeKind} (h : plan.Keeps (s.push kind) ms (s.push kind)) :
    plan.Keeps s ms s :=
  h.of_slotTypes slotTypes_push fun hs => (Scopes.Adds.push s kind).provides hs

variable {v : Value}

theorem branch (hv : plan.Gives s v) (h : plan.Keeps s ms s') :
    plan.Keeps s [.branch v ms] s :=
  fun _ _ hguard hs => .branch (hv _ _ hguard hs) (h _ _ hguard hs)

theorem loopWith (hcheck : plan.Keeps s ms s) (hv : plan.Gives s v) (h : plan.Keeps s ms' s') :
    plan.Keeps s [.loopWith ms v ms'] s :=
  fun _ _ hguard hs => .loopWith (hcheck _ _ hguard hs) (hv _ _ hguard hs) (h _ _ hguard hs)

/-- Storing to a slot what suits its type. -/
theorem assign (hfits : plan.Fits n s) (hty : plan.slotTypes s slot ty) (hv : plan.Gives s v)
    (hsuits : ∀ {target : Target} {guard : Guard target},
      guard.Sound (fun ty => ty.hasGeneric = false) →
      ∀ d, guard v.ty d = true → guard ty d = true) :
    plan.Keeps s [.assign slot v] s := by
  intro target guard hguard hs
  refine .assign (hv target guard hguard hs) fun ty' d hty' hd => ?_
  rw [hfits.unique hty' hty]
  exact hsuits hguard d hd

/-- Saving a value in a slot without a name. -/
theorem save {ty' : Ty} (hfits : plan.Fits n s) (hty : plan.types slot = some v.ty)
    (hv : plan.Gives s v) : plan.Keeps s [.declare slot ty' v] s := by
  intro target guard hguard hs
  refine .declare (hv target guard hguard hs) (fun ty'' d hty'' hd => ?_) (fun _ _ _ => id)
    fun _ _ => id
  rw [hfits.unique hty'' (.inl hty)]
  exact hd

section

variable {name : String} {mutable : Bool}

theorem slotTypes_of_declare {other : Slot} {ty' : Ty} (hother : other ≠ slot)
    (h : plan.slotTypes (s.declare name ⟨ty, mutable, .slot slot⟩) other ty') :
    plan.slotTypes s other ty' := by
  rcases h with h | ⟨mutable', hb⟩
  · exact .inl h
  · rcases Scopes.binds_of_declare hb with heq | hb
    · cases heq
      exact absurd rfl hother
    · exact .inr ⟨mutable', hb⟩

/-- A declared variable has the type that it is declared with. -/
theorem eq_of_declare (hfits : plan.Fits n s) (hn : n ≤ s.depth)
    (hhere : s.declaredHere name = false)
    (hslot : plan.slots.get? ⟨name, s.depth⟩ = some slot) {ty' : Ty}
    (h : plan.slotTypes (s.declare name ⟨ty, mutable, .slot slot⟩) slot ty') : ty' = ty := by
  have hfits' := hfits.declare hn (b := ⟨ty, mutable, .slot slot⟩) hhere rfl hslot
  by_cases hopen : s.open_ = []
  · obtain ⟨l⟩ := s
    subst hopen
    rcases h with hty | ⟨mutable', scope, hscope, -⟩
    · rcases hfits.apart slot ty' hty with hhidden | ⟨⟨key, hkey, hdepth⟩, -⟩
      · exact absurd hhidden (hfits.not_hidden hslot (Nat.le_refl _))
      · exact absurd hdepth (Nat.not_lt_of_le (Nat.le_trans hn (Nat.zero_le _)))
    · cases hscope
  · exact hfits'.unique h (.inr ⟨mutable, Scopes.binds_declare_self hopen⟩)

theorem adds_declare (hhere : s.declaredHere name = false)
    (hslot : plan.slots.get? ⟨name, s.depth⟩ = some slot) :
    s.Adds (s.declare name ⟨ty, mutable, .slot slot⟩) :=
  .of_declares (.declare .refl hhere rfl hslot)

/-- Declaring a variable with a value that suits its type. -/
theorem declare {ty' : Ty} (hfits : plan.Fits n s) (hn : n ≤ s.depth)
    (hhere : s.declaredHere name = false)
    (hslot : plan.slots.get? ⟨name, s.depth⟩ = some slot) (hv : plan.Gives s v)
    (hsuits : ∀ {target : Target} {guard : Guard target},
      guard.Sound (fun ty => ty.hasGeneric = false) →
      ∀ d, guard v.ty d = true → guard ty d = true) :
    plan.Keeps s [.declare slot ty' v] (s.declare name ⟨ty, mutable, .slot slot⟩) := by
  intro target guard hguard hs
  refine .declare (hv target guard hguard hs) (fun ty'' d hty'' hd => ?_)
    (fun _ _ => slotTypes_of_declare) fun _ _ => slotTypes_of_adds (adds_declare hhere hslot)
  rw [eq_of_declare hfits hn hhere hslot hty'']
  exact hsuits hguard d hd

/-- Declaring a parameter, whose argument suits its type if the argument's type has no generic. -/
theorem pass {ty' : Ty} (hfits : plan.Fits n s) (hn : n ≤ s.depth)
    (hhere : s.declaredHere name = false)
    (hslot : plan.slots.get? ⟨name, s.depth⟩ = some slot) (hv : plan.Gives s v)
    (hsuits : ∀ {target : Target} {guard : Guard target},
      guard.Sound (fun ty => ty.hasGeneric = false) →
      ∀ d, v.ty.hasGeneric = false → guard v.ty d = true → guard ty d = true) :
    plan.Keeps s [.pass slot ty' v] (s.declare name ⟨ty, mutable, .slot slot⟩) := by
  intro target guard hguard hs
  refine .pass (hv target guard hguard hs) (fun ty'' d hty'' hgeneric hd => ?_)
    (fun _ _ => slotTypes_of_declare) fun _ _ => slotTypes_of_adds (adds_declare hhere hslot)
  rw [eq_of_declare hfits hn hhere hslot hty'']
  exact hsuits hguard d hgeneric hd

/-- Declaring a variable without a value. -/
theorem opened (hhere : s.declaredHere name = false)
    (hslot : plan.slots.get? ⟨name, s.depth⟩ = some slot) :
    plan.Keeps s [.opened slot] (s.declare name ⟨ty, mutable, .slot slot⟩) := fun _ _ _ _ =>
  .opened (fun _ _ => slotTypes_of_declare) fun _ _ =>
    slotTypes_of_adds (adds_declare hhere hslot)

end

end Keeps

end SlotPlan

/-! ## What is handed out on the way -/

/-- What holds in every plan that agrees with what was handed out between two states: the types of
some new slots without a name were chosen on the way, and a plan may have more of them. -/
def Planned (s t : Slots) (P : SlotPlan → Prop) : Prop :=
  ∃ given : Slot → Option Ty,
    (∀ slot ty, given slot = some ty → s.size ≤ slot ∧ t.Hidden slot) ∧
    ∀ plan : SlotPlan, t.Extends plan.slots →
      (∀ slot ty, given slot = some ty → plan.types slot = some ty) → P plan

namespace Planned

variable {s t u : Slots} {P Q : SlotPlan → Prop}

theorem of_forall (h : ∀ plan : SlotPlan, t.Extends plan.slots → P plan) : Planned s t P :=
  ⟨fun _ => none, nofun, fun plan hplan _ => h plan hplan⟩

theorem imp (h : Planned s t P) (hPQ : ∀ plan : SlotPlan, t.Extends plan.slots → P plan → Q plan) :
    Planned s t Q := by
  obtain ⟨given, hgiven, h⟩ := h
  exact ⟨given, hgiven, fun plan hplan htypes => hPQ plan hplan (h plan hplan htypes)⟩

/-- It holds in a plan with more types as well. -/
theorem above (h : Planned s t P) :
    Planned s t fun plan => ∀ plan', plan.Below plan' → P plan' := by
  obtain ⟨given, hgiven, h⟩ := h
  refine ⟨given, hgiven, fun plan hplan htypes plan' hbelow => h plan' ?_ fun slot ty hty => ?_⟩
  · rw [hbelow.slots_eq]
    exact hplan
  · exact hbelow.types _ _ (htypes slot ty hty)

/-- It holds after more slots were handed out as well. -/
theorem extend (h : Planned s t P) (htu : t.Extends u) : Planned s u P := by
  obtain ⟨given, hgiven, h⟩ := h
  refine ⟨given, fun slot ty hty => (hgiven slot ty hty).imp_right htu.hidden, ?_⟩
  exact fun plan hplan => h plan (htu.trans hplan)

theorem of_size_le (h : Planned t u P) (hle : s.size ≤ t.size) : Planned s u P := by
  obtain ⟨given, hgiven, h⟩ := h
  refine ⟨given, fun slot ty hty => ?_, h⟩
  exact (hgiven slot ty hty).imp_left (Nat.le_trans hle)

/-- **What is handed out by one part after the other.** -/
theorem and (hP : Planned s t P) (hQ : Planned t u Q) (hst : s.Extends t) (ht : t.Valid)
    (htu : t.Extends u) : Planned s u fun plan => P plan ∧ Q plan := by
  obtain ⟨given, hgiven, hP⟩ := hP
  obtain ⟨given', hgiven', hQ⟩ := hQ
  have hcases : ∀ slot ty, (given slot).or (given' slot) = some ty ↔
      given slot = some ty ∨ given' slot = some ty := by
    intro slot ty
    cases hfirst : given slot with
    | none => simp
    | some first =>
      obtain ⟨key, -, hkey⟩ := (hgiven slot first hfirst).2
      -- The second part hands out newer slots only.
      have hsecond : given' slot = none := by
        rw [Option.eq_none_iff_forall_ne_some]
        intro second hsecond
        exact absurd (hgiven' slot second hsecond).1 (Nat.not_le_of_lt (ht.get?_lt hkey))
      simp [hsecond]
  refine ⟨fun slot => (given slot).or (given' slot), fun slot ty hty => ?_,
    fun plan hplan htypes => ⟨?_, ?_⟩⟩
  · rcases (hcases slot ty).mp hty with hty | hty
    · exact (hgiven slot ty hty).imp_right htu.hidden
    · exact (hgiven' slot ty hty).imp_left (Nat.le_trans hst.size_le)
  · exact hP plan (htu.trans hplan) fun slot ty hty => htypes slot ty ((hcases _ _).mpr (.inl hty))
  · exact hQ plan hplan fun slot ty hty => htypes slot ty ((hcases _ _).mpr (.inr hty))

/-- A slot without a name that is handed out has a type. -/
theorem fresh {slot : Slot} {ty : Ty} (hle : s.size ≤ slot) (hslot : t.Hidden slot) :
    Planned s t fun plan => plan.types slot = some ty := by
  refine ⟨fun other => if other = slot then some ty else none, fun other ty' hty => ?_,
    fun plan _ htypes => htypes slot ty (if_pos rfl)⟩
  by_cases hother : other = slot
  · subst hother
    exact ⟨hle, hslot⟩
  · cases (if_neg hother).symm.trans hty

end Planned

end RuleScript
