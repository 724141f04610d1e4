import RuleScript.Proofs.Lowering.Memory
import RuleScript.Proofs.Run.Program
import RuleScript.Proofs.Run.Simulation

/-!
# Frames and slots

The direct run of a program keeps its variables in frames, and the run of its rules keeps them in
one array. Both see the same variables when the frames *match* the open scopes up to the nearest
function: frame by frame each name stands for a variable of the same type, and what was stored in
the variable is what the array holds in its slot. A variable in which nothing was stored may have
anything in its slot, since slots are shared.

What was stored has to pass the guard of the run as well. `Guard.Sound` collects what that takes, so
that one proof covers runs that check nothing and runs that check types.

## Main definitions

* `Guard.Sound`: a guard that lets pass whatever lowering has checked
* `Cell.Matches`, `Frames.Match`: a variable, and all that can be seen
* `Cells.Agree`: two arrays hold the same in all slots that are not deeper than a place

## Main results

* `Frames.Match.find?`: names stand for the same
* `Frames.Match.store`: storing to one variable changes no other
* `Grown.agree`: running deeper code changes nothing that is not deeper
-/

namespace RuleScript

open RuleScript.Computation

variable {target : Target}

/-! ## Guards -/

/-- A guard that lets pass whatever lowering has checked. The type that an argument has to have for
this is `concrete`. -/
structure Guard.Sound (guard : Guard target) (concrete : Ty → Prop) : Prop where
  number : ∀ x, guard .number (.number x) = true
  text : ∀ s, guard .string (.text s) = true
  truth : ∀ b, guard .boolean (.truth b) = true
  list : ∀ {item ds}, (∀ d ∈ ds, guard item d = true) → guard (.array item) (.list ds) = true
  item : ∀ {item a i}, guard (.array item) a = true →
    Ensures (guard item · = true) (Computation.item a i)
  apply : ∀ {op : BinOp} {left right ty span x y}, op.resultType left right span = .ok ty →
    guard left x = true → guard right y = true → Ensures (guard ty · = true) (op.apply x y)
  constant : ∀ {name c}, ConstantDef.find? name = some c →
    Ensures (guard c.ty · = true) (Computation.constant c.target)
  value : ∀ {name f ty args}, FunctionDef.find? name = some f → f.ret = some ty →
    Ensures (guard ty · = true) (Computation.value f.target args)
  fits : ∀ {bindings bindings' wanted given span d},
    Ty.fitsWith bindings wanted given span = .ok (true, bindings') → guard given d = true →
    guard wanted d = true
  param : ∀ {declarations decl args generics types p given ty d},
    FunctionDecl.Typed declarations decl args generics types → concrete given →
    (p, given) ∈ decl.params.zip args → (declarations.within types).resolve p.ty = .ok ty →
    guard given d = true → guard ty d = true

/-- What may be stored where a type is wanted passes at that type. -/
theorem Guard.Sound.stored {guard : Guard target} {concrete : Ty → Prop}
    (h : guard.Sound concrete) {wanted given : Ty} {span : Span} {d : Datum target.Thing}
    (hfits : wanted.fits given span = .ok true) (hd : guard given d = true) :
    guard wanted d = true := by
  simp only [Ty.fits, Except.bind_eq_ok] at hfits
  obtain ⟨⟨fits, bindings⟩, hfits, hok⟩ := hfits
  cases hok
  exact h.fits hfits hd

/-- The guard that refuses nothing. -/
theorem Guard.Sound.all : Guard.Sound (fun _ (_ : Datum target.Thing) => true) fun _ => True := by
  refine ⟨fun _ => rfl, fun _ => rfl, fun _ => rfl, fun _ => rfl, fun _ => ?_, fun _ _ _ => ?_,
    fun _ => ?_, fun _ _ => ?_, fun _ _ => rfl, fun _ _ _ _ _ => rfl⟩
  all_goals exact fun _ _ _ _ => rfl

/-! ## Variables -/

variable {guard : Guard target} {cells cells' : Cells target}

/-- A name stands for the same: for nothing, for a variable that has what was stored in it, or for
a constant of the target. -/
inductive Cell.Matches (guard : Guard target) (cells : Cells target) :
    Option Binding → Option (Cell target.Thing) → Prop
  | none : Matches guard cells none none
  | var {ty : Ty} {mutable : Bool} {slot : Slot} {stored : Option (Datum target.Thing)}
    (h : ∀ d, stored = some d → cells slot = some d ∧ guard ty d = true) :
    Matches guard cells (some ⟨ty, mutable, .slot slot⟩) (some (.var ty stored))
  | constant {ty : Ty} {mutable : Bool} {text : String}
    (h : Ensures (guard ty · = true) (Computation.constant text)) :
    Matches guard cells (some ⟨ty, mutable, .constant text⟩) (some (.constant ty text))

theorem Cell.Matches.ty_eq {b : Option Binding} {c : Option (Cell target.Thing)}
    (h : Cell.Matches guard cells b c) : b.map (·.ty) = c.map Cell.ty := by
  cases h with
  | none => rfl
  | var h => rfl
  | constant h => rfl

/-- A variable keeps what was stored in it as long as its slot does. -/
theorem Cell.Matches.agree {b : Option Binding} {c : Option (Cell target.Thing)}
    (h : Cell.Matches guard cells b c)
    (hagree : ∀ ty mutable slot, b = some ⟨ty, mutable, .slot slot⟩ → cells' slot = cells slot) :
    Cell.Matches guard cells' b c := by
  cases h with
  | none => exact .none
  | @var ty mutable slot stored h =>
    refine .var fun d hd => ?_
    rw [hagree ty mutable slot rfl]
    exact h d hd
  | constant h => exact .constant h

namespace Frames

/-- What a name stands for in the frame at a place. -/
def cell? (frames : Frames target) (i : Nat) (name : String) : Option (Cell target.Thing) :=
  frames[i]?.bind (·.get? name)

/-- Frames match scopes if each name stands for the same in both. -/
structure Match (guard : Guard target) (cells : Cells target) (scopes : List Scope)
    (frames : Frames target) : Prop where
  length_eq : frames.length = scopes.length
  cells : ∀ i name, Cell.Matches guard cells (Scopes.boundIn scopes i name) (frames.cell? i name)

variable {scopes : List Scope} {frames : Frames target} {scope : Scope} {name : String}
  {frame : Table (Cell target.Thing)}

theorem Match.head (h : Match guard cells (scope :: scopes) (frame :: frames)) (name : String) :
    Cell.Matches guard cells (scope.bindings.get? name) (frame.get? name) := h.cells 0 name

theorem Match.tail (h : Match guard cells (scope :: scopes) (frame :: frames)) :
    Match guard cells scopes frames :=
  ⟨Nat.succ.inj h.length_eq, fun i name => h.cells (i + 1) name⟩

theorem Match.cons (h : Match guard cells scopes frames)
    (hhead : ∀ name, Cell.Matches guard cells (scope.bindings.get? name) (frame.get? name)) :
    Match guard cells (scope :: scopes) (frame :: frames) := by
  refine ⟨congrArg Nat.succ h.length_eq, fun i name => ?_⟩
  cases i with
  | zero => exact hhead name
  | succ i => exact h.cells i name

/-- Names stand for the same. -/
theorem Match.find? (h : Match guard cells scopes frames) (name : String) :
    Cell.Matches guard cells (scopes.findSome? (·.bindings.get? name)) (frames.find? name) := by
  induction scopes generalizing frames with
  | nil =>
    cases frames with
    | nil => exact .none
    | cons frame frames => cases h.length_eq
  | cons scope scopes ih =>
    cases frames with
    | nil => cases h.length_eq
    | cons frame frames =>
      have hhead := h.head name
      rw [Frames.find?, List.findSome?_cons, List.findSome?_cons]
      generalize scope.bindings.get? name = b at hhead
      generalize frame.get? name = c at hhead
      cases hhead with
      | none => exact ih h.tail
      | var h => exact .var h
      | constant h => exact .constant h

/-! ## Storing -/

/-- Storing to a slot that nothing is bound to changes nothing. -/
theorem Match.set (h : Match guard cells scopes frames) {slot : Slot} (d : Datum target.Thing)
    (hapart : ∀ {i name b}, Scopes.boundIn scopes i name = some b → b.value ≠ .slot slot) :
    Match guard (cells.set slot d) scopes frames := by
  refine ⟨h.length_eq, fun i name => (h.cells i name).agree fun ty mutable slot' hb => ?_⟩
  have hne : slot' ≠ slot := by
    rintro rfl
    exact hapart hb rfl
  exact if_neg hne

end Frames

theorem Scopes.Distinct.tail {scope : Scope} {scopes : List Scope}
    (h : Distinct (scope :: scopes)) : Distinct scopes := by
  intro i j name name' b b' slot hb hb' hslot hslot'
  obtain ⟨hij, hname⟩ := h (i := i + 1) (j := j + 1) hb hb' hslot hslot'
  exact ⟨Nat.succ.inj hij, hname⟩

/-- What can be seen at a place has distinct slots. -/
theorem Env.Ready.distinct {env : Env} {slots : Slots} {nesting : Nat}
    (h : env.Ready slots nesting) : Scopes.Distinct env.scopes.visible := by
  intro i j name name' b b' slot hb hb' hslot hslot'
  exact h.stored.distinct h.valid h.open_lt (Scopes.boundIn_visible hb) (Scopes.boundIn_visible hb')
    hslot hslot'

/-- The return value of the nearest function has a name in the last scope that can be seen. -/
theorem Env.Ready.result_bound {env : Env} {slots : Slots} {nesting : Nat} {function : String}
    {r : ReturnSlot} (h : env.Ready slots nesting)
    (hr : env.scopes.enclosingFunction? = some (function, some r)) :
    ∃ scope, env.scopes.visible.getLast? = some scope ∧
      scope.bindings.get? returnLabel = some ⟨r.ty, false, .slot r.slot⟩ := by
  obtain ⟨scope, hscope, hresult, hfunction⟩ := Scopes.enclosingFunction?_eq_some hr
  obtain ⟨i, -, hi⟩ := Scopes.exists_of_mem_visible hscope
  exact ⟨scope, Scopes.getLast?_visible hscope hfunction,
    ((h.stored.holds hi).result hresult).2.1⟩

namespace Frames

variable {scopes : List Scope} {frames : Frames target} {scope : Scope} {name : String}
  {frame : Table (Cell target.Thing)} {ty : Ty} {mutable : Bool} {slot : Slot}
  {d : Datum target.Thing}

/-- Storing to a variable of the innermost frame, which may be a new one. -/
theorem Match.insert {bindings : Table Binding}
    (hhead : ∀ other, other ≠ name →
      Cell.Matches guard cells (bindings.get? other) (frame.get? other))
    (htail : Match guard cells scopes frames)
    (hdistinct : Scopes.Distinct ({ scope with bindings } :: scopes))
    (hb : bindings.get? name = some ⟨ty, mutable, .slot slot⟩) (hd : guard ty d = true) :
    Match guard (cells.set slot d) ({ scope with bindings } :: scopes)
      (frame.insert name (.var ty (some d)) :: frames) := by
  have hbound : Scopes.boundIn ({ scope with bindings } :: scopes) 0 name =
      some ⟨ty, mutable, .slot slot⟩ := hb
  refine (htail.set d fun {i other b} hother hslot => ?_).cons fun other => ?_
  · have hother' : Scopes.boundIn ({ scope with bindings } :: scopes) (i + 1) other = some b :=
      hother
    obtain ⟨hi, -⟩ := hdistinct hbound hother' rfl hslot
    cases hi
  · by_cases hname : other = name
    · subst hname
      rw [Table.get?_insert_self]
      show Cell.Matches guard _ (bindings.get? other) _
      rw [hb]
      refine .var fun d' hd' => ?_
      cases hd'
      exact ⟨if_pos rfl, hd⟩
    · rw [Table.get?_insert_of_ne _ _ hname]
      refine (hhead other hname).agree fun ty' mutable' slot' hother => if_neg ?_
      rintro rfl
      exact hname (hdistinct hbound (j := 0) hother rfl rfl).2.symm

/-- A declaration that stores nothing. -/
theorem Match.declareCell {scopes : Scopes} {b : Binding} {c : Cell target.Thing}
    (h : Match guard cells scopes.visible frames) (name : String)
    (hcell : Cell.Matches guard cells (some b) (some c)) :
    Match guard cells (scopes.declare name b).visible (frames.declare name c) := by
  obtain ⟨l⟩ := scopes
  cases l with
  | nil =>
    obtain rfl : frames = [] := List.length_eq_zero_iff.mp h.length_eq
    exact h
  | cons scope outer =>
    rw [Scopes.visible_cons] at h
    rw [Scopes.declare_cons, Scopes.visible_cons]
    cases frames with
    | nil => cases h.length_eq
    | cons frame frames =>
      refine h.tail.cons fun other => ?_
      by_cases hname : other = name
      · subst hname
        rw [Table.get?_insert_self, Table.get?_insert_self]
        exact hcell
      · rw [Table.get?_insert_of_ne _ _ hname, Table.get?_insert_of_ne _ _ hname]
        exact h.head other

/-- A declaration with a value. -/
theorem Match.declareSet {scopes : Scopes} (h : Match guard cells scopes.visible frames)
    (hdistinct : Scopes.Distinct (scopes.declare name ⟨ty, mutable, .slot slot⟩).visible)
    (hd : guard ty d = true) :
    Match guard (cells.set slot d) (scopes.declare name ⟨ty, mutable, .slot slot⟩).visible
      (frames.declare name (.var ty (some d))) := by
  obtain ⟨l⟩ := scopes
  cases l with
  | nil =>
    obtain rfl : frames = [] := List.length_eq_zero_iff.mp h.length_eq
    exact h.set d fun hb => by cases hb
  | cons scope outer =>
    rw [Scopes.visible_cons] at h
    rw [Scopes.declare_cons, Scopes.visible_cons] at hdistinct ⊢
    cases frames with
    | nil => cases h.length_eq
    | cons frame frames =>
      refine Match.insert (fun other hother => ?_) h.tail hdistinct
        (Table.get?_insert_self _ _ _) hd
      rw [Table.get?_insert_of_ne _ _ hother]
      exact h.head other

/-- The innermost frame does not notice that a variable of an outer one is stored to. -/
theorem Match.consOuter {frames' : Frames target} {i : Nat}
    (h : Match guard cells (scope :: scopes) (frame :: frames))
    (hdistinct : Scopes.Distinct (scope :: scopes))
    (hb : Scopes.boundIn scopes i name = some ⟨ty, mutable, .slot slot⟩)
    (houter : Match guard (cells.set slot d) scopes frames') :
    Match guard (cells.set slot d) (scope :: scopes) (frame :: frames') := by
  refine houter.cons fun other => (h.head other).agree fun ty' mutable' slot' hother => if_neg ?_
  rintro rfl
  have hbound : Scopes.boundIn (scope :: scopes) (i + 1) name =
      some ⟨ty, mutable, .slot slot'⟩ := hb
  cases (hdistinct (i := 0) hother hbound rfl rfl).1

/-- **Storing to one variable changes no other.** -/
theorem Match.assign? (h : Match guard cells scopes frames) (hdistinct : Scopes.Distinct scopes)
    (hb : scopes.findSome? (·.bindings.get? name) = some ⟨ty, mutable, .slot slot⟩)
    (hd : guard ty d = true) : ∃ frames', frames.assign? name d = some frames' ∧
      Match guard (cells.set slot d) scopes frames' := by
  induction scopes generalizing frames with
  | nil => cases hb
  | cons scope scopes ih =>
    cases frames with
    | nil => cases h.length_eq
    | cons frame frames =>
      have hhead := h.head name
      rw [List.findSome?_cons] at hb
      cases hscope : scope.bindings.get? name with
      | none =>
        rw [hscope] at hb hhead
        generalize hframe : frame.get? name = c at hhead
        cases hhead
        obtain ⟨frames', hframes', hmatch⟩ := ih h.tail hdistinct.tail hb
        obtain ⟨found, hfound, hname⟩ := List.exists_of_findSome?_eq_some hb
        obtain ⟨i, hi⟩ := List.getElem?_of_mem hfound
        refine ⟨frame :: frames', ?_, ?_⟩
        · simp [Frames.assign?, hframe, hframes']
        · exact h.consOuter hdistinct (Scopes.boundIn_eq_some.mpr ⟨found, hi, hname⟩) hmatch
      | some b =>
        rw [hscope] at hb hhead
        cases hb
        generalize hframe : frame.get? name = c at hhead
        cases hhead with
        | @var _ _ _ stored hstored =>
          refine ⟨frame.insert name (.var ty (some d)) :: frames, ?_, ?_⟩
          · simp [Frames.assign?, hframe]
          · exact Match.insert (fun other _ => h.head other) h.tail hdistinct hscope hd

/-- Storing to the variable for the result, which is in the outermost frame. -/
theorem Match.return? (h : Match guard cells scopes frames) (hdistinct : Scopes.Distinct scopes)
    (hlast : scopes.getLast? = some scope)
    (hb : scope.bindings.get? returnLabel = some ⟨ty, mutable, .slot slot⟩)
    (hd : guard ty d = true) : ∃ frames', frames.return? d = some frames' ∧
      Match guard (cells.set slot d) scopes frames' := by
  induction scopes generalizing frames with
  | nil => cases hlast
  | cons first scopes ih =>
    cases frames with
    | nil => cases h.length_eq
    | cons frame frames =>
      cases scopes with
      | nil =>
        obtain rfl : frames = [] := List.length_eq_zero_iff.mp (Nat.succ.inj h.length_eq)
        obtain rfl : first = scope := Option.some.inj hlast
        have hhead := h.head returnLabel
        rw [hb] at hhead
        generalize hframe : frame.get? returnLabel = c at hhead
        cases hhead with
        | @var _ _ _ stored hstored =>
          refine ⟨[frame.insert returnLabel (.var ty (some d))], ?_, ?_⟩
          · simp [Frames.return?, hframe]
          · exact Match.insert (fun other _ => h.head other) h.tail hdistinct hb hd
      | cons second scopes =>
        cases frames with
        | nil => cases h.length_eq
        | cons frame' frames =>
          rw [List.getLast?_cons_cons] at hlast
          obtain ⟨frames', hframes', hmatch⟩ := ih h.tail hdistinct.tail hlast
          obtain ⟨i, hi⟩ := List.getElem?_of_mem (List.mem_of_getLast? hlast)
          refine ⟨frame :: frames', ?_, ?_⟩
          · rw [Frames.return?, hframes']
            · rfl
            · simp
          · exact h.consOuter hdistinct (Scopes.boundIn_eq_some.mpr ⟨scope, hi, hb⟩) hmatch

/-- The result that was recorded is in its slot. -/
theorem Match.result? (h : Match guard cells scopes frames)
    (hlast : scopes.getLast? = some scope)
    (hb : scope.bindings.get? returnLabel = some ⟨ty, mutable, .slot slot⟩)
    (hd : frames.result? = some d) : cells slot = some d ∧ guard ty d = true := by
  rw [List.getLast?_eq_getElem?, ← h.length_eq] at hlast
  simp only [Frames.result?, Option.bind_eq_bind, Option.bind_eq_some_iff] at hd
  obtain ⟨frame, hframe, c, hc, hstored⟩ := hd
  rw [List.getLast?_eq_getElem?] at hframe
  have hcell := h.cells (frames.length - 1) returnLabel
  rw [Scopes.boundIn_eq_some.mpr ⟨scope, hlast, hb⟩, cell?, hframe, Option.bind_some, hc] at hcell
  cases hcell with
  | var hvar => exact hvar d hstored

end Frames

/-! ## What running code leaves alone -/

namespace Action

variable (guard : Guard target) (rounds : Nat)

mutual

/-- Running an action changes only the slots that it stores to. -/
theorem exec_keeps {slot : Slot} : ∀ (a : Action) (cells : Cells target), slot ∉ a.writes →
    Ensures (fun p => p.2 slot = cells slot) (runWith (a.exec guard rounds) cells)
  | block body, cells, h => execBody_keeps body cells h
  | branch condition body, cells, h => by
    rw [runWith_branch]
    refine (Ensures.trivial _).bind fun b _ => ?_
    split
    · exact execBody_keeps body cells h
    · exact .pure rfl
  | loop condition body, cells, h => by
    rw [runWith_loop]
    -- The invariant of the loop: the slot still holds what it held before the first round.
    refine (iterate_ensures (P := fun cells' => cells' slot = cells slot) (fun cells' hcells' => ?_)
      rounds rfl).bind fun p hp => .pure hp
    rw [runWith_round]
    refine (Ensures.trivial _).bind fun b _ => ?_
    split
    · refine (execBody_keeps body cells' h).bind fun p hp => .pure ?_
      exact hp.trans hcells'
    · exact .pure hcells'
  | declare slot' _ value, cells, h => by
    rw [exec, runWith_store]
    refine (Ensures.trivial _).bind fun d _ => .pure (if_neg ?_)
    exact fun heq => h (List.mem_singleton.mpr heq)
  | assign slot' value, cells, h => by
    rw [exec, runWith_store]
    refine (Ensures.trivial _).bind fun d _ => .pure (if_neg ?_)
    exact fun heq => h (List.mem_singleton.mpr heq)
  | assignField object field value, cells, _ => by
    rw [runWith_assignField]
    refine (Ensures.trivial _).bind fun o _ => (Ensures.trivial _).bind fun d _ => ?_
    exact (Ensures.trivial _).bind fun _ _ => .pure rfl
  | call name args, cells, _ => by
    rw [runWith_call]
    refine (Ensures.trivial _).bind fun ds _ => ?_
    exact (Ensures.trivial _).bind fun _ _ => .pure rfl
  | stop, cells, _ => Ensures.pure (a := (Exit.stop, cells)) rfl
  | next, cells, _ => Ensures.pure (a := (Exit.next, cells)) rfl
  | noop, cells, _ => Ensures.pure (a := (Exit.normal, cells)) rfl

theorem execBody_keeps {slot : Slot} : ∀ (body : List Action) (cells : Cells target),
    slot ∉ writesBody body →
    Ensures (fun p => p.2 slot = cells slot) (runWith (execBody guard rounds body) cells)
  | [], cells, _ => Ensures.pure (a := (Exit.normal, cells)) rfl
  | a :: as, cells, h => by
    rw [writesBody, List.mem_append, not_or] at h
    rw [runWith_cons]
    refine (exec_keeps a cells h.1).bind fun p hp => ?_
    obtain ⟨exit, cells'⟩ := p
    cases exit with
    | normal =>
      refine Ensures.mono (execBody_keeps as cells' h.2) fun q hq => ?_
      exact hq.trans hp
    | stop => exact .pure hp
    | next => exact .pure hp

end

end Action

/-- Two arrays hold the same in all slots that are not deeper than a place. -/
def Cells.Agree (depth : Nat) (slots : Slots) (cells cells' : Cells target) : Prop :=
  ∀ key slot, slots.get? key = some slot →
    key.depth ≤ depth ∨ key.depth = Slots.hiddenDepth → cells' slot = cells slot

namespace Cells.Agree

variable {depth : Nat} {s t : Slots} {cells'' : Cells target}

theorem refl : Agree depth s cells cells := fun _ _ _ _ => rfl

theorem trans (h : Agree depth s cells cells') (h' : Agree depth s cells' cells'') :
    Agree depth s cells cells'' :=
  fun key slot hkey hdepth => (h' key slot hkey hdepth).trans (h key slot hkey hdepth)

theorem mono {depth' : Nat} (h : Agree depth t cells cells') (hs : s.Extends t)
    (hd : depth' ≤ depth) : Agree depth' s cells cells' :=
  fun key slot hkey hdepth =>
    h key slot (hs.get? hkey) (hdepth.imp_left fun hle => Nat.le_trans hle hd)

end Cells.Agree

section

variable {depth : Nat} {s t u : Slots} {actions : List Action} (rounds : Nat)

/-- What is not deeper is left alone by deeper code. -/
theorem Grown.keeps (h : Grown depth s t actions) {slot : Slot}
    (hslot : ¬ Slots.Deeper depth s t slot) (cells : Cells target) :
    Ensures (fun p => p.2 slot = cells slot)
      (runWith (Action.execBody guard rounds actions) cells) :=
  Action.execBody_keeps guard rounds actions cells fun hwrites => hslot (h.writes slot hwrites)

/-- **Running deeper code changes nothing that is not deeper.** -/
theorem Grown.agree (h : Grown depth s t actions) (hs : s.Valid) (cells : Cells target) :
    Ensures (fun p => Cells.Agree depth s cells p.2)
      (runWith (Action.execBody guard rounds actions) cells) := by
  intro e p e' hp key slot hkey hdepth
  refine h.keeps rounds (fun hdeeper => ?_) cells hp
  -- A deeper slot has a deeper key, or it was handed out after `s`, and both contradict `hkey`.
  have hkey' := h.extend.get? hkey
  rcases hdeeper with ⟨key', hslot, hlt, hnamed⟩ | ⟨hhidden, hnew⟩
  · cases h.valid.key_unique hslot hkey'
    omega
  · exact absurd (hs.get?_lt hkey) (Nat.not_lt_of_le hnew)

end

/-- What can be seen at a place is not deeper than the place. -/
theorem Env.Ready.not_deeper {env : Env} {slots : Slots} {nesting i : Nat} {name : String}
    {b : Binding} {slot : Slot} (h : env.Ready slots nesting)
    (hb : Scopes.boundIn env.scopes.visible i name = some b) (hslot : b.value = .slot slot) :
    ∃ key, slots.get? key = some slot ∧
      (key.depth ≤ env.scopes.depth ∨ key.depth = Slots.hiddenDepth) := by
  obtain ⟨scope, hi, hscope⟩ := Scopes.boundIn_eq_some.mp (Scopes.boundIn_visible hb)
  have hlt := (List.getElem?_eq_some_iff.mp hi).1
  rcases (h.stored.holds hi).slot_cases hscope hslot with hnamed | ⟨-, -, ⟨key, hdepth, hkey⟩, -⟩
  · refine ⟨_, hnamed, .inl ?_⟩
    simp only [List.length_drop, Scopes.depth]
    omega
  · exact ⟨key, hkey, .inr hdepth⟩

/-- Storing to a slot that is handed out later changes nothing. -/
theorem Frames.Match.setNew {env : Env} {slots : Slots} {nesting : Nat} {frames : Frames target}
    {slot : Slot} (h : Match guard cells env.scopes.visible frames)
    (henv : env.Ready slots nesting) (hslot : slots.size ≤ slot) (d : Datum target.Thing) :
    Match guard (cells.set slot d) env.scopes.visible frames := by
  refine h.set d fun hb hvalue => ?_
  obtain ⟨key, hkey, -⟩ := henv.not_deeper hb hvalue
  exact absurd (henv.valid.get?_lt hkey) (Nat.not_lt_of_le hslot)

/-- Names stand for the same after deeper code has run. -/
theorem Frames.Match.agree {env : Env} {slots : Slots} {nesting : Nat} {frames : Frames target}
    (h : Match guard cells env.scopes.visible frames) (henv : env.Ready slots nesting)
    (hagree : Cells.Agree env.scopes.depth slots cells cells') :
    Match guard cells' env.scopes.visible frames := by
  refine ⟨h.length_eq, fun i name => (h.cells i name).agree fun ty mutable slot hb => ?_⟩
  obtain ⟨key, hkey, hdepth⟩ := henv.not_deeper hb rfl
  exact hagree key slot hkey hdepth

/-- Names stand for the same after deeper code has run that is older than some of them. -/
theorem Frames.Match.grown {env : Env} {s t u : Slots} {nesting rounds : Nat}
    {actions : List Action} {frames : Frames target}
    (h : Match guard cells env.scopes.visible frames) (hg : Grown env.scopes.depth s t actions)
    (henv : env.Ready u nesting) (he : t.Extends u)
    (hold : ∀ other ∈ env.scopes.open_, ∀ r, other.result? = some r → r.slot < s.size) :
    Ensures (fun p => Match guard p.2 env.scopes.visible frames)
      (runWith (Action.execBody guard rounds actions) cells) := by
  intro e p e' hp
  refine ⟨h.length_eq, fun i name => (h.cells i name).agree fun ty mutable slot hb => ?_⟩
  refine hg.keeps rounds ?_ cells hp
  exact henv.stored.not_deeper henv.valid he henv.open_lt hold (Scopes.boundIn_visible hb) rfl

end RuleScript
