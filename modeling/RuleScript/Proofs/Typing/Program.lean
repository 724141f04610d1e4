import RuleScript.Proofs.Lowering.Extent
import RuleScript.Proofs.Meaning.Program
import RuleScript.Proofs.Typing.Generics
import RuleScript.Proofs.Typing.Reads

/-!
# Reads find what their types say

Where the target keeps to the types of the registry, every read of a rule finds a datum of its type,
or what it finds is not trusted: nothing was stored in the slot since the variable was declared, or
an argument was whose type has a generic, or a datum was that is not of its value's type and was
computed from such a thing. This holds for all reads of a run, those after an exception included.

The exceptions are needed. Slots are shared between variables of one name at one depth, and a
declaration without a value stores nothing, so a variable may start with what another one of a
different type has left behind. And an argument may have a generic of the calling function as its
type, which the generics of the called function know nothing of. What a slot gives in which nothing
is stored is up to the target, and may be copied to another one.

## Main definitions

* `Guard.ofTypes`: the guard that checks types
* `Target.Typed`, `Target.Provides`: a target that keeps to the types of the registry
* `Rule.ReadsSound`: the reads of a rule find what their types say, or what is not trusted

## Main results

* `Target.Typed.sound`: whatever lowering has checked passes the guard
* `Program.lower_readsSound`: rules read what their types say
* `Program.lower_implements_checked`: checking types at every read changes nothing that is defined
-/

namespace RuleScript

open RuleScript.Computation

variable {target : Target} {native : String → Datum target.Thing → Bool}

/-! ## Targets that keep to types -/

/-- The guard that checks types. The native types of the target admit what it says they do, and a
generic that stands for nothing admits everything. -/
def Guard.ofTypes (native : String → Datum target.Thing → Bool) : Guard target :=
  fun ty d => ty.admits (.open_ native) d

namespace Target

/-- Constants and values have the types of the registry, an item of an array has the type of the
items, and arithmetic gives numbers. -/
structure Typed (target : Target) (native : String → Datum target.Thing → Bool) : Prop where
  constant : ∀ {name c world d}, ConstantDef.find? name = some c →
    target.constant c.target world = some d → c.ty.admits (.open_ native) d = true
  value : ∀ {name f ty args world d world'}, FunctionDef.find? name = some f → f.ret = some ty →
    target.value f.target args world = some (d, world') → ty.admits (.open_ native) d = true
  item : ∀ {ty items place d}, (∀ x ∈ items, Ty.admits (.open_ native) ty x = true) →
    target.item items place = some d → ty.admits (.open_ native) d = true
  beyond : ∀ {op a b d}, target.beyond op a b = some d → d.isNumber = true

/-- What a trigger provides has the types of the registry. -/
def Provides (target : Target) (native : String → Datum target.Thing → Bool) (trigger : EventDef) :
    Prop :=
  ∀ arg ∈ trigger.args, ∀ world d, target.constant arg.target world = some d →
    arg.ty.admits (.open_ native) d = true

end Target

namespace Computation.Ensures

theorem ofOption {α : Type} {P : α → Prop} {a : Option α} (h : ∀ b, a = some b → P b) :
    Ensures P (ofOption a : Computation target α) := by
  cases a with
  | some b => exact .pure (h b rfl)
  | none => exact .throw _

theorem constant {P : Datum target.Thing → Prop} {text : String}
    (h : ∀ world d, target.constant text world = some d → P d) : Ensures P (constant text) :=
  (Ensures.trivial _).bind fun e _ => .ofOption (h e.world)

end Computation.Ensures

namespace Target.Typed

/-- An item of an array has the type of the items. -/
theorem ensures_item (h : target.Typed native) {item : Ty} {a i : Datum target.Thing}
    (ha : (Ty.array item).admits (.open_ native) a = true) :
    Ensures (item.admits (.open_ native) · = true) (Computation.item a i) := by
  obtain ⟨items, rfl, hitems⟩ := (Ty.admits_array _).mp ha
  cases i with
  | number place => exact .ofOption fun d hd => h.item hitems hd
  | _ => exact .throw _

theorem ensures_value (h : target.Typed native) {name : String} {f : FunctionDef} {ty : Ty}
    {args : List (Datum target.Thing)} (hf : FunctionDef.find? name = some f)
    (hret : f.ret = some ty) :
    Ensures (ty.admits (.open_ native) · = true) (Computation.value f.target args) := by
  refine (Ensures.trivial _).bind fun e _ => ?_
  refine (Ensures.ofOption fun p hp => h.value hf hret hp).bind fun p hp => ?_
  exact (Ensures.trivial _).bind fun _ _ => .pure hp

theorem ensures_settle (h : target.Typed native) (op : BinOp) (a b x : Float) :
    Ensures (fun d : Datum target.Thing => d.isNumber = true) (op.settle a b x) := by
  unfold BinOp.settle
  split
  · exact .pure rfl
  · exact .ofOption fun d hd => h.beyond hd

/-- Arithmetic gives numbers. -/
theorem ensures_arithmetic (h : target.Typed native) {op : BinOp} (a b : Float)
    (hop : op = .add ∨ op = .sub ∨ op = .mul ∨ op = .div) :
    Ensures (fun d : Datum target.Thing => d.isNumber = true) (op.applyNumbers a b) := by
  rcases hop with rfl | rfl | rfl | rfl
  · exact h.ensures_settle _ _ _ _
  · exact h.ensures_settle _ _ _ _
  · exact h.ensures_settle _ _ _ _
  · show Ensures _ (if b == 0.0 then ofOption (target.beyond .div a b) else _)
    split
    · exact .ofOption fun d hd => h.beyond hd
    · exact h.ensures_settle _ _ _ _

end Target.Typed

namespace Datum

variable {Thing : Type} {d : Datum Thing}

theorem exists_of_isNumber (h : d.isNumber = true) : ∃ x, d = .number x := by
  cases d with
  | number x => exact ⟨x, rfl⟩
  | _ => cases h

theorem exists_of_isText (h : d.isText = true) : ∃ s, d = .text s := by
  cases d with
  | text s => exact ⟨s, rfl⟩
  | _ => cases h

theorem exists_of_isTruth (h : d.isTruth = true) : ∃ b, d = .truth b := by
  cases d with
  | truth b => exact ⟨b, rfl⟩
  | _ => cases h

end Datum

namespace BinOp

/-- Whether the operation compares its operands. -/
def compares : BinOp → Bool
  | eq | ne | lt | le | gt | ge => true
  | add | sub | mul | div | and | or => false

/-- A comparison gives a truth value, whatever it compares. -/
theorem ensures_compares {op : BinOp} (h : op.compares = true) (x y : Datum target.Thing) :
    Ensures (fun d : Datum target.Thing => d.isTruth = true) (op.apply x y) := by
  have hother : ∀ x y : Datum target.Thing,
      Ensures (fun d : Datum target.Thing => d.isTruth = true) (op.applyOther x y) := by
    intro x y
    cases op with
    | eq | ne | lt | le | gt | ge =>
      exact (Ensures.trivial _).bind fun _ _ => (Ensures.trivial _).bind fun _ _ => .pure rfl
    | _ => cases h
  unfold apply
  split
  · cases op with
    | eq | ne | lt | le | gt | ge => exact .pure rfl
    | _ => cases h
  · cases op with
    | eq | ne => exact .pure rfl
    | lt | le | gt | ge => exact hother _ _
    | _ => cases h
  · cases op with
    | eq | ne => exact .pure rfl
    | lt | le | gt | ge => exact hother _ _
    | _ => cases h
  · exact hother _ _

end BinOp

namespace Target.Typed

/-- An operation on numbers that yields a number. -/
theorem ensures_sum (h : target.Typed native) {op : BinOp} {x y : Datum target.Thing}
    (hop : op = .add ∨ op = .sub ∨ op = .mul ∨ op = .div)
    (hx : Ty.number.admits (.open_ native) x = true)
    (hy : Ty.number.admits (.open_ native) y = true) :
    Ensures (Ty.number.admits (.open_ native) · = true) (op.apply x y) := by
  rw [Ty.admits_number] at hx hy
  obtain ⟨a, rfl⟩ := Datum.exists_of_isNumber hx
  obtain ⟨b, rfl⟩ := Datum.exists_of_isNumber hy
  simp only [Ty.admits_number]
  exact h.ensures_arithmetic a b hop

/-- **An operation yields a datum of its type.** -/
theorem ensures_apply (h : target.Typed native) {op : BinOp} {left right ty : Ty} {span : Span}
    {x y : Datum target.Thing} (hty : op.resultType left right span = .ok ty)
    (hx : left.admits (.open_ native) x = true) (hy : right.admits (.open_ native) y = true) :
    Ensures (ty.admits (.open_ native) · = true) (op.apply x y) := by
  cases op with
  | add =>
    obtain ⟨rfl, rfl, rfl | rfl⟩ := BinOp.sumType_ok hty
    · exact h.ensures_sum (.inl rfl) hx hy
    · rw [Ty.admits_string] at hx hy
      obtain ⟨s, rfl⟩ := Datum.exists_of_isText hx
      obtain ⟨t, rfl⟩ := Datum.exists_of_isText hy
      exact .pure (Ty.admits_string _ _)
  | sub =>
    obtain ⟨rfl, rfl, rfl⟩ := BinOp.uniformType_ok hty
    exact h.ensures_sum (.inr (.inl rfl)) hx hy
  | mul =>
    obtain ⟨rfl, rfl, rfl⟩ := BinOp.uniformType_ok hty
    exact h.ensures_sum (.inr (.inr (.inl rfl))) hx hy
  | div =>
    obtain ⟨rfl, rfl, rfl⟩ := BinOp.uniformType_ok hty
    exact h.ensures_sum (.inr (.inr (.inr rfl))) hx hy
  | and | or =>
    obtain ⟨rfl, rfl, rfl⟩ := BinOp.uniformType_ok hty
    rw [Ty.admits_boolean] at hx hy
    obtain ⟨a, rfl⟩ := Datum.exists_of_isTruth hx
    obtain ⟨b, rfl⟩ := Datum.exists_of_isTruth hy
    exact .pure (Ty.admits_boolean _ _)
  | eq | ne | lt | le | gt | ge =>
    obtain rfl := BinOp.comparisonType_ok hty
    simp only [Ty.admits_boolean]
    exact BinOp.ensures_compares rfl x y

/-- **Whatever lowering has checked passes the guard**, where the target keeps to types. -/
theorem sound (h : target.Typed native) :
    (Guard.ofTypes native).Sound fun ty => ty.hasGeneric = false where
  number _ := Ty.admits_number _ _
  text _ := Ty.admits_string _ _
  truth _ := Ty.admits_boolean _ _
  list hds := (Ty.admits_array _).mpr ⟨_, rfl, hds⟩
  item ha := h.ensures_item ha
  apply hty hx hy := h.ensures_apply hty hx hy
  constant hfind := .constant fun _ _ hd => h.constant hfind hd
  value hfind hret := h.ensures_value hfind hret
  fits hfits hd := Ty.fitsWith_below hfits (fun _ _ _ _ _ => rfl) _ hd
  param htyped hgiven hmem hty hd := htyped.below_param hgiven hmem hty _ hd

end Target.Typed

/-! ## Events -/

namespace EventDecl

variable {span : Span} {args : List (String × EventArg)} {s scopes : Scopes}

/-- An event has no return value. -/
theorem declareArgs_results (hs : ∀ scope ∈ s.open_, scope.result? = none)
    (h : declareArgs span s args = .ok scopes) : ∀ scope ∈ scopes.open_, scope.result? = none := by
  induction args generalizing s with
  | nil =>
    cases h
    exact hs
  | cons arg rest ih =>
    obtain ⟨-, hrest⟩ := declareArgs_cons_ok h
    refine ih (fun scope hscope => ?_) hrest
    obtain ⟨l⟩ := s
    cases l with
    | nil => cases hscope
    | cons first outer =>
      rcases List.mem_cons.mp hscope with rfl | hscope
      · exact hs first List.mem_cons_self
      · exact hs scope (List.mem_cons_of_mem _ hscope)

end EventDecl

/-- The reads of a rule find what their types say, unless what is in the slot is not trusted. There
is one way to mark the rule as its event asks for. Run so on an array with arbitrary contents, for a
target that keeps to types, it refuses no read, and does what the rule does that checks nothing. -/
def Rule.ReadsSound (declarations : Declarations) (slots : Slots) (event : EventDecl)
    (rule : Rule) : Prop :=
  ∃ marked, (∀ ms, Marked.eraseBody ms = rule.body ∧ event.Marks declarations slots ms ↔
      ms = marked) ∧
    ∀ (target : Target) (native : String → Datum target.Thing → Bool), target.Typed native →
      (∀ trigger, EventDef.find? event.name = some trigger → target.Provides native trigger) →
      ∀ (rounds : Nat) (cells : Cells target) (effects : Effects target),
        (∀ m, Marked.execBody (.ofTypes native) rounds marked ⟨.start cells, effects⟩ ≠
          .error .misread m) ∧
        mapResult id Tracked.forget
            (Marked.execBody (.ofTypes native) rounds marked ⟨.start cells, effects⟩) =
          rule.run (fun _ _ => true) rounds ⟨cells, effects⟩

/-- **The rule of an event refuses no read.** -/
theorem EventDecl.readsSound_of_lower {declarations : Declarations} {maxInlineDepth : Nat}
    {event : EventDecl} {rule : Rule} {st st' : LowerState} {slots : Slots} (hs : st.slots.Valid)
    (hroom : Stmt.nestingBody event.body + 1 +
      Declarations.callNesting [] declarations.functions.entries < Slots.hiddenDepth)
    (h : event.lower declarations maxInlineDepth st = .ok rule st')
    (hextend : st'.slots.Extends slots) (hslots : slots.Valid) :
    rule.ReadsSound declarations slots event := by
  obtain ⟨trigger, scopes, body, t, hfind, hscopes, hbody, hst', rfl⟩ := lower_ok h
  rw [hst'] at hextend
  have hready := EventDecl.ready maxInlineDepth hs hscopes hroom
  have hk := Stmt.lowerBody_kept (spliceWithin_grows _) hready hbody
  obtain ⟨marked, rfl, given, hgiven, hsensible⟩ :=
    Stmt.lowerBody_sensible (spliceWithin_sensible _) hready hbody
  have hresults : ∀ scope ∈ scopes.open_, scope.result? = none :=
    declareArgs_results (fun scope hscope => by rw [List.mem_singleton.mp hscope]; rfl) hscopes
  have hfits : (⟨slots, given, hslots⟩ : SlotPlan).Fits scopes.depth scopes := by
    refine ⟨hready.stored.extend (hk.extend.trans hextend), hready.open_lt, Nat.le_succ _,
      fun scope hscope r hr => ?_, fun slot ty hty => .inl (hextend.hidden (hgiven slot ty hty).2)⟩
    rw [hresults scope hscope] at hr
    cases hr
  obtain ⟨hmarks, hkeeps⟩ := hsensible ⟨slots, given, hslots⟩ hextend (fun _ _ => id) hfits
  have houter : Scopes.Stored slots (Scopes.empty.push .block).open_ :=
    Scopes.Stored.push (l := []) trivial (.inl rfl)
  have hdepth : scopes.depth = 1 := (declareArgs_stored houter hscopes).2
  have hmarked : event.Marks declarations slots marked := by
    rw [EventDecl.Marks, ← hdepth]
    exact hmarks
  refine ⟨marked, fun ms => ⟨fun h => h.2.unique hmarked h.1, ?_⟩,
    fun target native htyped hprovides rounds cells effects => ?_⟩
  · rintro rfl
    exact ⟨rfl, hmarked⟩
  have hargs : ∀ arg ∈ event.args.zip trigger.args,
      Ensures (Guard.ofTypes native arg.2.ty · = true) (Computation.constant arg.2.target) :=
    fun arg harg => .constant (hprovides trigger hfind arg.2 (List.of_mem_zip harg).2)
  have hempty : (Scopes.empty.push .block).Provides (Guard.ofTypes native) :=
    Scopes.Constants.empty.push .block
  have hprovided : scopes.Provides (Guard.ofTypes native) :=
    declareArgs_constants hempty hargs hscopes
  exact (hkeeps target _ htyped.sound hprovided).run_eq rounds cells effects

/-! ## Programs -/

namespace Program

/-- A rule that checks the types of its reads still does what its event does, if no initial value in
it has a type with a generic. -/
theorem lower_implements_checked {options : Options} {program : Program} {rules : List Rule}
    {st : LowerState} (h : program.lower options = .ok rules st)
    (hnesting : program.nesting < Slots.hiddenDepth) : ∃ declarations,
      Declarations.collect program = .ok declarations ∧
      List.Forall₂
        (fun event rule => (∀ ty ∈ Action.initialsBody rule.body, ty.hasGeneric = false) →
          ∀ (target : Target) (native : String → Datum target.Thing → Bool), target.Typed native →
            (∀ trigger, EventDef.find? event.name = some trigger →
              target.Provides native trigger) →
            ∀ (rounds depth : Nat) (cells : Cells target), options.maxInlineDepth ≤ depth →
              Simulates (fun _ p => p.1 = .normal) (event.run declarations depth rounds)
                (runWith (rule.run (.ofTypes native) rounds) cells))
        program.events rules := by
  obtain ⟨declarations, t, hcollect, hlower⟩ := lower_ok h
  have hroom := events_room hcollect hnesting
  refine ⟨declarations, hcollect, lowerEvents_forall₂ hroom (Slots.valid_empty _) hlower ?_⟩
  intro event hevent rule s s' hs _ hrule hconcrete target native htyped hprovides rounds depth
    cells hdepth
  refine SimulatesVia.mono (EventDecl.lower_performs cells htyped.sound hdepth hs
    (hroom event hevent) hrule hconcrete ?_) fun _ p hp => hp.1
  exact fun trigger hfind arg harg => .constant (hprovides trigger hfind arg harg)

end Program

/-! ## Programs on a target -/

/-- Some datum of a type. -/
def Ty.sample (ty : Ty) : Datum Unit :=
  if ty = .number then .number 0.0
  else if ty = .string then .text ""
  else if ty = .boolean then .truth true
  else if ty.item?.isSome then .list []
  else .thing ()

/-- A target without a world, in which all players, vectors and the like are one thing. Where
nothing is stored it gives a fixed datum, or nothing. -/
def Target.sample (unset : Option (Datum Unit)) : Target where
  World := Unit
  Thing := Unit
  constant _ _ := some (.thing ())
  value name _ world :=
    ((FunctionDef.all.find? (·.target = name)).bind (·.ret)).map fun ty => (ty.sample, world)
  action _ _ world := some world
  assignField _ _ _ world := some world
  item items _ := items.head?
  beyond _ _ _ := some (.number 0.0)
  compare _ _ _ _ := some true
  unset := unset

theorem Target.sample_typed (unset : Option (Datum Unit)) :
    (Target.sample unset).Typed fun _ _ => true := by
  have hconstants : ∀ c ∈ ConstantDef.all,
      c.ty.admits (.open_ fun _ (_ : Datum Unit) => true) (.thing ()) = true := by decide +kernel
  have hvalues : ∀ f ∈ FunctionDef.all,
      ((FunctionDef.all.find? (·.target = f.target)).bind (·.ret)).all (fun ty =>
        f.ret.all (·.admits (.open_ fun _ (_ : Datum Unit) => true) ty.sample)) = true := by
    decide +kernel
  refine ⟨?_, ?_, ?_, ?_⟩
  · intro name c world d hfind hd
    cases hd
    exact hconstants c (List.mem_of_find?_eq_some hfind)
  · intro name f ty args world d world' hfind hret hd
    have hf := hvalues f (List.mem_of_find?_eq_some hfind)
    obtain ⟨ty', hty', hd⟩ := Option.map_eq_some_iff.mp hd
    cases hd
    rw [hty', hret] at hf
    exact hf
  · intro ty items place d hitems hd
    exact hitems d (List.mem_of_mem_head? hd)
  · intro op a b d hd
    cases hd
    rfl

/-- A text that is trusted is refused where a number is read, and goes on where it is not. -/
example :
    let read : Marked := .call "wait" [.read .number 0]
    let run := fun ms => (Marked.execBody (.ofTypes fun _ _ => true) 1 ms
      ⟨.start fun _ => none, ⟨(), []⟩⟩ :
        EStateM.Result Halt (Running (.sample none) (Tracked (.sample none))) Exit)
    (run [.declare 0 .string (.ofText "a"), read] matches .error .misread _) = true ∧
      (run [.declare 0 .string (.ofText "a"), .opened 0, read] matches .ok .normal _) = true := by
  decide +kernel

namespace Program

/-- A program in which a variable of type `number` is in the slot of a text, and nothing is stored
in it before it is read. -/
def reusedSlot : Program :=
  let z := Span.zero
  ⟨[.event ⟨"server", [],
    [.block z [.declare z "x" none (some (.string z "hello")) false],
      .block z [.declare z "x" (some (.named z "number")) none false,
        .call z "wait" [.ident z "x"]]], z⟩]⟩

/-- A program in which an argument has the generic of its caller as its type, and the call has a
generic of the same name. -/
def capturedGeneric : Program :=
  let z := Span.zero
  let generic : TypeExpr := .named z "T"
  ⟨[.function ⟨"show", [⟨"T", none, z⟩], [⟨"a", generic, z⟩, ⟨"b", generic, z⟩], none,
      [.call z "smallMessage" [.call z "allPlayers" [], .ident z "b"]], z⟩,
    .function ⟨"start", [⟨"T", none, z⟩], [], none,
      [.declare z "x" (some generic) (some (.number z 5.0)) false,
        .call z "show" [.string z "s", .ident z "x"]], z⟩,
    .event ⟨"server", [], [.call z "start" []], z⟩]⟩

/-- A program that copies a variable in which nothing is stored to another one, and reads that. -/
def copiedUnset : Program :=
  let z := Span.zero
  ⟨[.event ⟨"server", [],
    [.declare z "x" (some (.named z "string")) none false,
      .declare z "y" none (some (.ident z "x")) false,
      .call z "smallMessage" [.call z "allPlayers" [], .ident z "y"]], z⟩]⟩

/-- Whether a rule of the program fails a check when it starts with an array that holds nothing. -/
def misreads (unset : Option (Datum Unit)) (program : Program) : Bool :=
  match program.lower {} with
  | .ok rules _ => rules.any fun rule =>
    match (rule.run (.ofTypes fun _ _ => true) 1 ⟨fun _ => none, ⟨(), []⟩⟩ :
        EStateM.Result Halt (Memory (.sample unset)) Exit) with
    | .error .misread _ => true
    | _ => false
  | .error _ _ => false

theorem exists_of_misreads {unset : Option (Datum Unit)} {program : Program}
    (h : program.misreads unset = true) :
    ∃ rules st rule memory, program.lower {} = .ok rules st ∧ rule ∈ rules ∧
      rule.run (.ofTypes fun _ _ => true) 1 ⟨fun _ => none, ⟨(), []⟩⟩ =
        (.error .misread memory : EStateM.Result Halt (Memory (.sample unset)) Exit) := by
  rw [misreads] at h
  split at h
  case h_1 rules st hlower =>
    obtain ⟨rule, hrule, hrun⟩ := List.any_eq_true.mp h
    split at hrun
    case h_1 memory hmisread => exact ⟨rules, st, rule, memory, hlower, hrule, hmisread⟩
    case h_2 => cases hrun
  case h_2 => cases h

theorem sample_provides_server (unset : Option (Datum Unit)) :
    ∀ trigger, EventDef.find? "server" = some trigger →
      (Target.sample unset).Provides (fun _ _ => true) trigger := by
  intro trigger hfind arg harg
  have hargs : (EventDef.find? "server").all (·.args.isEmpty) = true := by decide +kernel
  rw [hfind] at hargs
  rw [List.isEmpty_iff.mp hargs] at harg
  cases harg

/-- A program in which a number is in the slot of a text as well, and the first item of an array is
stored in it before it is read. -/
def storedItem : Program :=
  let z := Span.zero
  let generic : TypeExpr := .named z "T"
  ⟨[.function ⟨"first", [⟨"T", none, z⟩], [⟨"items", .array z generic, z⟩], some generic,
      [.ret z (some (.index z (.ident z "items") (.number z 0.0)))], z⟩,
    .event ⟨"server", [],
      [.block z [.declare z "x" none (some (.string z "hello")) false],
        .block z [.declare z "x" (some (.named z "number")) none false,
          .assign z "x" (.call z "first" [.array z none [.number z 1.0, .number z 2.0]]),
          .call z "wait" [.ident z "x"]]], z⟩]⟩

end Program

end RuleScript
