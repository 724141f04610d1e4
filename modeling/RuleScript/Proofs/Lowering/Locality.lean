import RuleScript.Compile
import RuleScript.Proofs.Lowering.Agreement
import RuleScript.Proofs.Lowering.Isolation

/-!
# What makes no difference to lowering

Two runs that start with the same slots come to the same if they agree on what can be looked up. For
a program that is its events and the declarations that they lead to: neither the order of the
declarations nor those that nothing refers to make a difference. For the body of a call it is the
declarations, the functions being inlined and the number of open scopes: what the scopes of the
caller hold makes no difference.

## Main definitions

* `Lower.outcome`: what a run comes to, the log apart
* `Program.AgreesWith`: programs with the same declarations wherever their events lead

## Main results

* `Program.analyze_local`: declarations matter only if they are referred to, in no order
* `FunctionDecl.inline_local`: a call does not see the scopes of its caller
-/

namespace RuleScript

/-! ## Runs with the same slots -/

namespace Lower

variable {α : Type} {known : Reference → Prop}

/-- What a run comes to: its result or its error, and the slots after it. -/
def outcome : EStateM.Result Error LowerState α → Except Error α × Slots
  | .ok a s => (.ok a, s.slots)
  | .error e s => (.error e, s.slots)

theorem grantsAlike_same (take : Slots → Option Grant) : GrantsAlike Eq (fun _ => False) take := by
  rintro s _ rfl
  cases htake : take s with
  | none => exact .inr ⟨rfl, .inl ⟨rfl, rfl⟩⟩
  | some g => exact .inl ⟨g, g, rfl, rfl, rfl, rfl⟩

/-- Two runs with the same slots, neither of which is stopped on its own. -/
def Comparison.same (known : Reference → Prop) : Comparison where
  related := Eq
  cut _ := False
  known := known
  intern _ _ := grantsAlike_same _
  fresh _ := grantsAlike_same _

/-- Such runs come to the same. -/
theorem Ends.outcome_eq {r r' : EStateM.Result Error LowerState α}
    (h : Ends (.same known) Eq r r') : outcome r = outcome r' := by
  cases h with
  | ok hab hslots =>
    obtain rfl := hab
    exact congrArg (Prod.mk _) hslots
  | error hslots => exact congrArg (Prod.mk _) hslots
  | cut hcut => exact hcut.elim

end Lower

/-! ## Programs -/

namespace Program

variable {p q : Program} {options : Options}

/-- Every name that the events lead to has the same declaration in the other program, or none in
either. -/
def AgreesWith (p q : Program) : Prop :=
  ∀ item r, item.declares? = some r → p.Refers r → (item ∈ p.items ↔ item ∈ q.items)

theorem AgreesWith.of_perm (h : p.items.Perm q.items) : p.AgreesWith q :=
  fun _ _ _ _ => h.mem_iff

theorem AgreesWith.of_unreferenced (hsubset : p.items ⊆ q.items)
    (hnew : ∀ item ∈ q.items, item ∉ p.items → ∀ r, item.declares? = some r → ¬ p.Refers r) :
    p.AgreesWith q := by
  intro item r hitem hr
  refine ⟨fun h => hsubset h, fun hq => ?_⟩
  by_contra hp
  exact hnew item hq hp r hitem hr

/-- The declarations of programs that agree cannot be told apart from their events. -/
theorem AgreesWith.agreeOn {d d' : Declarations} (h : p.AgreesWith q)
    (hd : Declarations.collect p = .ok d) (hd' : Declarations.collect q = .ok d') :
    d.AgreeOn p.Refers d' where
  lookup? r hr := by
    ext item
    rw [Declarations.lookup?_collect hd, Declarations.lookup?_collect hd']
    constructor
    · rintro ⟨hmem, hitem⟩
      exact ⟨(h item r hitem hr).mp hmem, hitem⟩
    · rintro ⟨hmem, hitem⟩
      exact ⟨(h item r hitem hr).mpr hmem, hitem⟩
  closed r item hr hitem r' hr' := by
    obtain ⟨hmem, hdeclares⟩ := (Declarations.lookup?_collect hd).mp hitem
    exact .through hr hmem hdeclares hr'

/-- Programs that agree come to the same. -/
theorem AgreesWith.outcome_lower (h : p.AgreesWith q) (hp : p.Distinct) (hq : q.Distinct)
    (hevents : p.events = q.events) :
    Lower.outcome (p.lower options) = Lower.outcome (q.lower options) := by
  obtain ⟨d, hd⟩ := Declarations.exists_collect hp
  obtain ⟨d', hd'⟩ := Declarations.exists_collect hq
  refine (lower_tracks (c := .same p.Refers) rfl (.inl rfl) ?_ hevents ?_).outcome_eq
  · rw [hd, hd']
    exact .pure (h.agreeOn hd hd')
  · intro e he r hr
    exact .event (mem_events.mp he) hr

theorem analyzeProgram_result (p : Program) :
    (analyzeProgram options p).result = (Lower.outcome (p.lower options)).1 := by
  rw [analyzeProgram]
  cases p.lower options <;> rfl

/-- **Declarations matter only if they are referred to, and in no order.** Let no function and no
type be declared twice in two programs with the same events in the same order. If their declarations
agree on every name that the events lead to, then both have the same rules, with the same slots, or
the same error. So it is if their declarations are the same in another order, wherever they stand
among the events, and if one has declarations that the other lacks and never refers to. -/
theorem analyze_local (options : Options) {p q : Program} (hp : p.Distinct) (hq : q.Distinct)
    (hevents : p.events = q.events) :
    (p.AgreesWith q → (analyzeProgram options p).result = (analyzeProgram options q).result) ∧
    (p.items.Perm q.items →
      (analyzeProgram options p).result = (analyzeProgram options q).result) ∧
    (p.items ⊆ q.items →
      (∀ item ∈ q.items, item ∉ p.items → ∀ r, item.declares? = some r → ¬ p.Refers r) →
      (analyzeProgram options p).result = (analyzeProgram options q).result) := by
  have hlocal (h : p.AgreesWith q) :
      (analyzeProgram options p).result = (analyzeProgram options q).result := by
    rw [analyzeProgram_result, analyzeProgram_result, h.outcome_lower hp hq hevents]
  exact ⟨hlocal, fun hperm => hlocal (.of_perm hperm),
    fun hsubset hnew => hlocal (.of_unreferenced hsubset hnew)⟩

/-- A program refers to nothing that it does not mention. -/
theorem Refers.mem_references {r : Reference} (h : p.Refers r) :
    r ∈ p.items.flatMap Item.references := by
  cases h with
  | event hitem hr => exact List.mem_flatMap.mpr ⟨_, hitem, hr⟩
  | through _ hitem _ hr => exact List.mem_flatMap.mpr ⟨_, hitem, hr⟩

/-- The declarations of `nestedCall` the other way round, behind the event, with two more. -/
def nestedCallLater : Program :=
  let unused : Item := .function ⟨"unused", [], [], none, [.call .zero "outer" []], .zero⟩
  let recursive : Item := .typeAlias ⟨"recursive", .array .zero (.named .zero "recursive"), .zero⟩
  ⟨recursive :: nestedCall.items.reverse ++ [unused]⟩

theorem analyze_local_nestedCallLater :
    nestedCall.Distinct ∧ nestedCallLater.Distinct ∧ nestedCall.events = nestedCallLater.events ∧
    (analyzeProgram {} nestedCall).result = (analyzeProgram {} nestedCallLater).result ∧
    ∃ rules, (analyzeProgram {} nestedCallLater).result = .ok rules := by
  have hp : nestedCall.Distinct := by decide
  have hq : nestedCallLater.Distinct := by decide
  have hnew : ∀ item ∈ nestedCallLater.items, item ∉ nestedCall.items →
      ∀ r, item.declares? = some r → ¬ nestedCall.Refers r := by
    intro item hitem hnot r hr hrefers
    have hmem := hrefers.mem_references
    simp only [nestedCallLater, List.cons_append, List.mem_cons, List.mem_append, List.mem_reverse,
      hnot, false_or, List.not_mem_nil, or_false] at hitem
    rcases hitem with rfl | rfl <;> cases hr <;> revert hmem <;> decide
  have hsame := (analyze_local {} hp hq rfl).2.2 (by simp [nestedCallLater]) hnew
  refine ⟨hp, hq, rfl, hsame, ?_⟩
  obtain ⟨rules, st, hlower⟩ : ∃ rules st, nestedCallLater.lower {} = .ok rules st :=
    exists_of_lowers (by decide +kernel)
  exact ⟨rules, by rw [analyzeProgram, hlower]⟩

end Program

/-! ## Calls -/

namespace FunctionDecl

/-- **A call does not see the scopes of its caller.** Let two places of lowering agree on the
declarations, the limit on inlining, the functions being inlined, the number of open scopes and the
slots handed out. Then a call of a function with the same arguments comes to the same at both, to
the same code and return slot or to the same error, and leaves the same slots, whatever the open
scopes are and hold. -/
theorem inline_local (depth : Nat) (decl : FunctionDecl) (args : List Value) (span : Span)
    {env env' : Env} {st st' : LowerState} (hdeclarations : env.declarations = env'.declarations)
    (hlimit : env.maxInlineDepth = env'.maxInlineDepth) (hinlining : env.inlining = env'.inlining)
    (hdepth : env.scopes.depth = env'.scopes.depth) (hslots : st.slots = st'.slots) :
    Lower.outcome (inline (spliceWithin depth) env decl args span st) =
      Lower.outcome (inline (spliceWithin depth) env' decl args span st') := by
  -- With the same declarations everything is known, so nothing has to be said about references.
  have hlevel : env.Level (.same fun _ => True) env' :=
    ⟨⟨fun _ _ => by rw [hdeclarations], fun _ _ _ _ _ _ => trivial⟩, hinlining, .inl hlimit, hdepth⟩
  have hsplice : Splice.TracksWithin (.same fun _ => True) (spliceWithin depth)
      (spliceWithin depth) := spliceWithin_tracks (.inl rfl)
  exact (inline_tracks hsplice args span hlevel (fun _ _ => trivial) hslots).outcome_eq

/-- A function that adds one to its argument. -/
def successor : FunctionDecl :=
  ⟨"successor", [], [⟨"x", .named .zero "number", .zero⟩], some (.named .zero "number"),
    [.ret .zero (some (.binary .zero .add (.ident .zero "x") (.number .zero 1.0)))], .zero⟩

/-- A place in a block that declares nothing. -/
def inBlock : Env :=
  { declarations := {}, maxInlineDepth := 16, scopes := Scopes.empty.push .block }

/-- A place in a loop that has a constant with the name of a parameter, and a type with the name of
its type. -/
def inLoop : Env :=
  let scopes := (Scopes.empty.push (.loop none)).declare "x" ⟨.string, false, .constant "X"⟩
  { inBlock with scopes := scopes.declareType "number" .string }

theorem inline_local_successor :
    Lower.outcome (inline (spliceWithin 16) inBlock successor [.ofNumber 1.0] .zero
        { slots := .empty 1000 }) =
      Lower.outcome (inline (spliceWithin 16) inLoop successor [.ofNumber 1.0] .zero
        { slots := .empty 1000 }) ∧
    ∃ spliced slots, Lower.outcome (inline (spliceWithin 16) inLoop successor [.ofNumber 1.0] .zero
      { slots := .empty 1000 }) = (.ok spliced, slots) :=
  ⟨inline_local 16 successor [.ofNumber 1.0] .zero rfl rfl rfl rfl rfl, _, _, rfl⟩

end FunctionDecl

end RuleScript
