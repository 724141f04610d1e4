import RuleScript.Proofs.Lowering.References

/-!
# Two runs of lowering side by side

Whether lowering depends on something is a question about two runs that differ in it. The first run
*tracks* the second if it ends as the second does: with the same error, or with a related result and
with slots that are related again. What may differ is left to a `Comparison`, which also says for
which errors the first run may stop short of the second.

The log is never compared, as nothing is read from it.

## Main definitions

* `Lower.Comparison`: what two runs have in common, and what may stop the first one
* `Lower.Tracks`: the first run ends as the second does

## Main results

* `Lower.Tracks.bind`: steps that track each other, one after the other
* `Lower.Tracks.intern`, `Lower.Tracks.fresh`: handing out slots
-/

namespace RuleScript

namespace Lower

/-- From related slots, both runs hand out the same slot and are left with related slots, or both
have none to hand out and would say so in the same words. The first run alone may have none only if
that may stop it. -/
def GrantsAlike (related : Slots → Slots → Prop) (cut : Error → Prop)
    (take : Slots → Option Grant) : Prop :=
  ∀ ⦃s t⦄, related s t →
    (∃ g g', take s = some g ∧ take t = some g' ∧ g.slot = g'.slot ∧ related g.slots g'.slots) ∨
    take s = none ∧ (take t = none ∧ s.limit = t.limit ∨ ∀ span, cut ⟨.outOfSlots s.limit, span⟩)

/-- What two runs of lowering have in common, and what may stop the first one. -/
structure Comparison where
  /-- The slots of the two runs, at the same point of both. -/
  related : Slots → Slots → Prop
  /-- The errors that may stop the first run, whatever the second one does. -/
  cut : Error → Prop
  /-- The references that stand for the same in both. -/
  known : Reference → Prop
  intern (name : String) (depth : Nat) : GrantsAlike related cut (·.intern name depth)
  fresh (label : String) : GrantsAlike related cut (·.fresh label)

/-- Calls that are nested too deeply may stop the first run. -/
def Comparison.CutsDepth (c : Comparison) : Prop :=
  ∀ name limit span, c.cut ⟨.inlinedTooDeep name limit, span⟩

variable {c : Comparison} {α β γ δ : Type}

/-- How the first run ends beside the second: both with results and slots that are related, both
with the same error, or the first with an error that may stop it. -/
inductive Ends (c : Comparison) (Q : α → β → Prop) :
    EStateM.Result Error LowerState α → EStateM.Result Error LowerState β → Prop
  | ok {a b s t} : Q a b → c.related s.slots t.slots → Ends c Q (.ok a s) (.ok b t)
  | error {e s t} : c.related s.slots t.slots → Ends c Q (.error e s) (.error e t)
  | cut {e s r} : c.cut e → Ends c Q (.error e s) r

/-- The first run ends as the second does, from whatever related slots they start. -/
def Tracks (c : Comparison) (Q : α → β → Prop) (x : Lower α) (y : Lower β) : Prop :=
  ∀ ⦃s t : LowerState⦄, c.related s.slots t.slots → Ends c Q (x s) (y t)

theorem ofExcept_bind (x : Except Error α) (f : α → Except Error β) :
    ofExcept (x >>= f) = ofExcept x >>= fun a => ofExcept (f a) := by
  cases x <;> rfl

namespace Tracks

variable {Q : α → β → Prop} {Q' : γ → δ → Prop} {x : Lower α} {y : Lower β} {fault : Fault}
  {span : Span}

theorem pure {a : α} {b : β} (h : Q a b) : Tracks c Q (Pure.pure a) (Pure.pure b) :=
  fun _ _ hr => .ok h hr

theorem fail : Tracks c Q (Lower.fail fault span) (Lower.fail fault span) :=
  fun _ _ hr => .error hr

theorem cut (h : c.cut ⟨fault, span⟩) : Tracks c Q (Lower.fail fault span) y :=
  fun _ _ _ => .cut h

theorem ofExcept (x : Except Error α) : Tracks c Eq (Lower.ofExcept x) (Lower.ofExcept x) := by
  intro s t hr
  cases x with
  | ok a => exact .ok rfl hr
  | error e => exact .error hr

/-- **Steps that track each other, one after the other.** -/
theorem bind {f : α → Lower γ} {g : β → Lower δ} (hx : Tracks c Q x y)
    (hf : ∀ {a b}, Q a b → Tracks c Q' (f a) (g b)) : Tracks c Q' (x >>= f) (y >>= g) := by
  intro s t hr
  have hends := hx hr
  simp only [Bind.bind, EStateM.bind]
  generalize x s = r at hends ⊢
  generalize y t = r' at hends ⊢
  cases hends with
  | ok hab hr' => exact hf hab hr'
  | error hr' => exact .error hr'
  | cut hcut => exact .cut hcut

/-- Steps with the same results, one after the other. -/
theorem bindEq {x y : Lower α} {f : α → Lower γ} {g : α → Lower δ} (hx : Tracks c Eq x y)
    (hf : ∀ a, Tracks c Q' (f a) (g a)) : Tracks c Q' (x >>= f) (y >>= g) :=
  hx.bind fun {a _} hab => hab ▸ hf a

/-- A check that fails in both runs or in neither. -/
theorem check {p : Prop} [Decidable p] {k : Unit → Lower α} {k' : Unit → Lower β}
    (h : Tracks c Q (k ()) (k' ())) :
    Tracks c Q (if p then Lower.fail fault span >>= k else k ())
      (if p then Lower.fail fault span >>= k' else k' ()) := by
  split
  · exact (fail (Q := Eq)).bindEq fun _ => h
  · exact h

theorem log {entry entry' : LogEntry} : Tracks c Eq (Lower.log entry) (Lower.log entry') :=
  fun _ _ hr => .ok rfl hr

/-- Handing out a slot. -/
theorem grant {take : Slots → Option Grant} (h : GrantsAlike c.related c.cut take) (span : Span) :
    Tracks c Eq (Lower.grant take span) (Lower.grant take span) := by
  refine bind (Q := fun s t => c.related s.slots t.slots) (fun _ _ hr => .ok hr hr) ?_
  intro s t hr
  rcases h hr with ⟨g, g', hg, hg', hslot, hr'⟩ | ⟨hnone, ⟨hnone', hlimit⟩ | hcut⟩
  · simp only [hg, hg', hslot]
    -- Only one of the runs may log a new slot, which makes no difference to the slots.
    have hdone : Tracks c Eq
        (do modify fun s => { s with slots := g.slots }; return g'.slot)
        (do modify fun s => { s with slots := g'.slots }; return g'.slot) :=
      fun _ _ _ => .ok rfl hr'
    cases g.new? <;> cases g'.new? <;> exact fun _ _ hr => hdone hr
  · simp only [hnone, hnone', hlimit]
    exact fail
  · simp only [hnone]
    exact cut (hcut span)

theorem intern (name : String) (depth : Nat) (span : Span) :
    Tracks c Eq (Lower.intern name depth span) (Lower.intern name depth span) :=
  grant (c.intern name depth) span

theorem fresh (label : String) (span : Span) :
    Tracks c Eq (Lower.fresh label span) (Lower.fresh label span) :=
  grant (c.fresh label) span

end Tracks

end Lower

end RuleScript
