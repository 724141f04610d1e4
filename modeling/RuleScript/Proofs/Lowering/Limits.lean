import RuleScript.Proofs.Lowering.Agreement
import RuleScript.Proofs.Lowering.Extent
import RuleScript.Proofs.Lowering.Isolation

/-!
# What the limits do

Lowering has a limit on the slots and one on the depth of inlining. They only cut it off: up to the
first slot or call that is refused, runs with different limits hand out the same slots to the same
keys. So a program that is lowered under some limits is lowered to the same rules under larger ones,
and the slots that it takes are exactly those that it needs.

## Main definitions

* `Slots.SameWithin`: the same slots were handed out under two limits

## Main results

* `Program.lower_limits`: limits cut lowering off and change nothing else
-/

namespace RuleScript

namespace Slots

/-- The same slots were handed out for the same keys, from two tables with limits of their own, and
no more than the first limit allows. -/
structure SameWithin (limit limit' : Nat) (s t : Slots) : Prop where
  entries : s.entries = t.entries
  hidden : s.hidden = t.hidden
  limit_eq : s.limit = limit
  limit_eq' : t.limit = limit'
  size_le : s.size ≤ limit

namespace SameWithin

variable {limit limit' : Nat} {s t : Slots}

theorem empty (limit limit' : Nat) : SameWithin limit limit' (.empty limit) (.empty limit') :=
  ⟨rfl, rfl, rfl, rfl, Nat.zero_le limit⟩

theorem size_eq (h : SameWithin limit limit' s t) : s.size = t.size := by
  rw [size, size, h.entries]

/-- Both tables hand out the same slot next, or the first one has none left. -/
theorem allocate (h : SameWithin limit limit' s t) (hle : limit ≤ limit') (key : SlotKey) :
    (∃ g g', s.allocate key = some g ∧ t.allocate key = some g' ∧ g.slot = g'.slot ∧
      SameWithin limit limit' g.slots g'.slots) ∨ s.allocate key = none := by
  have hsize := h.size_eq
  by_cases hfree : s.size < s.limit ∧ s.size < addressable
  · have hfree' : t.size < t.limit ∧ t.size < addressable := by
      rw [h.limit_eq] at hfree
      rw [h.limit_eq', ← hsize]
      exact ⟨Nat.lt_of_lt_of_le hfree.1 hle, hfree.2⟩
    refine .inl ⟨_, _, if_pos hfree, if_pos hfree', hsize, ?_⟩
    refine ⟨?_, h.hidden, h.limit_eq, h.limit_eq', ?_⟩
    · simp only [hsize, h.entries]
    · have hlength : (s.entries.filter (·.1 ≠ key)).length ≤ s.size := List.length_filter_le _ _
      have hlt := hfree.1
      rw [h.limit_eq] at hlt
      show (s.entries.filter (·.1 ≠ key)).length + 1 ≤ limit
      omega
  · exact .inr (if_neg hfree)

end SameWithin

end Slots

namespace Lower

variable {limit limit' : Nat} {cut : Error → Prop}

/-- Two runs with limits on the slots, the second one at least as large. Running out of slots may
stop the first. -/
def Comparison.limits (hle : limit ≤ limit') (hcut : ∀ e, e.fault.kind = .capacity → cut e) :
    Comparison where
  related := Slots.SameWithin limit limit'
  cut := cut
  known _ := True
  intern name depth s t h := by
    have hget : s.get? ⟨name, depth⟩ = t.get? ⟨name, depth⟩ := by
      rw [Slots.get?, Slots.get?, h.entries]
    simp only [Slots.intern, hget]
    cases t.get? ⟨name, depth⟩ with
    | some slot => exact .inl ⟨_, _, rfl, rfl, rfl, h⟩
    | none => exact (h.allocate hle _).imp_right fun hnone => ⟨hnone, .inr fun _ => hcut _ rfl⟩
  fresh label s t h := by
    have hnext : Slots.SameWithin limit limit' { s with hidden := s.hidden + 1 }
        { t with hidden := t.hidden + 1 } :=
      ⟨h.entries, congrArg (· + 1) h.hidden, h.limit_eq, h.limit_eq', h.size_le⟩
    simp only [Slots.fresh, h.hidden] at hnext ⊢
    exact (hnext.allocate hle _).imp_right fun hnone => ⟨hnone, .inr fun _ => hcut _ rfl⟩

end Lower

namespace Program

variable {program : Program} {options options' : Options}

/-- A run under smaller limits ends as one under larger limits does, unless it is stopped. -/
theorem lower_ends (program : Program) (cut : Error → Prop)
    (hslots : options.maxSlots ≤ options'.maxSlots)
    (hcut : ∀ e, e.fault.kind = .capacity → cut e)
    (hdepth : options.maxInlineDepth = options'.maxInlineDepth ∨
      options.maxInlineDepth ≤ options'.maxInlineDepth ∧
        ∀ name limit span, cut ⟨.inlinedTooDeep name limit, span⟩) :
    Lower.Ends (.limits hslots hcut) Eq (program.lower options) (program.lower options') := by
  refine lower_tracks (Slots.SameWithin.empty _ _) hdepth ?_ rfl fun _ _ _ _ => trivial
  intro s t hr
  cases Declarations.collect program with
  | error e => exact .error hr
  | ok d => exact .ok ⟨fun _ _ => rfl, fun _ _ _ _ _ _ => trivial⟩ hr

/-- **Limits cut lowering off and change nothing else.** If a program is lowered to some rules and
takes some slots, then it is lowered to the same rules whenever both limits are at least as large;
if the limit on the slots is below what it takes and the other is the same, it fails for lack of
slots; it takes no more than the limit; and every slot in the rules is below the number that it
takes, as long as the program is not nested as deeply as the keys without a name. -/
theorem lower_limits {rules : List Rule} {st : LowerState}
    (h : program.lower options = .ok rules st) :
    (∀ options' : Options, options.maxSlots ≤ options'.maxSlots →
      options.maxInlineDepth ≤ options'.maxInlineDepth →
      ∃ st', program.lower options' = .ok rules st') ∧
    (∀ options' : Options, options'.maxInlineDepth = options.maxInlineDepth →
      options'.maxSlots < st.slots.size →
      ∃ e st', program.lower options' = .error e st' ∧ e.fault.kind = .capacity) ∧
    st.slots.size ≤ options.maxSlots ∧
    (program.nesting < Slots.hiddenDepth →
      ∀ rule ∈ rules, Action.Below st.slots.size rule.body) := by
  -- The run beside itself, which says how many slots it takes.
  have hsize : st.slots.size ≤ options.maxSlots := by
    have hends := lower_ends program (·.fault.kind = .capacity) (Nat.le_refl options.maxSlots)
      (fun _ => id) (.inl rfl)
    rw [h] at hends
    cases hends with
    | ok _ hsame => exact hsame.size_le
  refine ⟨fun options' hslots hdepth => ?_, fun options' hdepth hslots => ?_, hsize, lower_below h⟩
  · have hends := lower_ends program (fun _ => True) hslots (fun _ _ => trivial)
      (.inr ⟨hdepth, fun _ _ _ => trivial⟩)
    rw [h] at hends
    generalize program.lower options' = r at hends ⊢
    cases hends with
    | ok hrules => exact ⟨_, by rw [hrules]⟩
  · have hends := lower_ends program (·.fault.kind = .capacity) (hslots.le.trans hsize)
      (fun _ => id) (.inl hdepth)
    rw [h] at hends
    generalize program.lower options' = r at hends ⊢
    cases hends with
    | cut hcut => exact ⟨_, _, rfl, hcut⟩
    | ok _ hsame =>
      have hle := hsame.size_le
      rw [hsame.size_eq] at hle
      exact absurd hle (Nat.not_le_of_lt hslots)

/-- How many slots lowering a program takes, if it ends without an error. -/
def slotsTaken? (options : Options) (program : Program) : Option Nat :=
  match program.lower options with
  | .ok _ st => some st.slots.size
  | .error _ _ => none

theorem exists_of_slotsTaken? {k : Nat} (h : program.slotsTaken? options = some k) :
    ∃ rules st, program.lower options = .ok rules st ∧ st.slots.size = k := by
  rw [slotsTaken?] at h
  split at h
  case h_1 rules st hlower => exact ⟨rules, st, hlower, Option.some.inj h⟩
  case h_2 => cases h

theorem lower_limits_nestedCall : ∃ rules st,
    nestedCall.lower { maxSlots := 6, maxInlineDepth := 2 } = .ok rules st ∧
    (∃ st', nestedCall.lower {} = .ok rules st') ∧
    (∃ e st', nestedCall.lower { maxSlots := 5, maxInlineDepth := 2 } = .error e st' ∧
      e.fault.kind = .capacity) ∧
    ∀ rule ∈ rules, Action.Below 6 rule.body := by
  obtain ⟨rules, st, h, hsize⟩ := exists_of_slotsTaken?
    (show nestedCall.slotsTaken? { maxSlots := 6, maxInlineDepth := 2 } = some 6 by decide +kernel)
  obtain ⟨hlarger, hsmaller, -, hbelow⟩ := lower_limits h
  rw [hsize] at hsmaller hbelow
  exact ⟨rules, st, h, hlarger {} (by decide) (by decide),
    hsmaller { maxSlots := 5, maxInlineDepth := 2 } rfl (by decide), hbelow (by decide)⟩

end Program

end RuleScript
