import Mathlib.Data.List.Nodup
import RuleScript.Slots

/-!
# The slots that are handed out

The slots handed out so far are numbered without gaps, each belongs to one key, and the keys without
a name of their own are numbered by how many were asked for. Handing out a slot keeps all of this,
and changes nothing for the keys that have a slot already.

The keys of variables and those of return values and saved conditions are kept apart by their depth
(`Slots.hiddenDepth`), so that a variable never gets the slot of a saved value as long as no scope
is that deep.

## Main definitions

* `Slots.Valid`: what holds of all slots that are handed out
* `Slots.Extends`: slots after handing out some more
* `Slots.Hidden`: the slots without a name

## Main results

* `Slots.Valid.key_unique`: a slot belongs to one key
* `Slots.Valid.intern`, `Slots.Valid.fresh`: what handing out a slot gives
-/

namespace RuleScript

namespace Slots

/-- The slots count down to zero, no key has two, and the keys at the depth of slots without a name
are numbered by how many of those there were. -/
structure Valid (s : Slots) : Prop where
  keys_nodup : (s.entries.map (·.1)).Nodup
  slots_eq : s.entries.map (·.2) = (List.range s.size).reverse
  numbered : ∀ e ∈ s.entries, e.1.depth = hiddenDepth →
    ∃ label n, n ≤ s.hidden ∧ e.1.name = label ++ "#" ++ n.repr

/-- Everything that had a slot has it still. -/
structure Extends (s t : Slots) : Prop where
  get? : ∀ {key slot}, s.get? key = some slot → t.get? key = some slot
  size_le : s.size ≤ t.size

/-- The slot has no name of its own: it holds a return value or a saved condition. -/
def Hidden (s : Slots) (slot : Slot) : Prop :=
  ∃ key, key.depth = hiddenDepth ∧ s.get? key = some slot

/-! ## Looking up slots -/

theorem mem_of_get? {s : Slots} {key : SlotKey} {slot : Slot} (h : s.get? key = some slot) :
    (key, slot) ∈ s.entries := by
  obtain ⟨l₁, l₂, hl, -⟩ := List.lookup_eq_some_iff.mp h
  rw [hl]
  simp

theorem get?_of_mem {s : Slots} (hs : s.Valid) {key : SlotKey} {slot : Slot}
    (h : (key, slot) ∈ s.entries) : s.get? key = some slot := by
  obtain ⟨l₁, l₂, hl⟩ := List.append_of_mem h
  refine List.lookup_eq_some_iff.mpr ⟨l₁, l₂, hl, fun p hp => ?_⟩
  have hnodup := hs.keys_nodup
  rw [hl, List.map_append, List.map_cons, List.nodup_append] at hnodup
  have hne := hnodup.2.2 p.1 (List.mem_map_of_mem hp) key (by simp)
  simpa using fun heq => hne heq.symm

theorem Valid.get?_lt {s : Slots} (hs : s.Valid) {key : SlotKey} {slot : Slot}
    (h : s.get? key = some slot) : slot < s.size := by
  have hmem : slot ∈ s.entries.map (·.2) := List.mem_map_of_mem (f := Prod.snd) (mem_of_get? h)
  rw [hs.slots_eq] at hmem
  simpa using hmem

/-- A slot belongs to one key. -/
theorem Valid.key_unique {s : Slots} (hs : s.Valid) {k₁ k₂ : SlotKey} {slot : Slot}
    (h₁ : s.get? k₁ = some slot) (h₂ : s.get? k₂ = some slot) : k₁ = k₂ := by
  have hnodup : (s.entries.map (·.2)).Nodup := by
    rw [hs.slots_eq]
    exact List.nodup_reverse.mpr List.nodup_range
  have heq := List.inj_on_of_nodup_map hnodup (mem_of_get? h₁) (mem_of_get? h₂) rfl
  exact congrArg Prod.fst heq

theorem valid_empty (limit : Nat) : (empty limit).Valid where
  keys_nodup := by simp [empty]
  slots_eq := by simp [empty, size]
  numbered := by simp [empty]

theorem Extends.refl (s : Slots) : s.Extends s := ⟨id, Nat.le_refl _⟩

theorem Extends.trans {s t u : Slots} (h₁ : s.Extends t) (h₂ : t.Extends u) : s.Extends u :=
  ⟨fun h => h₂.get? (h₁.get? h), Nat.le_trans h₁.size_le h₂.size_le⟩

theorem Extends.hidden {s t : Slots} (h : s.Extends t) {slot : Slot} (hs : s.Hidden slot) :
    t.Hidden slot := by
  obtain ⟨key, hd, hk⟩ := hs
  exact ⟨key, hd, h.get? hk⟩

/-- A slot with a name is not one without. -/
theorem Valid.not_hidden {s : Slots} (hs : s.Valid) {key : SlotKey} {slot : Slot}
    (hk : s.get? key = some slot) (hd : key.depth ≠ hiddenDepth) : ¬ s.Hidden slot := by
  rintro ⟨key', hd', hk'⟩
  rw [hs.key_unique hk hk'] at hd
  exact hd hd'

/-! ## Handing out slots -/

/-- What it means that a slot was handed out for a key. -/
structure Granted (s t : Slots) (key : SlotKey) (slot : Slot) : Prop where
  valid : t.Valid
  extend : s.Extends t
  get? : t.get? key = some slot

/-- A key that has no slot yet gets the next one, if there is one left. Nothing is dropped from the
table, as the key is new to it. -/
theorem allocate_eq_some {s : Slots} {key : SlotKey} {g : Grant} (hkey : s.get? key = none) :
    s.allocate key = some g ↔ (s.size < s.limit ∧ s.size < addressable) ∧
      g = ⟨s.size, { s with entries := (key, s.size) :: s.entries }, some key⟩ := by
  have hfilter : s.entries.filter (·.1 ≠ key) = s.entries := by
    refine List.filter_eq_self.mpr fun e he => ?_
    have hne := bne_iff_ne.mp (List.lookup_eq_none_iff.mp hkey e he)
    exact decide_eq_true (Ne.symm hne)
  rw [allocate, hfilter]
  by_cases hroom : s.size < s.limit ∧ s.size < addressable
  · rw [if_pos hroom, Option.some.injEq, eq_comm]
    exact (and_iff_right hroom).symm
  · rw [if_neg hroom]
    simp only [reduceCtorEq, hroom, false_and]

theorem allocate_eq_none {s : Slots} {key : SlotKey} :
    s.allocate key = none ↔ ¬ (s.size < s.limit ∧ s.size < addressable) := by
  rw [allocate]
  split
  case isTrue hroom => exact iff_of_false nofun (not_not_intro hroom)
  case isFalse hfull => exact iff_of_true rfl hfull

/-- The next slot goes to a key that has none. A key without a name of its own has to bring the next
number. -/
theorem Valid.allocate {s : Slots} (hs : s.Valid) {hidden : Nat} (hh : s.hidden ≤ hidden)
    {key : SlotKey} {g : Grant} (hkey : s.get? key = none)
    (hnum : key.depth = hiddenDepth → ∃ label n, n ≤ hidden ∧ key.name = label ++ "#" ++ n.repr)
    (h : ({ s with hidden } : Slots).allocate key = some g) :
    Granted s g.slots key g.slot ∧ g.slot = s.size := by
  obtain ⟨-, rfl⟩ := (allocate_eq_some (by exact hkey)).mp h
  have hvalid : ({ s with entries := (key, s.size) :: s.entries, hidden } : Slots).Valid := by
    refine ⟨?_, ?_, ?_⟩
    · refine List.nodup_cons.mpr ⟨fun hmem => ?_, hs.keys_nodup⟩
      obtain ⟨e, he, heq⟩ := List.mem_map.mp hmem
      have := List.lookup_eq_none_iff.mp hkey e he
      simp [heq] at this
    · change s.size :: s.entries.map (·.2) = (List.range (s.entries.length + 1)).reverse
      rw [hs.slots_eq, List.range_succ, List.reverse_append]
      rfl
    · intro e he hd
      rcases List.mem_cons.mp he with rfl | he
      · exact hnum hd
      · obtain ⟨label, n, hn, hname⟩ := hs.numbered e he hd
        exact ⟨label, n, Nat.le_trans hn hh, hname⟩
  refine ⟨⟨hvalid, ⟨fun {k i} hk => ?_, Nat.le_succ _⟩, get?_of_mem hvalid List.mem_cons_self⟩, rfl⟩
  exact get?_of_mem hvalid (List.mem_cons_of_mem _ (mem_of_get? hk))

/-- Asking for the slot of a name gives the slot of that name. -/
theorem Valid.intern {s : Slots} (hs : s.Valid) {name : String} {depth : Nat} {g : Grant}
    (hd : depth ≠ hiddenDepth) (h : s.intern name depth = some g) :
    Granted s g.slots ⟨name, depth⟩ g.slot := by
  unfold Slots.intern at h
  split at h
  case h_1 slot hslot =>
    obtain rfl := Option.some.inj h
    exact ⟨hs, Extends.refl s, hslot⟩
  case h_2 hnone => exact (hs.allocate (Nat.le_refl _) hnone (fun h => absurd h hd) h).1

/-- The number at the end of a key without a name of its own can be read off. -/
theorem number_of_label (label : String) (n : Nat) :
    (label ++ "#" ++ n.repr).toList.reverse.takeWhile (· ≠ '#') = (Nat.toDigits 10 n).reverse := by
  have hdigits : ∀ c ∈ (Nat.toDigits 10 n).reverse, (decide (c ≠ '#')) = true := by
    intro c hc
    have hdigit := Nat.isDigit_of_mem_toDigits (by decide) (by decide) (List.mem_reverse.mp hc)
    refine decide_eq_true fun heq => ?_
    rw [heq] at hdigit
    exact absurd hdigit (by decide)
  rw [String.toList_append, String.toList_append, Nat.toList_repr, List.reverse_append,
    List.takeWhile_append_of_pos hdigits, List.reverse_append]
  change _ ++ List.takeWhile _ ('#' :: label.toList.reverse) = _
  rw [List.takeWhile_cons_of_neg (by decide), List.append_nil]

theorem label_inj {a b : String} {n m : Nat} (h : a ++ "#" ++ n.repr = b ++ "#" ++ m.repr) :
    n = m := by
  have hdigits := number_of_label a n
  rw [h, number_of_label, List.reverse_inj] at hdigits
  rw [← Nat.ofDigitChars_ten_toDigits (n := n), ← hdigits, Nat.ofDigitChars_ten_toDigits]

/-- The next key without a name of its own has no slot yet: a key with this number would be among
those asked for before, which have smaller numbers. -/
theorem Valid.get?_next {s : Slots} (hs : s.Valid) (label : String) :
    s.get? ⟨label ++ "#" ++ (s.hidden + 1).repr, hiddenDepth⟩ = none := by
  rw [Option.eq_none_iff_forall_ne_some]
  intro slot hslot
  obtain ⟨label', n, hn, hname⟩ := hs.numbered _ (mem_of_get? hslot) rfl
  have := label_inj hname
  omega

/-- Asking for a slot without a name gives the next one. -/
theorem Valid.fresh {s : Slots} (hs : s.Valid) {label : String} {g : Grant}
    (h : s.fresh label = some g) :
    g.slots.Valid ∧ s.Extends g.slots ∧ g.slots.Hidden g.slot ∧ g.slot = s.size := by
  obtain ⟨hgranted, hslot⟩ := hs.allocate (Nat.le_succ _) (hs.get?_next label)
    (fun _ => ⟨label, s.hidden + 1, Nat.le_refl _, rfl⟩) h
  exact ⟨hgranted.valid, hgranted.extend, ⟨_, rfl, hgranted.get?⟩, hslot⟩

end Slots

end RuleScript
