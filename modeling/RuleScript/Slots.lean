import RuleScript.Rule.Basic

/-!
# Handing out slots

A variable gets the slot of its name and the depth of its scope, so that two variables share a slot
only if they have both in common. Return values and saved conditions have no name of their own; each
gets a slot that it shares with nothing, under a key at a depth that no scope has.

## Main definitions

* `Slots.intern`: the slot of a name at a depth
* `Slots.fresh`: a slot of its own
-/

namespace RuleScript

/-- What a slot was handed out for. -/
structure SlotKey where
  name : String
  depth : Nat
deriving DecidableEq, Repr

/-- The slots handed out so far, the latest first. -/
structure Slots where
  entries : List (SlotKey × Slot)
  /-- How many slots were asked for that have no name of their own. -/
  hidden : Nat
  /-- How many slots there are. -/
  limit : Nat

/-- A slot, the slots after handing it out, and the key if it is a new one. -/
structure Grant where
  slot : Slot
  slots : Slots
  new? : Option SlotKey

namespace Slots

/-- All slots are still to be handed out. -/
def empty (limit : Nat) : Slots := ⟨[], 0, limit⟩

/-- How many slots were handed out. -/
def size (s : Slots) : Nat := s.entries.length

/-- The slot of a key. -/
def get? (s : Slots) (key : SlotKey) : Option Slot := s.entries.lookup key

/-- The number of slots that have a number of 32 bits. -/
def addressable : Nat := 0x100000000

/-- The depth in the keys of slots without a name. No scope is that deep. -/
def hiddenDepth : Nat := 0xffffffffffffffff

/-- Hands out the next slot; there is none when the limit is reached. -/
def allocate (s : Slots) (key : SlotKey) : Option Grant :=
  if s.size < s.limit ∧ s.size < addressable then
    -- Slots are numbered in the order in which they are handed out.
    let entries := (key, s.size) :: s.entries.filter (·.1 ≠ key)
    some ⟨s.size, { s with entries }, some key⟩
  else none

/-- The slot of a name at a depth, handed out when it is first asked for. -/
def intern (s : Slots) (name : String) (depth : Nat) : Option Grant :=
  match s.get? ⟨name, depth⟩ with
  | some slot => some ⟨slot, s, none⟩
  | none => s.allocate ⟨name, depth⟩

/-- A slot that no name has. -/
def fresh (s : Slots) (label : String) : Option Grant :=
  let hidden := s.hidden + 1
  { s with hidden }.allocate ⟨label ++ "#" ++ hidden.repr, hiddenDepth⟩

end Slots

end RuleScript
