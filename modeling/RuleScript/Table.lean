/-!
# Tables

A table maps names to values. It is a list of entries with at most one entry that counts per name:
a lookup takes the first, and an insertion drops the entry it replaces.
-/

namespace RuleScript

/-- A map from names to values. -/
structure Table (α : Type) where
  entries : List (String × α) := []
deriving Inhabited

namespace Table

variable {α : Type}

/-- The table without entries. -/
def empty : Table α := ⟨[]⟩

/-- The value of a name. -/
def get? (t : Table α) (name : String) : Option α := t.entries.lookup name

/-- Whether a name has a value. -/
def contains (t : Table α) (name : String) : Bool := (t.get? name).isSome

/-- Gives a name a value, in place of an earlier one. -/
def insert (t : Table α) (name : String) (a : α) : Table α :=
  ⟨(name, a) :: t.entries.filter (·.1 ≠ name)⟩

/-- The number of names that have a value. -/
def size (t : Table α) : Nat := t.entries.length

@[simp] theorem get?_empty (name : String) : (empty : Table α).get? name = none := rfl

@[simp] theorem get?_insert_self (t : Table α) (name : String) (a : α) :
    (t.insert name a).get? name = some a := by
  simp [get?, insert]

theorem lookup_filter_ne (l : List (String × α)) {name other : String} (h : other ≠ name) :
    (l.filter (·.1 ≠ name)).lookup other = l.lookup other := by
  induction l with
  | nil => rfl
  | cons e l ih =>
    by_cases he : e.1 = name
    · have : (other == e.1) = false := by simpa [he] using h
      rw [List.filter_cons_of_neg (by simpa using he), List.lookup_cons, this]
      exact ih
    · rw [List.filter_cons_of_pos (by simpa using he), List.lookup_cons, List.lookup_cons, ih]

theorem get?_insert_of_ne (t : Table α) {name other : String} (a : α) (h : other ≠ name) :
    (t.insert name a).get? other = t.get? other := by
  have : (other == name) = false := by simpa using h
  simp only [get?, insert, List.lookup_cons, this]
  exact lookup_filter_ne t.entries h

end Table

end RuleScript
