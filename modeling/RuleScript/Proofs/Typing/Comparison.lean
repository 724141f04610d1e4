import RuleScript.Proofs.Lowering.Scopes
import RuleScript.Proofs.Run.Target
import RuleScript.Proofs.Typing.Rules

/-!
# What types admit

A type admits data. The primitive types admit the same data for every target, the other native types
are left to the target, and a generic admits whatever it may stand for. No datum is a function, so a
function type admits nothing.

A comparison of types that succeeds is right about data: whatever the candidate admits, the
constraint admits as well. This needs that a generic admits all that its binding admits. A
comparison keeps the bindings it finds, so it is enough to look at those it leaves behind.

## Main definitions

* `Kinds`: what natives of the target and generics admit
* `Ty.admits`: whether a type admits a datum
* `Ty.Below`: all that a type admits, another one admits as well

## Main results

* `Solve.rules_below`: what is admitted follows the rules of comparison
* `Solve.compare_below`: a comparison that succeeds is right about data
* `Ty.fitsWith_below`: the same for values that have to fit
-/

namespace RuleScript

variable {Thing : Type}

/-! ## Data of a type -/

namespace Datum

/-- Whether the datum is a number. -/
def isNumber : Datum Thing → Bool
  | number _ => true
  | _ => false

/-- Whether the datum is a text. -/
def isText : Datum Thing → Bool
  | text _ => true
  | _ => false

/-- Whether the datum is a truth value. -/
def isTruth : Datum Thing → Bool
  | truth _ => true
  | _ => false

/-- The items of a list. -/
def items? : Datum Thing → Option (List (Datum Thing))
  | list items => some items
  | _ => none

end Datum

/-- What the native types of the target admit, and what generics admit. -/
structure Kinds (Thing : Type) where
  native : String → Datum Thing → Bool
  generic : String → Datum Thing → Bool

/-- Whether a native type admits a datum. The target has no say in the primitive types. -/
def Kinds.admits (kinds : Kinds Thing) (name : String) (d : Datum Thing) : Bool :=
  if name = "any" then true
  else if name = "number" then d.isNumber
  else if name = "string" then d.isText
  else if name = "boolean" then d.isTruth
  else kinds.native name d

namespace Ty

mutual

/-- Whether a type admits a datum. -/
def admits (kinds : Kinds Thing) : Ty → Datum Thing → Bool
  | native name, d => kinds.admits name d
  | array item, d => d.items?.any (·.all (item.admits kinds))
  | function _ _, _ => false
  | variadic inner, d => inner.admits kinds d
  | generic name _, d => kinds.generic name d
  | union members, d => someAdmits kinds members d

/-- Whether one of the types admits a datum. -/
def someAdmits (kinds : Kinds Thing) : List Ty → Datum Thing → Bool
  | [], _ => false
  | t :: ts, d => t.admits kinds d || someAdmits kinds ts d

end

variable (kinds : Kinds Thing)

@[simp] theorem admits_any (d : Datum Thing) : any.admits kinds d = true := by
  simp [any, admits, Kinds.admits]

@[simp] theorem admits_number (d : Datum Thing) : number.admits kinds d = d.isNumber := by
  simp [number, admits, Kinds.admits]

@[simp] theorem admits_string (d : Datum Thing) : string.admits kinds d = d.isText := by
  simp [string, admits, Kinds.admits]

@[simp] theorem admits_boolean (d : Datum Thing) : boolean.admits kinds d = d.isTruth := by
  simp [boolean, admits, Kinds.admits]

theorem admits_array {item : Ty} {d : Datum Thing} :
    (array item).admits kinds d = true ↔
      ∃ ds, d = .list ds ∧ ∀ x ∈ ds, item.admits kinds x = true := by
  cases d with
  | list ds => simp [admits, Datum.items?]
  | _ => simp [admits, Datum.items?]

theorem someAdmits_iff {members : List Ty} {d : Datum Thing} :
    someAdmits kinds members d = true ↔ ∃ t ∈ members, t.admits kinds d = true := by
  induction members with
  | nil => simp [someAdmits]
  | cons t ts ih => simp [someAdmits, ih]

theorem admits_union {members : List Ty} {d : Datum Thing} :
    (union members).admits kinds d = true ↔ ∃ t ∈ members, t.admits kinds d = true := by
  rw [admits, someAdmits_iff]

variable {kinds} {kinds' : Kinds Thing}

/-- All that a type admits for some kinds, another one admits for other kinds. -/
def Below (kinds kinds' : Kinds Thing) (t t' : Ty) : Prop :=
  ∀ d, t.admits kinds d = true → t'.admits kinds' d = true

theorem Below.array {t t' : Ty} (h : Below kinds kinds' t t') :
    Below kinds kinds' (array t) (array t') := by
  intro d hd
  obtain ⟨ds, rfl, hds⟩ := (admits_array kinds).mp hd
  exact (admits_array kinds').mpr ⟨ds, rfl, fun x hx => h x (hds x hx)⟩

theorem Below.member {t : Ty} {members : List Ty} (h : ∃ t' ∈ members, Below kinds kinds' t t') :
    Below kinds kinds' t (union members) := by
  intro d hd
  obtain ⟨t', ht', hbelow⟩ := h
  exact (admits_union kinds').mpr ⟨t', ht', hbelow d hd⟩

theorem Below.union {members : List Ty} {t' : Ty} (h : ∀ t ∈ members, Below kinds kinds' t t') :
    Below kinds kinds' (union members) t' := by
  intro d hd
  obtain ⟨t, ht, htd⟩ := (admits_union kinds).mp hd
  exact h t ht d htd

/-- A function type admits nothing. -/
theorem Below.function {params : List Ty} {ret : Option Ty} {t' : Ty} :
    Below kinds kinds' (function params ret) t' := by
  intro d hd
  rw [admits] at hd
  cases hd

end Ty

/-! ## Comparisons -/

namespace Bindings

/-- Each generic admits all that the type admits which it stands for. -/
def Admitted (kinds : Kinds Thing) (s : Bindings) : Prop :=
  ∀ name ty, s.get? name = some ty → ∀ d, ty.admits kinds d = true → kinds.generic name d = true

theorem Admitted.of_grows {kinds : Kinds Thing} {s t : Bindings} (ht : t.Admitted kinds)
    (h : s.Grows t) : s.Admitted kinds := fun name ty hty => ht name ty (h name ty hty)

end Bindings

namespace Solve

variable {kinds : Kinds Thing}

/-- A place for every alternative of a candidate is a place for all that it admits. -/
theorem below_union_of_alternatives {members : List Ty} {k : Ty}
    (h : ∀ a ∈ k.alternatives, ∃ c ∈ members, a.Below kinds kinds c) :
    k.Below kinds kinds (.union members) := by
  cases k with
  | union others => exact .union fun a ha => .member (h a ha)
  | _ => exact .member (h _ (List.mem_singleton_self _))

/-- **What is admitted follows the rules of comparison**, where each generic admits all that its
binding admits. -/
theorem rules_below {f : Bindings} (hf : f.Admitted kinds) :
    Rules f fun c k => k.Below kinds kinds c where
  any _ d _ := Ty.admits_any kinds d
  native _ _ hd := hd
  array h := h.array
  function _ _ := .function
  variadic h := h
  same _ _ _ _ hd := hd
  bound hname h d hd := hf _ _ hname d (h d hd)
  taken hname d hd := hf _ _ hname d hd
  union := below_union_of_alternatives

/-- **A comparison that succeeds is right about data.** -/
theorem compare_below {depth : Nat} {c k : Ty} {s s' : Bindings}
    (h : compare depth c k s = .ok true s') (hs' : s'.Admitted kinds) : k.Below kinds kinds c :=
  (compare_shows (rules_below hs') depth c k).holds h (.refl s')

end Solve

namespace Ty

variable {bindings bindings' : Bindings} {constraint candidate : Ty} {span : Span}

theorem fitsWith_below {kinds : Kinds Thing}
    (h : fitsWith bindings constraint candidate span = .ok (true, bindings'))
    (hadmitted : bindings'.Admitted kinds) : candidate.Below kinds kinds constraint :=
  Solve.compare_below (fitsWith_ok h) hadmitted

end Ty

end RuleScript
