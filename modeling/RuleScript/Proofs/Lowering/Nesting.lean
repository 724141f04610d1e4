import Mathlib.Algebra.Order.BigOperators.Group.List
import Mathlib.Algebra.Order.Ring.Nat
import RuleScript.Proofs.Lowering.Inversion

/-!
# How deep scopes go

The depth of a scope is a machine word, and the largest one is kept for slots without a name. No
program is nested that deeply, and `Program.nesting` says what that means: each function is inlined
at most once at a time, so the open scopes are never more than those of all declarations together.

## Main definitions

* `Stmt.nesting`, `Program.nesting`: how many scopes are open at most
* `Env.callNesting`: how many scopes the calls at a place may open

## Main results

* `Declarations.nesting_add_callNesting_le`: entering a call leaves less for the calls inside it
* `Program.nesting_add_callNesting_le`: the scopes of an event and of all calls in it
-/

namespace RuleScript

mutual

/-- How many scopes a statement opens inside each other, without those of the calls in it. -/
def Stmt.nesting : Stmt → Nat
  | .block _ body => nestingBody body + 1
  | .branch _ _ body none => nestingBody body + 1
  | .branch _ _ body (some otherwise) => max (nestingBody body) (nestingBody otherwise) + 1
  | .loop _ _ body => nestingBody body + 1
  | .count _ _ _ _ body => nestingBody body + 2
  | .declare .. | .assign .. | .assignField .. | .ret .. | .stop _ | .next _ | .call .. => 0

/-- How many scopes the statements of a body open inside each other. -/
def Stmt.nestingBody : List Stmt → Nat
  | [] => 0
  | s :: body => max s.nesting (nestingBody body)

end

/-- How many scopes a function opens inside each other, its own included. -/
def FunctionDecl.nesting (decl : FunctionDecl) : Nat := Stmt.nestingBody decl.body + 1

/-- How many scopes calls can open inside each other when these functions are not called again. -/
def Declarations.callNesting (inlining : List String) : List (String × FunctionDecl) → Nat
  | [] => 0
  | (_, f) :: fs => (if f.name ∈ inlining then 0 else f.nesting) + callNesting inlining fs

/-- How many scopes a declaration opens inside each other, its own included. -/
def Item.nesting : Item → Nat
  | .function f => f.nesting
  | .event e => Stmt.nestingBody e.body + 1
  | .typeAlias _ => 0

/-- The scopes of all declarations of a program together. Lowering never has more of them open. -/
def Program.nesting (program : Program) : Nat := (program.items.map Item.nesting).sum

/-- How many scopes calls can open inside each other from here. -/
def Env.callNesting (env : Env) : Nat :=
  Declarations.callNesting env.inlining env.declarations.functions.entries

namespace Declarations

/-- Entering a call leaves less for the calls inside it. -/
theorem nesting_add_callNesting_le {inlining : List String} {name : String} {decl : FunctionDecl}
    {fs : List (String × FunctionDecl)} (hmem : (name, decl) ∈ fs) (hnew : decl.name ∉ inlining) :
    decl.nesting + callNesting (decl.name :: inlining) fs ≤ callNesting inlining fs := by
  have hle : ∀ fs, callNesting (decl.name :: inlining) fs ≤ callNesting inlining fs := by
    intro fs
    induction fs with
    | nil => exact Nat.le_refl _
    | cons f fs ih =>
      simp only [callNesting, List.mem_cons]
      split <;> split <;> simp_all
      omega
  induction fs with
  | nil => cases hmem
  | cons f fs ih =>
    simp only [callNesting, List.mem_cons]
    rcases List.mem_cons.mp hmem with rfl | hmem
    · have := hle fs
      simp only [true_or, if_true, if_neg hnew]
      omega
    · have := ih hmem
      by_cases hname : f.2.name = decl.name
      · simp only [hname, true_or, if_true, if_neg hnew]
        omega
      · simp only [hname, false_or]
        split <;> omega

theorem callNesting_filter_le (inlining : List String) (p : String × FunctionDecl → Bool)
    (fs : List (String × FunctionDecl)) :
    callNesting inlining (fs.filter p) ≤ callNesting inlining fs := by
  induction fs with
  | nil => exact Nat.le_refl _
  | cons f fs ih =>
    rw [List.filter_cons]
    split
    · simpa only [callNesting] using Nat.add_le_add_left ih _
    · simp only [callNesting]
      omega

end Declarations

/-- The scopes that calls of a declaration open inside each other. -/
def Item.callNesting : Item → Nat
  | .function f => f.nesting
  | .event _ | .typeAlias _ => 0

namespace Declarations

theorem callNesting_add_le {d d' : Declarations} {item : Item} (h : d.add item = .ok d') :
    callNesting [] d'.functions.entries ≤
      item.callNesting + callNesting [] d.functions.entries := by
  cases item with
  | function f =>
    simp only [add] at h
    split at h
    · cases h
    · cases h
      have := callNesting_filter_le [] (·.1 ≠ f.name) d.functions.entries
      simp only [Table.insert, callNesting, List.not_mem_nil, if_false, Item.callNesting]
      exact Nat.add_le_add_left this _
  | event e =>
    cases h
    exact Nat.le_add_left _ _
  | typeAlias a =>
    simp only [add] at h
    split at h
    · cases h
    · cases h
      exact Nat.le_add_left _ _

theorem callNesting_foldlM_le {items : List Item} {d d' : Declarations}
    (h : items.foldlM add d = .ok d') : callNesting [] d'.functions.entries ≤
      (items.map Item.callNesting).sum + callNesting [] d.functions.entries := by
  induction items generalizing d with
  | nil =>
    cases h
    exact Nat.le_add_left _ _
  | cons item items ih =>
    rw [List.foldlM_cons, Except.bind_eq_ok] at h
    obtain ⟨d₁, hadd, h⟩ := h
    have hitem := callNesting_add_le hadd
    have hitems := ih h
    rw [List.map_cons, List.sum_cons]
    omega

end Declarations

theorem Item.callNesting_le (item : Item) : item.callNesting ≤ item.nesting := by
  cases item with
  | function f => exact Nat.le_refl _
  | event e => exact Nat.zero_le _
  | typeAlias a => exact Nat.zero_le _

/-- An event and all calls together open no more scopes than the program has. -/
theorem Program.nesting_add_callNesting_le {program : Program} {d : Declarations}
    {event : EventDecl} (h : Declarations.collect program = .ok d)
    (hevent : event ∈ program.events) : Stmt.nestingBody event.body + 1 +
      Declarations.callNesting [] d.functions.entries ≤ program.nesting := by
  have hcalls := Declarations.callNesting_foldlM_le h
  -- The event counts once with its own scopes; everything else counts at most as its calls.
  suffices hsum : ∀ items : List Item, Item.event event ∈ items →
      Stmt.nestingBody event.body + 1 + (items.map Item.callNesting).sum ≤
        (items.map Item.nesting).sum by
    obtain ⟨item, hitem, hsome⟩ := List.mem_filterMap.mp hevent
    cases item with
    | event e =>
      cases hsome
      have := hsum _ hitem
      rw [Program.nesting]
      simp only [Declarations.callNesting, Table.empty] at hcalls
      omega
    | function f => cases hsome
    | typeAlias a => cases hsome
  intro items hmem
  induction items with
  | nil => cases hmem
  | cons item items ih =>
    rw [List.map_cons, List.map_cons, List.sum_cons, List.sum_cons]
    rcases List.mem_cons.mp hmem with rfl | hmem
    · have := List.sum_le_sum fun item (_ : item ∈ items) => item.callNesting_le
      simp only [Item.callNesting, Item.nesting]
      omega
    · have := ih hmem
      have hitem := item.callNesting_le
      omega

/-- Where a program is not nested too deeply, there is room for the scopes of each event. -/
theorem Program.events_room {program : Program} {d : Declarations}
    (h : Declarations.collect program = .ok d) (hnesting : program.nesting < Slots.hiddenDepth) :
    ∀ event ∈ program.events, Stmt.nestingBody event.body + 1 +
      Declarations.callNesting [] d.functions.entries < Slots.hiddenDepth :=
  fun _ hevent => Nat.lt_of_le_of_lt (nesting_add_callNesting_le h hevent) hnesting

end RuleScript
