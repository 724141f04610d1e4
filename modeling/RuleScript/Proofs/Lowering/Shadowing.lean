import RuleScript.Proofs.Lowering.Scopes

/-!
# What closing a scope gives back

Between opening a scope and closing it, more scopes are opened and closed, names are declared and
looked up, and the innermost scope may become one of another kind. None of it reaches the scopes
that were open before: closing the scope gives back what was shadowed by it. In between, all names
and loops behind the nearest function are out of sight.

## Main definitions

* `Scopes.Op`, `Scopes.run`: what is done to scopes, one step after the other
* `Scopes.height`: how many scopes are left open above the first one, unless it gets closed

## Main results

* `Scopes.Op.apply_inside`: a step that does not close the first scope changes nothing behind it
* `Scopes.run_shadowing`: what is seen while a scope is open, and after it was closed
-/

namespace RuleScript

/-- The action before a new round of the loop that the scope belongs to, if it belongs to one. -/
def Scope.round? (scope : Scope) : Option (Option Action) :=
  match scope.kind with
  | .loop step => some step
  | _ => none

namespace Scopes

/-- What can be done to scopes. -/
inductive Op
  | push (kind : ScopeKind)
  | pop
  | declare (name : String) (binding : Binding)
  | declareType (name : String) (ty : Ty)
  | setKind (kind : ScopeKind)
  /-- Looks something up. -/
  | look

/-- The scopes after a step. -/
def Op.apply (s : Scopes) : Op → Scopes
  | push kind => s.push kind
  | pop => s.pop
  | declare name binding => s.declare name binding
  | declareType name ty => s.declareType name ty
  | setKind kind => s.setKind kind
  | look => s

/-- The scopes after some steps. -/
def run (s : Scopes) (ops : List Op) : Scopes := ops.foldl Op.apply s

/-- How many scopes are open above the first one after a step, if there were `n`; none if the first
one is closed. -/
def Op.height (n : Nat) : Op → Option Nat
  | push _ => some (n + 1)
  | pop => match n with
    | 0 => none
    | n + 1 => some n
  | declare _ _ | declareType _ _ | setKind _ | look => some n

/-- How many scopes are open above the first one after some steps, if there were `n`; none if the
first one is closed along the way. -/
def height (n : Nat) (ops : List Op) : Option Nat := ops.foldlM Op.height n

variable {s : Scopes} {inside outer above below : List Scope} {f : Scope} {n m : Nat}

/-! ## Behind the first scope -/

/-- Changing the innermost scope changes nothing behind it. -/
theorem modifyCurrent_inside (change : Scope → Scope) (hinside : inside.length = n + 1) :
    ∃ inside', inside'.length = n + 1 ∧
      modifyCurrent ⟨inside ++ outer⟩ change = ⟨inside' ++ outer⟩ := by
  cases inside with
  | nil => cases hinside
  | cons scope inside => exact ⟨change scope :: inside, hinside, rfl⟩

/-- A step that does not close the first scope changes nothing behind it. -/
theorem Op.apply_inside {op : Op} (h : op.height n = some m) (hinside : inside.length = n + 1) :
    ∃ inside', inside'.length = m + 1 ∧ op.apply ⟨inside ++ outer⟩ = ⟨inside' ++ outer⟩ := by
  cases op with
  | push kind =>
    cases h
    exact ⟨⟨kind, .empty, .empty⟩ :: inside, congrArg (· + 1) hinside, rfl⟩
  | pop =>
    cases n with
    | zero => cases h
    | succ n =>
      cases h
      cases inside with
      | nil => cases hinside
      | cons scope inside => exact ⟨inside, Nat.succ.inj hinside, rfl⟩
  | declare name binding =>
    cases h
    exact modifyCurrent_inside _ hinside
  | declareType name ty =>
    cases h
    exact modifyCurrent_inside _ hinside
  | setKind kind =>
    cases h
    exact modifyCurrent_inside _ hinside
  | look =>
    cases h
    exact ⟨inside, hinside, rfl⟩

/-- Steps that do not close the first scope change nothing behind it. -/
theorem run_inside {ops : List Op} (outer : List Scope) (h : height n ops = some m)
    (hinside : inside.length = n + 1) :
    ∃ inside', inside'.length = m + 1 ∧ run ⟨inside ++ outer⟩ ops = ⟨inside' ++ outer⟩ := by
  induction ops generalizing n inside with
  | nil =>
    cases h
    exact ⟨inside, hinside, rfl⟩
  | cons op ops ih =>
    rw [height, List.foldlM_cons] at h
    obtain ⟨k, hop, hops⟩ := Option.bind_eq_some_iff.mp h
    obtain ⟨inside₁, hinside₁, happly⟩ := op.apply_inside hop hinside
    rw [run, List.foldl_cons, happly]
    exact ih hops hinside₁

/-- A scope is opened in front of the others, and so are the ones inside it. -/
theorem run_opened {ops : List Op} (s : Scopes) (kind : ScopeKind) (h : height 0 ops = some m) :
    ∃ inside, inside.length = m + 1 ∧ s.run (.push kind :: ops) = ⟨inside ++ s.open_⟩ := by
  have hfirst : [(⟨kind, .empty, .empty⟩ : Scope)].length = 0 + 1 := rfl
  exact run_inside s.open_ h hfirst

theorem run_append {before after : List Op} : s.run (before ++ after) = (s.run before).run after :=
  List.foldl_append

theorem height_append {before after : List Op} (h : height n (before ++ after) = some m) :
    ∃ k, height n before = some k ∧ height k after = some m := by
  rw [height, List.foldlM_append] at h
  exact Option.bind_eq_some_iff.mp h

/-! ## This side of the nearest function -/

/-- The nearest function among some scopes. -/
theorem exists_nearest (h : ∃ scope ∈ inside, scope.kind.isFunction = true) :
    ∃ above f below, inside = above ++ f :: below ∧ f.kind.isFunction = true ∧
      ∀ scope ∈ above, scope.kind.isFunction = false := by
  obtain ⟨f, hfind⟩ := Option.isSome_iff_exists.mp (List.find?_isSome.mpr h)
  obtain ⟨hf, above, below, hinside, habove⟩ := List.find?_eq_some_iff_append.mp hfind
  exact ⟨above, f, below, hinside, hf, fun scope hscope => by simpa using habove scope hscope⟩

theorem upToFunction_append (hf : f.kind.isFunction = true)
    (habove : ∀ scope ∈ above, scope.kind.isFunction = false) :
    upToFunction (above ++ f :: below) = above ++ [f] := by
  induction above with
  | nil => rw [List.nil_append, upToFunction, if_pos hf, List.nil_append]
  | cons scope above ih =>
    have hscope := habove scope List.mem_cons_self
    have hrest := ih fun other hother => habove other (List.mem_cons_of_mem _ hother)
    rw [List.cons_append, upToFunction, hscope, hrest]
    rfl

/-- Only the loops on this side of a function can be left. -/
theorem loopAmong_append (hf : f.kind.isFunction = true)
    (habove : ∀ scope ∈ above, scope.kind.isFunction = false) :
    loopAmong (above ++ f :: below) = above.findSome? Scope.round? := by
  induction above with
  | nil =>
    rw [List.nil_append, loopAmong]
    cases hkind : f.kind with
    | function => rfl
    | block | loop => rw [hkind] at hf; cases hf
  | cons scope above ih =>
    have hscope := habove scope List.mem_cons_self
    have hrest := ih fun other hother => habove other (List.mem_cons_of_mem _ hother)
    rw [List.cons_append, loopAmong, List.findSome?_cons, Scope.round?]
    cases hkind : scope.kind with
    | function => rw [hkind] at hscope; cases hscope
    | block => exact hrest
    | loop step => rfl

/-! ## While a scope is open, and afterwards -/

/-- **What is seen while a scope is open, and after it was closed.** Whatever is done in between,
closing the scope gives back the scopes that were there before it was opened. Until then these stay
behind those that are open inside. Once one of the latter belongs to a function, names stand for
what they are declared as nearest on this side of it, and only loops on this side can be left. -/
theorem run_shadowing (s : Scopes) (kind : ScopeKind) (ops : List Op)
    (h : height 0 ops = some 0) :
    s.run (.push kind :: ops ++ [.pop]) = s ∧
    ∀ before after, ops = before ++ after → ∃ inside, inside ≠ [] ∧
      (s.run (.push kind :: before)).open_ = inside ++ s.open_ ∧
      ((∃ scope ∈ inside, scope.kind.isFunction = true) →
        ∃ above f below, inside = above ++ f :: below ∧ f.kind.isFunction = true ∧
          (∀ scope ∈ above, scope.kind.isFunction = false) ∧
          (∀ name, (s.run (.push kind :: before)).binding? name =
            (above ++ [f]).findSome? (·.bindings.get? name)) ∧
          (∀ name, (s.run (.push kind :: before)).type? name =
            (above ++ [f]).findSome? (·.types.get? name)) ∧
          (s.run (.push kind :: before)).enclosingLoop? = above.findSome? Scope.round?) := by
  constructor
  · obtain ⟨inside, hinside, hopen⟩ := run_opened s kind h
    obtain ⟨scope, rfl⟩ := List.length_eq_one_iff.mp hinside
    rw [run_append, hopen]
    rfl
  · rintro before after rfl
    obtain ⟨k, hbefore, -⟩ := height_append h
    obtain ⟨inside, hinside, hopen⟩ := run_opened s kind hbefore
    refine ⟨inside, List.ne_nil_of_length_eq_add_one hinside, congrArg open_ hopen, fun hfun => ?_⟩
    obtain ⟨above, f, below, rfl, hf, habove⟩ := exists_nearest hfun
    rw [List.append_assoc, List.cons_append] at hopen
    refine ⟨above, f, below, rfl, hf, habove, fun name => ?_, fun name => ?_, ?_⟩
    · rw [hopen, binding?, visible, upToFunction_append hf habove]
    · rw [hopen, type?, visible, upToFunction_append hf habove]
    · rw [hopen, enclosingLoop?, loopAmong_append hf habove]

/-- A variable is declared, and a function with another one of that name is called, in which a block
turns out to be a loop. -/
def shadowedCall : List Op :=
  [.declare "x" ⟨.any, true, .slot 0⟩, .push (.function "f" none),
    .declare "x" ⟨.any, true, .slot 1⟩, .look, .push .block, .setKind (.loop none), .pop, .pop]

theorem run_shadowing_shadowedCall :
    height 0 shadowedCall = some 0 ∧
    empty.run (.push .block :: shadowedCall ++ [.pop]) = empty ∧
    ∃ above f below, (empty.run (.push .block :: shadowedCall.take 6)).open_ = above ++ f :: below ∧
      f.kind.isFunction = true ∧
      (empty.run (.push .block :: shadowedCall.take 6)).binding? "x" =
        (above ++ [f]).findSome? (·.bindings.get? "x") := by
  have hheight : height 0 shadowedCall = some 0 := rfl
  obtain ⟨hafter, hinside⟩ := run_shadowing empty .block shadowedCall hheight
  obtain ⟨inside, -, hopen, hfun⟩ := hinside (shadowedCall.take 6) [.pop, .pop] rfl
  have hall : (empty.run (.push .block :: shadowedCall.take 6)).open_ = inside :=
    hopen.trans (List.append_nil inside)
  have hcall : ∃ scope ∈ inside, scope.kind.isFunction = true := by
    rw [← hall]
    exact ⟨_, List.mem_cons_of_mem _ List.mem_cons_self, rfl⟩
  obtain ⟨above, f, below, hsplit, hf, -, hbinding, -⟩ := hfun hcall
  exact ⟨hheight, hafter, above, f, below, hall.trans hsplit, hf, hbinding "x"⟩

end Scopes

end RuleScript
