import RuleScript.Proofs.Run.Rule
import RuleScript.Rule.Fold

/-!
# Folding keeps the meaning of rules

Folding replaces an operation on literals by its result and drops actions that do nothing. Neither
is visible when the rule runs: a folded value is the same computation as the value itself, and a
folded action is the same computation as the action. This holds of every rule, whether its types
make sense or not, because running a rule does not look at types.

The operations that folding carries out are those of `BinOp.apply` on literals. It leaves to the
target what `BinOp.apply` leaves to the target.

## Main results

* `Value.eval_fold`: a folded value is the same computation
* `Action.execBody_foldBody`: a folded body is the same computation
* `Rule.run_foldAll`: folding rules keeps their names, their triggers and their runs
-/

namespace RuleScript

variable {target : Target} (guard : Guard target) (cells : Cells target)

/-! ## Operations on literals -/

namespace BinOp

open Value (ofBool ofNumber)

/-- What folding makes of two numbers is what running the operation gives. -/
theorem eval_onNumbers? {op : BinOp} {a b : Float} {v : Value} (h : op.onNumbers? a b = some v) :
    v.eval guard cells = op.applyNumbers a b := by
  have finite {x : Float} (h : (if x.isFinite then some (ofNumber x) else none) = some v) :
      v.eval guard cells = op.settle a b x := by
    by_cases hx : x.isFinite
    · rw [if_pos hx] at h
      obtain rfl := Option.some.inj h
      rw [settle, if_pos hx]
      rfl
    · rw [if_neg hx] at h
      cases h
  cases op with
  | add | sub | mul => exact finite h
  | div =>
    by_cases hb : b == 0.0
    · rw [onNumbers?, if_pos hb] at h
      cases h
    · rw [onNumbers?, if_neg hb] at h
      rw [applyNumbers, if_neg hb]
      exact finite h
  | eq | ne | lt | le | gt | ge =>
    obtain rfl := Option.some.inj h
    rfl
  | and | or => cases h

/-- What folding makes of two truth values is what running the operation gives. -/
theorem eval_onBooleans? {op : BinOp} {a b : Bool} {v : Value} (h : op.onBooleans? a b = some v) :
    v.eval guard cells = op.apply (.truth a) (.truth b) := by
  cases op with
  | and | or | eq | ne =>
    obtain rfl := Option.some.inj h
    rfl
  | add | sub | mul | div | lt | le | gt | ge => cases h

/-- What folding makes of two texts is what running the operation gives. -/
theorem eval_onTexts? {op : BinOp} {a b : String} {v : Value} (h : op.onTexts? a b = some v) :
    v.eval guard cells = op.apply (.text a) (.text b) := by
  cases op with
  | eq | ne =>
    obtain rfl := Option.some.inj h
    rfl
  | add | sub | mul | div | lt | le | gt | ge | and | or => cases h

/-- What folding makes of two literals is what running the operation on them gives. -/
theorem eval_onLiterals? {op : BinOp} {lhs rhs v : Value} (h : op.onLiterals? lhs rhs = some v)
    (ty : Ty) : v.eval guard cells = (Value.binary ty op lhs rhs).eval guard cells := by
  unfold onLiterals? at h
  split at h
  · exact eval_onNumbers? guard cells h
  · exact eval_onBooleans? guard cells h
  · exact eval_onTexts? guard cells h
  · cases h

end BinOp

namespace Value

theorem eval_foldBinary (ty : Ty) (op : BinOp) (lhs rhs : Value) :
    (foldBinary ty op lhs rhs).eval guard cells = (binary ty op lhs rhs).eval guard cells := by
  unfold foldBinary
  cases h : op.onLiterals? lhs rhs with
  | none => rfl
  | some v => exact op.eval_onLiterals? guard cells h ty

/-- The type of a negation changes to that of truth values, which no run can tell. -/
theorem eval_foldNot (ty : Ty) (v : Value) :
    (foldNot v).eval guard cells = (not ty v).eval guard cells := by
  cases v <;> rfl

mutual

/-- **A folded value is the same computation.** -/
theorem eval_fold : ∀ v : Value, v.fold.eval guard cells = v.eval guard cells
  | binary ty op lhs rhs => by
    rw [fold, eval_foldBinary, eval, eval, eval_fold lhs, eval_fold rhs]
  | not ty operand => by rw [fold, eval_foldNot guard cells ty, eval, eval, eval_fold operand]
  | index ty a i => by rw [fold, eval, eval, eval_fold a, eval_fold i]
  | call ty name args => by rw [fold, eval, eval, evalList_foldList args]
  | array ty items => by rw [fold, eval, eval, evalList_foldList items]
  | constant _ _ | read _ _ | number _ _ | string _ _ | template _ _ | boolean _ _ => rfl

theorem evalList_foldList :
    ∀ vs : List Value, evalList guard cells (foldList vs) = evalList guard cells vs
  | [] => rfl
  | v :: vs => by rw [foldList, evalList, evalList, eval_fold v, evalList_foldList vs]

end

theorem truth_fold (v : Value) : v.fold.truth guard cells = v.truth guard cells := by
  rw [truth, truth, eval_fold]

end Value

/-! ## Actions that do nothing -/

namespace Action

variable (rounds : Nat)

theorem exec_ofBody (body : List Action) :
    (ofBody body).exec guard rounds = execBody guard rounds body := by
  cases body with
  | nil => rfl
  | cons a as =>
    change (block (a :: as)).exec guard rounds = _
    rw [exec]

/-- Leaving out an action that does nothing cannot be told from running it. -/
theorem execBody_consUnlessNoop (a : Action) (as : List Action) :
    execBody guard rounds (consUnlessNoop a as) = execBody guard rounds (a :: as) := by
  cases a <;> rfl

mutual

/-- A folded action is the same computation. -/
theorem exec_fold : ∀ a : Action, a.fold.exec guard rounds = a.exec guard rounds
  | block body => by rw [fold, exec_ofBody, exec, execBody_foldBody body]
  | branch condition body => by
    rw [fold, exec, exec, execBody_foldBody body]
    simp only [Value.truth_fold]
  | loop condition body => by
    rw [fold, exec, exec, execBody_foldBody body]
    simp only [Value.truth_fold]
  | declare slot ty value => by
    rw [fold, exec, exec, store, store]
    simp only [Value.eval_fold]
  | assign slot value => by
    rw [fold, exec, exec, store, store]
    simp only [Value.eval_fold]
  | assignField object field value => by
    rw [fold, exec, exec]
    simp only [Value.eval_fold]
  | call name args => by
    rw [fold, exec, exec]
    simp only [Value.evalList_foldList]
  | stop | next | noop => rfl

/-- **A folded body is the same computation.** -/
theorem execBody_foldBody :
    ∀ body : List Action, execBody guard rounds (foldBody body) = execBody guard rounds body
  | [] => rfl
  | a :: as => by
    rw [foldBody, execBody_consUnlessNoop, execBody, execBody, exec_fold a, execBody_foldBody as]

end

end Action

/-- **Folding keeps the meaning of rules.** For every target, guard and bound on the rounds of
loops, the folded rules have the names and triggers of the given ones, and run in the same way from
every array and every effects so far: they have the same effects, leave the same array behind and
end in the same way, also if they get stuck or run out of rounds. -/
theorem Rule.run_foldAll (guard : Guard target) (rounds : Nat) (rules : List Rule) :
    (Rule.foldAll rules).map (fun r => (r.name, r.trigger, r.run guard rounds)) =
      rules.map fun r => (r.name, r.trigger, r.run guard rounds) := by
  rw [Rule.foldAll, List.map_map]
  apply List.map_congr_left
  intro r _
  change (r.name, r.trigger, Action.execBody guard rounds (Action.foldBody r.body)) = _
  rw [Action.execBody_foldBody]
  rfl

end RuleScript
