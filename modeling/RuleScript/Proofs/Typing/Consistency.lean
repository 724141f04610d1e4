import RuleScript.Proofs.Meaning.Types
import RuleScript.Proofs.NormalForm

/-!
# Rules whose types make sense

Every value of a rule carries its type. The types are *consistent* if each value has a type that its
parts can have together, and each condition is a truth value. The target chooses between adding
numbers and joining texts by the type of a sum alone, so a rule is read rightly only if its types
are consistent.

Folding replaces a value by its result, and so by the type of the result. For consistent values that
is the type they had.

## Main definitions

* `Value.Agrees`, `Action.Agrees`: the type of a value agrees with those of its parts, and a
  condition is a truth value
* `Rule.Consistent`: this holds everywhere in a rule

## Main results

* `Value.fold_ty`: folding a consistent value keeps its type
* `Rule.foldAll_consistent`: folding keeps rules consistent
-/

namespace RuleScript

namespace BinOp

/-- An operation of this type has operands of these types. -/
def Agrees (ty left right : Ty) : BinOp → Prop
  | add => left = ty ∧ right = ty ∧ (ty = .number ∨ ty = .string)
  | sub | mul | div => ty = .number ∧ left = .number ∧ right = .number
  | and | or => ty = .boolean ∧ left = .boolean ∧ right = .boolean
  | eq | ne | lt | le | gt | ge => ty = .boolean

variable {op : BinOp} {ty left right : Ty}

theorem Agrees.typeOn (h : op.Agrees ty left right) : ty = op.typeOn left := by
  cases op with
  | add => exact h.1.symm
  | sub | mul | div | and | or => exact h.1
  | eq | ne | lt | le | gt | ge => exact h

theorem agrees_of_resultType {span : Span} (h : op.resultType left right span = .ok ty) :
    op.Agrees ty left right := by
  cases op with
  | add =>
    obtain ⟨rfl, rfl, hleft⟩ := sumType_ok h
    exact ⟨rfl, rfl, hleft⟩
  | sub | mul | div | and | or => exact uniformType_ok h
  | eq | ne | lt | le | gt | ge => exact comparisonType_ok h

end BinOp

namespace Value

/-- The type of the value agrees with the types of its parts. -/
def Agrees : Value → Prop
  | binary ty op lhs rhs => op.Agrees ty lhs.ty rhs.ty
  | not ty operand => ty = .boolean ∧ operand.ty = .boolean
  | index ty a place => a.ty = .array ty ∧ place.ty = .number
  | array ty _ => ∃ item, ty = .array item
  | number ty _ => ty = .number
  | string ty _ | template ty _ => ty = .string
  | boolean ty _ => ty = .boolean
  | call _ _ _ | constant _ _ | read _ _ => True

/-- The types of the value and of all values inside it agree. -/
abbrev Consistent (v : Value) : Prop := v.Throughout Agrees

end Value

/-! ## Folding values -/

namespace BinOp

variable {op : BinOp} {lhs rhs v : Value}

/-- The result of an operation on two literals has the type of the operation. -/
theorem onLiterals?_agrees (hl : lhs.Agrees) (h : op.onLiterals? lhs rhs = some v) :
    v.Agrees ∧ v.ty = op.typeOn lhs.ty := by
  obtain ⟨ty, a, x, rfl, rfl, hop⟩ | ⟨c, rfl, hop⟩ := onLiterals?_ok h
  · obtain rfl : ty = .number := hl
    refine ⟨rfl, ?_⟩
    cases op with
    | add | sub | mul | div => rfl
    | _ => simp [arithmetic] at hop
  · refine ⟨rfl, ?_⟩
    cases op with
    | add | sub | mul | div => simp [arithmetic] at hop
    | _ => rfl

end BinOp

namespace Value

variable {v : Value}

theorem fold_binary {ty : Ty} {op : BinOp} {lhs rhs : Value} (hl : lhs.Consistent)
    (hr : rhs.Consistent) (h : op.Agrees ty lhs.ty rhs.ty) :
    (foldBinary ty op lhs rhs).Consistent ∧ (foldBinary ty op lhs rhs).ty = ty := by
  unfold foldBinary
  cases hv : op.onLiterals? lhs rhs with
  | none =>
    rw [Option.getD_none, Consistent, throughout_iff]
    exact ⟨⟨h, by simp [hl, hr]⟩, rfl⟩
  | some v =>
    obtain ⟨hagrees, hty⟩ := BinOp.onLiterals?_agrees hl.self hv
    have hliteral := throughout_literal (BinOp.onLiterals?_isLiteral hv) hagrees
    exact ⟨hliteral, hty.trans h.typeOn.symm⟩

theorem fold_not (h : v.Consistent) (hty : v.ty = .boolean) :
    v.foldNot.Consistent ∧ v.foldNot.ty = .boolean := by
  unfold foldNot
  split
  · exact ⟨throughout_literal rfl rfl, rfl⟩
  · exact ⟨(throughout_iff _).mpr ⟨⟨rfl, hty⟩, by simpa [negate] using h⟩, rfl⟩

mutual

/-- Folding keeps a value consistent and keeps its type. -/
theorem fold_consistent : ∀ v : Value, v.Consistent → v.fold.Consistent ∧ v.fold.ty = v.ty
  | binary ty op lhs rhs, h => by
    obtain ⟨hagrees, hparts⟩ := (throughout_iff _).mp h
    obtain ⟨hl, hlty⟩ := fold_consistent lhs (hparts lhs (by simp))
    obtain ⟨hr, hrty⟩ := fold_consistent rhs (hparts rhs (by simp))
    rw [fold]
    refine fold_binary hl hr ?_
    rw [hlty, hrty]
    exact hagrees
  | not ty operand, h => by
    obtain ⟨⟨hty, hoperand⟩, hparts⟩ := (throughout_iff _).mp h
    obtain ⟨ho, hoty⟩ := fold_consistent operand (hparts operand (by simp))
    rw [fold, Value.ty, hty]
    exact fold_not ho (hoty.trans hoperand)
  | index ty a place, h => by
    obtain ⟨⟨harray, hplace⟩, hparts⟩ := (throughout_iff _).mp h
    obtain ⟨ha, haty⟩ := fold_consistent a (hparts a (by simp))
    obtain ⟨hp, hpty⟩ := fold_consistent place (hparts place (by simp))
    rw [fold, Consistent, throughout_iff]
    exact ⟨⟨⟨haty.trans harray, hpty.trans hplace⟩, by simp [ha, hp]⟩, rfl⟩
  | call ty name args, h => by
    rw [fold, Consistent, throughout_iff]
    exact ⟨⟨trivial, foldList_consistent args ((throughout_iff _).mp h).2⟩, rfl⟩
  | array ty items, h => by
    obtain ⟨hagrees, hparts⟩ := (throughout_iff _).mp h
    rw [fold, Consistent, throughout_iff]
    exact ⟨⟨hagrees, foldList_consistent items hparts⟩, rfl⟩
  | constant _ _, h | read _ _, h | number _ _, h | string _ _, h | template _ _, h
  | boolean _ _, h => by
    rw [fold]
    exact ⟨h, rfl⟩

theorem foldList_consistent :
    ∀ vs : List Value, (∀ v ∈ vs, v.Consistent) → ∀ v ∈ foldList vs, v.Consistent
  | [], _ => nofun
  | v :: vs, h => by
    rw [List.forall_mem_cons] at h
    rw [foldList, List.forall_mem_cons]
    exact ⟨(fold_consistent v h.1).1, foldList_consistent vs h.2⟩

end

/-- **Folding a consistent value keeps its type.** -/
theorem fold_ty (h : v.Consistent) : v.fold.ty = v.ty := (fold_consistent v h).2

end Value

/-! ## Folding actions -/

namespace Action

/-- The condition that the action tests. -/
@[simp] def condition? : Action → Option Value
  | branch condition _ | loop condition _ => some condition
  | block _ | declare _ _ _ | assign _ _ | assignField _ _ _ | call _ _ | stop | next | noop => none

/-- The condition of the action is a truth value. -/
def Agrees (a : Action) : Prop := ∀ c, a.condition? = some c → c.ty = .boolean

/-- The types in the body agree, at any depth. -/
abbrev Consistent (body : List Action) : Prop := Throughout Agrees Value.Agrees body

theorem agrees_of_condition? {a : Action} (h : a.condition? = none) : a.Agrees :=
  fun c hc => by rw [h] at hc; cases hc

theorem ofBody_consistent {body : List Action} (h : Consistent body) :
    Consistent [ofBody body] := by
  cases body with
  | nil => exact throughout_cons.mpr ⟨agrees_of_condition? rfl, nofun, h, throughout_nil⟩
  | cons a as => exact throughout_cons.mpr ⟨agrees_of_condition? rfl, nofun, h, throughout_nil⟩

theorem consUnlessNoop_consistent {a : Action} {as : List Action} (ha : Consistent [a])
    (has : Consistent as) : Consistent (consUnlessNoop a as) := by
  unfold consUnlessNoop
  split
  · exact has
  · rw [Consistent, ← List.singleton_append, throughout_append]
    exact ⟨ha, has⟩

mutual

theorem fold_consistent : ∀ a : Action, Consistent [a] → Consistent [a.fold]
  | block body, h => by
    rw [fold]
    exact ofBody_consistent (foldBody_consistent body (throughout_cons.mp h).2.2.1)
  | branch condition body, h => by
    obtain ⟨hagrees, hvalues, hbody, -⟩ := throughout_cons.mp h
    obtain ⟨hc, hcty⟩ := condition.fold_consistent (hvalues condition (by simp))
    rw [fold, Consistent, throughout_cons]
    refine ⟨?_, by simp [hc], foldBody_consistent body hbody, throughout_nil⟩
    rintro _ ⟨⟩
    exact hcty.trans (hagrees condition rfl)
  | loop condition body, h => by
    obtain ⟨hagrees, hvalues, hbody, -⟩ := throughout_cons.mp h
    obtain ⟨hc, hcty⟩ := condition.fold_consistent (hvalues condition (by simp))
    rw [fold, Consistent, throughout_cons]
    refine ⟨?_, by simp [hc], foldBody_consistent body hbody, throughout_nil⟩
    rintro _ ⟨⟩
    exact hcty.trans (hagrees condition rfl)
  | declare slot ty value, h | assign slot value, h => by
    obtain ⟨-, hvalues, -⟩ := throughout_cons.mp h
    have hvalue := (value.fold_consistent (hvalues value (by simp))).1
    rw [fold, Consistent, throughout_cons]
    exact ⟨agrees_of_condition? rfl, by simp [hvalue], throughout_nil, throughout_nil⟩
  | assignField object field value, h => by
    obtain ⟨-, hvalues, -⟩ := throughout_cons.mp h
    have hobject := (object.fold_consistent (hvalues object (by simp))).1
    have hvalue := (value.fold_consistent (hvalues value (by simp))).1
    rw [fold, Consistent, throughout_cons]
    exact ⟨agrees_of_condition? rfl, by simp [hobject, hvalue], throughout_nil, throughout_nil⟩
  | call name args, h => by
    obtain ⟨-, hvalues, -⟩ := throughout_cons.mp h
    rw [fold, Consistent, throughout_cons]
    exact ⟨agrees_of_condition? rfl, Value.foldList_consistent args hvalues, throughout_nil,
      throughout_nil⟩
  | stop, h | next, h | noop, h => h

/-- Folding keeps a body consistent. -/
theorem foldBody_consistent : ∀ body : List Action, Consistent body → Consistent (foldBody body)
  | [], h => h
  | a :: as, h => by
    rw [Consistent, ← List.singleton_append, throughout_append] at h
    rw [foldBody]
    exact consUnlessNoop_consistent (fold_consistent a h.1) (foldBody_consistent as h.2)

end

end Action

namespace Rule

/-- The types in the rule agree, at any depth. -/
def Consistent (r : Rule) : Prop := Action.Consistent r.body

/-- **Folding keeps rules consistent.** -/
theorem foldAll_consistent {rules : List Rule} (h : ∀ r ∈ rules, r.Consistent) :
    ∀ r ∈ foldAll rules, r.Consistent := by
  intro r hr
  obtain ⟨s, hs, rfl⟩ := List.mem_map.mp hr
  exact Action.foldBody_consistent s.body (h s hs)

end Rule

end RuleScript
