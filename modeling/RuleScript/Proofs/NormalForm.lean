import RuleScript.Proofs.Nodes
import RuleScript.Rule.Fold

/-!
# Folded rules are in normal form

Folding goes through a rule once, from the inside out. Still nothing is left to fold afterwards,
although a folded operand can make an operation fold and a dropped action can empty the block around
it. What nothing is left to fold in is a *normal form*, which says what must not occur, and folding
leaves exactly the normal forms as they are.

This holds of every rule, whether its types make sense or not.

## Main definitions

* `Value.Reducible`, `Action.Idle`: what folding carries out, and what it drops
* `Rule.Normal`: neither occurs in the rule, at any depth

## Main results

* `Value.fold_normal`, `Action.foldBody_normal`: what is folded is in normal form
* `Value.fold_eq_self`, `Action.foldBody_eq_self`: a normal form is folded already
* `Rule.foldAll_fixed_iff_normal`: folding has the normal forms as its fixed points, and gives one
-/

namespace RuleScript

/-! ## What folding carries out -/

namespace Value

/-- The value itself is one that folding carries out. -/
inductive Reducible : Value → Prop
  | notLiteral {ty ty' : Ty} {b : Bool} : Reducible (not ty (boolean ty' b))
  | notUntyped {ty : Ty} {operand : Value} (h : ty ≠ .boolean) : Reducible (not ty operand)
  | numbers {ty lty rty : Ty} {op : BinOp} {a b : Float} (h : (op.onNumbers? a b).isSome) :
    Reducible (binary ty op (number lty a) (number rty b))
  | booleans {ty lty rty : Ty} {op : BinOp} {a b : Bool}
    (h : op ∈ [BinOp.and, .or, .eq, .ne]) :
    Reducible (binary ty op (boolean lty a) (boolean rty b))
  | texts {ty lty rty : Ty} {op : BinOp} {a b : String} (h : op ∈ [BinOp.eq, .ne]) :
    Reducible (binary ty op (string lty a) (string rty b))

end Value

namespace BinOp

variable {op : BinOp} {lhs rhs v : Value}

theorem onBooleans?_isSome {a b : Bool} :
    (op.onBooleans? a b).isSome ↔ op ∈ [and, or, eq, ne] := by
  cases op <;> simp [onBooleans?]

theorem onTexts?_isSome {a b : String} : (op.onTexts? a b).isSome ↔ op ∈ [eq, ne] := by
  cases op <;> simp [onTexts?]

/-- The operations whose result is a number. -/
def arithmetic : List BinOp := [add, sub, mul, div]

theorem onNumbers?_ok {a b : Float} (h : op.onNumbers? a b = some v) :
    (∃ x, v = .ofNumber x ∧ op ∈ arithmetic) ∨ ∃ c, v = .ofBool c ∧ op ∉ arithmetic := by
  cases op with
  | add | sub | mul =>
    obtain ⟨-, hv⟩ := Option.ite_none_right_eq_some.mp h
    exact .inl ⟨_, (Option.some.inj hv).symm, by simp [arithmetic]⟩
  | div =>
    obtain ⟨-, hfinite⟩ := Option.ite_none_left_eq_some.mp h
    obtain ⟨-, hv⟩ := Option.ite_none_right_eq_some.mp hfinite
    exact .inl ⟨_, (Option.some.inj hv).symm, by simp [arithmetic]⟩
  | eq | ne | lt | le | gt | ge => exact .inr ⟨_, (Option.some.inj h).symm, by simp [arithmetic]⟩
  | and | or => cases h

/-- **The result of an operation on two literals** is a number, where the operands are numbers, or
a truth value. -/
theorem onLiterals?_ok (h : op.onLiterals? lhs rhs = some v) :
    (∃ ty a x, lhs = .number ty a ∧ v = .ofNumber x ∧ op ∈ arithmetic) ∨
      ∃ c, v = .ofBool c ∧ op ∉ arithmetic := by
  unfold onLiterals? at h
  split at h
  · obtain ⟨x, rfl, hop⟩ | hbool := onNumbers?_ok h
    · exact .inl ⟨_, _, x, rfl, rfl, hop⟩
    · exact .inr hbool
  · refine .inr ?_
    cases op with
    | and | or | eq | ne => exact ⟨_, (Option.some.inj h).symm, by simp [arithmetic]⟩
    | _ => cases h
  · refine .inr ?_
    cases op with
    | eq | ne => exact ⟨_, (Option.some.inj h).symm, by simp [arithmetic]⟩
    | _ => cases h
  · cases h

theorem onLiterals?_isLiteral (h : op.onLiterals? lhs rhs = some v) : v.isLiteral = true := by
  obtain ⟨_, _, x, -, rfl, -⟩ | ⟨c, rfl, -⟩ := onLiterals?_ok h
  · rfl
  · rfl

end BinOp

namespace Value

variable {v : Value}

/-- An operation is carried out on the pairs of literals that have a result. -/
theorem reducible_binary {ty : Ty} {op : BinOp} {lhs rhs : Value} :
    (binary ty op lhs rhs).Reducible ↔ (op.onLiterals? lhs rhs).isSome := by
  constructor
  · intro h
    cases h with
    | numbers h => exact h
    | booleans h => exact BinOp.onBooleans?_isSome.mpr h
    | texts h => exact BinOp.onTexts?_isSome.mpr h
  · intro h
    unfold BinOp.onLiterals? at h
    split at h
    · exact .numbers h
    · exact .booleans (BinOp.onBooleans?_isSome.mp h)
    · exact .texts (BinOp.onTexts?_isSome.mp h)
    · cases h

theorem not_reducible_binary {ty : Ty} {op : BinOp} {lhs rhs : Value} :
    ¬ (binary ty op lhs rhs).Reducible ↔ op.onLiterals? lhs rhs = none := by
  rw [reducible_binary, Bool.not_eq_true, Option.isSome_eq_false_iff, Option.isNone_iff_eq_none]

theorem reducible_not {ty : Ty} {operand : Value} :
    (not ty operand).Reducible ↔ ty ≠ .boolean ∨ ∃ ty' b, operand = boolean ty' b := by
  constructor
  · intro h
    cases h with
    | notLiteral => exact .inr ⟨_, _, rfl⟩
    | notUntyped h => exact .inl h
  · rintro (h | ⟨ty', b, rfl⟩)
    · exact .notUntyped h
    · exact .notLiteral

/-- Nothing in the value is left to carry out. -/
abbrev Normal (v : Value) : Prop := v.Throughout (¬ ·.Reducible)

theorem normal_of_isLiteral (h : v.isLiteral = true) : v.Normal := by
  refine throughout_literal h fun hreducible => ?_
  cases hreducible with
  | _ => cases h

theorem foldBinary_normal {ty : Ty} {op : BinOp} {lhs rhs : Value} (hl : lhs.Normal)
    (hr : rhs.Normal) : (foldBinary ty op lhs rhs).Normal := by
  unfold foldBinary
  cases h : op.onLiterals? lhs rhs with
  | some v => exact normal_of_isLiteral (BinOp.onLiterals?_isLiteral h)
  | none =>
    rw [Option.getD_none, Normal, throughout_iff]
    exact ⟨not_reducible_binary.mpr h, by simp [hl, hr]⟩

theorem foldNot_normal (h : v.Normal) : v.foldNot.Normal := by
  cases v with
  | boolean => exact normal_of_isLiteral rfl
  | _ =>
    rw [foldNot, negate, Normal, throughout_iff]
    · exact ⟨by simp [reducible_not], by simpa using h⟩
    · simp

mutual

/-- **A folded value is in normal form.** -/
theorem fold_normal : ∀ v : Value, v.fold.Normal
  | binary ty op lhs rhs => by
    rw [fold]
    exact foldBinary_normal (fold_normal lhs) (fold_normal rhs)
  | not ty operand => by
    rw [fold]
    exact foldNot_normal (fold_normal operand)
  | index ty a place => by
    rw [fold, Normal, throughout_iff]
    exact ⟨nofun, by simp [fold_normal a, fold_normal place]⟩
  | call ty name args => by
    rw [fold, Normal, throughout_iff]
    exact ⟨nofun, foldList_normal args⟩
  | array ty items => by
    rw [fold, Normal, throughout_iff]
    exact ⟨nofun, foldList_normal items⟩
  | constant _ _ | read _ _ | number _ _ | string _ _ | template _ _ | boolean _ _ => by
    rw [fold, Normal, throughout_iff]
    exact ⟨nofun, nofun⟩

theorem foldList_normal : ∀ vs : List Value, ∀ v ∈ foldList vs, v.Normal
  | [] => nofun
  | v :: vs => by
    rw [foldList, List.forall_mem_cons]
    exact ⟨fold_normal v, foldList_normal vs⟩

end

mutual

/-- **A value in normal form is folded already.** -/
theorem fold_eq_self : ∀ v : Value, v.Normal → v.fold = v
  | binary ty op lhs rhs, h => by
    obtain ⟨hnot, hparts⟩ := (throughout_iff _).mp h
    rw [fold, fold_eq_self lhs (hparts lhs (by simp)), fold_eq_self rhs (hparts rhs (by simp)),
      foldBinary, not_reducible_binary.mp hnot, Option.getD_none]
  | not ty operand, h => by
    obtain ⟨hnot, hparts⟩ := (throughout_iff _).mp h
    rw [reducible_not, not_or, Decidable.not_not] at hnot
    obtain ⟨rfl, hliteral⟩ := hnot
    rw [fold, fold_eq_self operand (hparts operand (by simp))]
    unfold foldNot
    split
    · exact absurd ⟨_, _, rfl⟩ hliteral
    · rfl
  | index ty a place, h => by
    obtain ⟨-, hparts⟩ := (throughout_iff _).mp h
    rw [fold, fold_eq_self a (hparts a (by simp)), fold_eq_self place (hparts place (by simp))]
  | call ty name args, h => by rw [fold, foldList_eq_self args ((throughout_iff _).mp h).2]
  | array ty items, h => by rw [fold, foldList_eq_self items ((throughout_iff _).mp h).2]
  | constant _ _, _ | read _ _, _ | number _ _, _ | string _ _, _ | template _ _, _
  | boolean _ _, _ => by rw [fold]

theorem foldList_eq_self : ∀ vs : List Value, (∀ v ∈ vs, v.Normal) → foldList vs = vs
  | [], _ => rfl
  | v :: vs, h => by
    rw [List.forall_mem_cons] at h
    rw [foldList, fold_eq_self v h.1, foldList_eq_self vs h.2]

end

end Value

/-! ## What folding drops -/

namespace Action

/-- The action does nothing. -/
def Idle (a : Action) : Prop := a = noop ∨ a = block []

/-- Nothing in the body is left to carry out or to drop. -/
abbrev Normal (body : List Action) : Prop := Throughout (¬ ·.Idle) (¬ ·.Reducible) body

theorem normal_cons {a : Action} {as : List Action} :
    Normal (a :: as) ↔ Normal [a] ∧ Normal as := by
  rw [← throughout_append, List.singleton_append]

/-- An action in normal form does something, so it stays. -/
theorem consUnlessNoop_eq_cons {a : Action} {as : List Action} (h : Normal [a]) :
    consUnlessNoop a as = a :: as := by
  cases a with
  | noop => exact absurd (.inl rfl) (throughout_cons.mp h).1
  | _ => rfl

theorem consUnlessNoop_normal {a : Action} {as : List Action} (ha : a = noop ∨ Normal [a])
    (has : Normal as) : Normal (consUnlessNoop a as) := by
  rcases ha with rfl | ha
  · exact has
  · rw [consUnlessNoop_eq_cons ha]
    exact normal_cons.mpr ⟨ha, has⟩

mutual

/-- A folded action does nothing or is in normal form. -/
theorem fold_normal : ∀ a : Action, a.fold = noop ∨ Normal [a.fold]
  | block body => by
    have hbody := foldBody_normal body
    rw [fold]
    cases h : foldBody body with
    | nil => exact .inl rfl
    | cons b bs =>
      rw [h] at hbody
      refine .inr ?_
      rw [ofBody, Normal, throughout_cons]
      · exact ⟨by simp [Idle], by simp, hbody, throughout_nil⟩
      · simp
  | branch condition body => .inr <| by
    rw [fold, Normal, throughout_cons]
    exact ⟨by simp [Idle], by simp [condition.fold_normal], foldBody_normal body, throughout_nil⟩
  | loop condition body => .inr <| by
    rw [fold, Normal, throughout_cons]
    exact ⟨by simp [Idle], by simp [condition.fold_normal], foldBody_normal body, throughout_nil⟩
  | declare slot ty value => .inr <| by simp [fold, Idle, value.fold_normal]
  | assign slot value => .inr <| by simp [fold, Idle, value.fold_normal]
  | assignField object field value => .inr <| by
    simp [fold, Idle, object.fold_normal, value.fold_normal]
  | call name args => .inr <| by
    simpa [fold, Idle] using Value.foldList_normal args
  | stop | next => .inr <| by simp [fold, Idle]
  | noop => .inl rfl

/-- **A folded body is in normal form.** -/
theorem foldBody_normal : ∀ body : List Action, Normal (foldBody body)
  | [] => throughout_nil
  | a :: as => by
    rw [foldBody]
    exact consUnlessNoop_normal (fold_normal a) (foldBody_normal as)

end

mutual

/-- An action in normal form is folded already. -/
theorem fold_eq_self : ∀ a : Action, Normal [a] → a.fold = a
  | block body, h => by
    obtain ⟨hidle, -, hbody, -⟩ := throughout_cons.mp h
    rw [fold, foldBody_eq_self body hbody]
    cases body with
    | nil => exact absurd (.inr rfl) hidle
    | cons b bs => rfl
  | branch condition body, h => by
    obtain ⟨-, hvalues, hbody, -⟩ := throughout_cons.mp h
    rw [fold, foldBody_eq_self body hbody, condition.fold_eq_self (hvalues _ (by simp))]
  | loop condition body, h => by
    obtain ⟨-, hvalues, hbody, -⟩ := throughout_cons.mp h
    rw [fold, foldBody_eq_self body hbody, condition.fold_eq_self (hvalues _ (by simp))]
  | declare slot ty value, h => by
    rw [fold, value.fold_eq_self ((throughout_cons.mp h).2.1 _ (by simp))]
  | assign slot value, h => by
    rw [fold, value.fold_eq_self ((throughout_cons.mp h).2.1 _ (by simp))]
  | assignField object field value, h => by
    obtain ⟨-, hvalues, -⟩ := throughout_cons.mp h
    rw [fold, object.fold_eq_self (hvalues _ (by simp)), value.fold_eq_self (hvalues _ (by simp))]
  | call name args, h => by rw [fold, Value.foldList_eq_self args (throughout_cons.mp h).2.1]
  | stop, _ | next, _ | noop, _ => rfl

/-- **A body in normal form is folded already.** -/
theorem foldBody_eq_self : ∀ body : List Action, Normal body → foldBody body = body
  | [], _ => rfl
  | a :: as, h => by
    obtain ⟨ha, has⟩ := normal_cons.mp h
    rw [foldBody, fold_eq_self a ha, foldBody_eq_self as has]
    exact consUnlessNoop_eq_cons ha

end

end Action

/-! ## Rules -/

namespace Rule

/-- Nothing in the rule is left to carry out or to drop. -/
def Normal (r : Rule) : Prop := Action.Normal r.body

theorem fold_normal (r : Rule) : r.fold.Normal := Action.foldBody_normal r.body

theorem fold_eq_self {r : Rule} (h : r.Normal) : r.fold = r := by
  rw [fold, Action.foldBody_eq_self r.body h]

theorem foldAll_normal (rules : List Rule) : ∀ r ∈ foldAll rules, r.Normal := by
  intro r hr
  obtain ⟨s, -, rfl⟩ := List.mem_map.mp hr
  exact s.fold_normal

theorem foldAll_eq_self {rules : List Rule} (h : ∀ r ∈ rules, r.Normal) :
    foldAll rules = rules := by
  rw [foldAll, List.map_congr_left fun r hr => fold_eq_self (h r hr), List.map_id']

/-- **Folding has the normal forms as its fixed points, and gives one.** No rule that comes out of
folding has an action that does nothing or a value that can be carried out, at any depth. The rules
without any are exactly those that folding leaves as they are, and so folding twice is folding
once. -/
theorem foldAll_fixed_iff_normal (rules : List Rule) :
    (∀ r ∈ foldAll rules, r.Normal) ∧
    ((∀ r ∈ rules, r.Normal) ↔ foldAll rules = rules) ∧
    foldAll (foldAll rules) = foldAll rules := by
  refine ⟨foldAll_normal rules, ⟨foldAll_eq_self, fun h => ?_⟩,
    foldAll_eq_self (foldAll_normal rules)⟩
  rw [← h]
  exact foldAll_normal rules

end Rule

end RuleScript
