import RuleScript.Lowering.Stmt
import RuleScript.Rule.Fold

/-!
# Everything inside a rule

A property of rules is often a property of each of their actions and each of their values, at any
depth. The actions and values inside are listed, and a property of all of them is taken apart along
the body: it holds of a body if it holds of its actions, of their values and of their own bodies.

## Main definitions

* `Value.nodes`, `Action.nodesBody`: all values inside a value, and all actions inside a body
* `Value.Throughout`, `Action.Throughout`: a property of all of them

## Main results

* `Value.throughout_iff`, `Action.throughout_cons`: such a property, taken apart
* `Value.induct_parts`, `Action.induct_body`: induction along the parts of values and bodies
-/

namespace RuleScript

/-! ## Values -/

namespace Value

/-- The values that a value is made of. -/
@[simp] def parts : Value → List Value
  | binary _ _ lhs rhs => [lhs, rhs]
  | not _ operand => [operand]
  | index _ a place => [a, place]
  | call _ _ args => args
  | array _ items => items
  | constant _ _ | read _ _ | number _ _ | string _ _ | template _ _ | boolean _ _ => []

mutual

/-- The value and all values inside it, at any depth. -/
def nodes : Value → List Value
  | binary ty op lhs rhs => binary ty op lhs rhs :: (lhs.nodes ++ rhs.nodes)
  | not ty operand => not ty operand :: operand.nodes
  | index ty a place => index ty a place :: (a.nodes ++ place.nodes)
  | call ty name args => call ty name args :: nodesList args
  | array ty items => array ty items :: nodesList items
  | constant ty text => [constant ty text]
  | read ty slot => [read ty slot]
  | number ty x => [number ty x]
  | string ty s => [string ty s]
  | template ty s => [template ty s]
  | boolean ty b => [boolean ty b]

/-- Some values and all values inside them. -/
def nodesList : List Value → List Value
  | [] => []
  | v :: vs => v.nodes ++ nodesList vs

end

/-- The property holds of the value and of all values inside it. -/
def Throughout (N : Value → Prop) (v : Value) : Prop := ∀ w ∈ v.nodes, N w

instance {N : Value → Prop} [DecidablePred N] (v : Value) : Decidable (v.Throughout N) :=
  inferInstanceAs (Decidable (∀ w ∈ v.nodes, N w))

variable {N M : Value → Prop}

theorem nodes_eq (v : Value) : v.nodes = v :: nodesList v.parts := by
  cases v <;> simp [nodes, nodesList]

theorem nodesList_iff (vs : List Value) :
    (∀ w ∈ nodesList vs, N w) ↔ ∀ v ∈ vs, v.Throughout N := by
  induction vs with
  | nil => simp [nodesList]
  | cons v vs ih => rw [nodesList, List.forall_mem_append, ih, List.forall_mem_cons, Throughout]

/-- A property of a value and of all inside it is one of the value and of all inside its parts. -/
theorem throughout_iff (v : Value) :
    v.Throughout N ↔ N v ∧ ∀ w ∈ v.parts, w.Throughout N := by
  rw [Throughout, nodes_eq, List.forall_mem_cons, nodesList_iff]

theorem throughout_literal {v : Value} (hv : v.isLiteral = true) (h : N v) : v.Throughout N := by
  rw [throughout_iff]
  cases v with
  | number | string | boolean => exact ⟨h, nofun⟩
  | _ => cases hv

theorem Throughout.self {v : Value} (h : v.Throughout N) : N v := ((throughout_iff v).mp h).1

theorem Throughout.mono {v : Value} (h : v.Throughout N) (hNM : ∀ w, N w → M w) :
    v.Throughout M :=
  fun w hw => hNM w (h w hw)

mutual

/-- What is true of a value if it is true of its parts is true of all values. -/
theorem induct_parts {M : Value → Prop} (h : ∀ v, (∀ w ∈ v.parts, M w) → M v) : ∀ v, M v
  | binary _ _ lhs rhs => h _ (by simp [induct_parts h lhs, induct_parts h rhs])
  | not _ operand => h _ (by simp [induct_parts h operand])
  | index _ a place => h _ (by simp [induct_parts h a, induct_parts h place])
  | call _ _ args => h _ (inductList_parts h args)
  | array _ items => h _ (inductList_parts h items)
  | constant _ _ | read _ _ | number _ _ | string _ _ | template _ _ | boolean _ _ => h _ nofun

theorem inductList_parts {M : Value → Prop} (h : ∀ v, (∀ w ∈ v.parts, M w) → M v) :
    ∀ vs : List Value, ∀ v ∈ vs, M v
  | [] => nofun
  | v :: vs => List.forall_mem_cons.mpr ⟨induct_parts h v, inductList_parts h vs⟩

end

theorem foldList_eq_map (vs : List Value) : foldList vs = vs.map fold := by
  induction vs with
  | nil => rfl
  | cons v vs ih => rw [foldList, ih, List.map_cons]

end Value

/-! ## Actions -/

namespace Action

/-- The values that an action itself uses. -/
@[simp] def values : Action → List Value
  | branch condition _ | loop condition _ => [condition]
  | declare _ _ value | assign _ value => [value]
  | assignField object _ value => [object, value]
  | call _ args => args
  | block _ | stop | next | noop => []

/-- The actions that an action is made of. -/
@[simp] def inner : Action → List Action
  | block body | branch _ body | loop _ body => body
  | declare _ _ _ | assign _ _ | assignField _ _ _ | call _ _ | stop | next | noop => []

mutual

/-- The action and all actions inside it, at any depth. -/
def nodes : Action → List Action
  | block body => block body :: nodesBody body
  | branch condition body => branch condition body :: nodesBody body
  | loop condition body => loop condition body :: nodesBody body
  | declare slot ty value => [declare slot ty value]
  | assign slot value => [assign slot value]
  | assignField object field value => [assignField object field value]
  | call name args => [call name args]
  | stop => [stop]
  | next => [next]
  | noop => [noop]

/-- The actions of a body and all actions inside them. -/
def nodesBody : List Action → List Action
  | [] => []
  | a :: as => a.nodes ++ nodesBody as

end

/-- One property holds of all actions in a body, at any depth, and another of all values in them. -/
def Throughout (A : Action → Prop) (N : Value → Prop) (body : List Action) : Prop :=
  ∀ a ∈ nodesBody body, A a ∧ ∀ v ∈ a.values, v.Throughout N

instance {A : Action → Prop} {N : Value → Prop} [DecidablePred A] [DecidablePred N]
    (body : List Action) : Decidable (Throughout A N body) :=
  inferInstanceAs (Decidable (∀ a ∈ nodesBody body, A a ∧ ∀ v ∈ a.values, v.Throughout N))

variable {A B : Action → Prop} {N M : Value → Prop}

theorem nodes_eq (a : Action) : a.nodes = a :: nodesBody a.inner := by
  cases a <;> simp [nodes, nodesBody]

@[simp] theorem throughout_nil : Throughout A N [] := by simp [Throughout, nodesBody]

/-- A property of a body is one of its first action, the values and the body of that, and the
actions after it. -/
@[simp] theorem throughout_cons {a : Action} {as : List Action} : Throughout A N (a :: as) ↔
    A a ∧ (∀ v ∈ a.values, v.Throughout N) ∧ Throughout A N a.inner ∧ Throughout A N as := by
  rw [Throughout, nodesBody, List.forall_mem_append, nodes_eq, List.forall_mem_cons, and_assoc,
    and_assoc]
  rfl

@[simp] theorem throughout_append {as bs : List Action} :
    Throughout A N (as ++ bs) ↔ Throughout A N as ∧ Throughout A N bs := by
  induction as with
  | nil => simp
  | cons a as ih => simp only [List.cons_append, throughout_cons, ih, and_assoc]

theorem Throughout.mono {body : List Action} (h : Throughout A N body) (hAB : ∀ a, A a → B a)
    (hNM : ∀ v, N v → M v) : Throughout B M body :=
  fun a ha => ⟨hAB a (h a ha).1, fun v hv => ((h a ha).2 v hv).mono hNM⟩

mutual

/-- What is true of a body if it is true of the body of its first action and of the actions after
that is true of all bodies. -/
theorem induct_body {M : List Action → Prop} (hnil : M [])
    (hcons : ∀ a as, M a.inner → M as → M (a :: as)) : ∀ body, M body
  | [] => hnil
  | a :: as => hcons a as (induct_inner hnil hcons a) (induct_body hnil hcons as)

theorem induct_inner {M : List Action → Prop} (hnil : M [])
    (hcons : ∀ a as, M a.inner → M as → M (a :: as)) : ∀ a : Action, M a.inner
  | block body | branch _ body | loop _ body => induct_body hnil hcons body
  | declare _ _ _ | assign _ _ | assignField _ _ _ | call _ _ | stop | next | noop => hnil

end

/-- An action with others before it is in a block at most. -/
theorem throughout_behind {before : List Action} {a : Action} (hblock : ∀ body, A (block body))
    (hbefore : Throughout A N before) (ha : Throughout A N [a]) :
    Throughout A N [behind before a] := by
  unfold behind
  split
  · exact ha
  · simp only [throughout_cons, inner, values, List.not_mem_nil, false_implies, implies_true,
      throughout_append, throughout_nil, and_true, true_and, hblock, hbefore] at ha ⊢
    exact ha

end Action

end RuleScript
