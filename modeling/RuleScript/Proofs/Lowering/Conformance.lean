import RuleScript.Proofs.Meaning.Expr
import RuleScript.Proofs.Typing.Consistency
import RuleScript.Proofs.Typing.Solving

/-!
# Calls as the target has them

The target knows its actions and values by their texts, and takes their arguments by position. A
call in a rule *conforms* if there is a function with its text in the table and its arguments suit
the parameters of that function: there are as many as there are parameters, or enough for all but a
variadic one at the end; a format stands where the function wants one and nowhere else; and any
other argument has a type that fits, or is the text for an argument that was left out.

Folding replaces values by others of the same types and never touches a format, so it keeps calls as
they are.

## Main definitions

* `ParamDef.Takes`, `FunctionDef.Accepts`: arguments that suit a parameter and a function
* `constantTexts`, `callNames`: the texts of the target that the tables have
* `Rule.Conforms`: all calls in the rule conform, and formats are arguments of calls only

## Main results

* `FunctionDef.accepts_of_takeAll`: arguments that are taken one after the other suit the function
* `Value.throughout_fold`, `Action.throughout_foldBody`: what folding keeps of all nodes of a rule
* `Rule.conforms_foldAll`: folding keeps calls as they are
-/

namespace RuleScript

/-! ## Arguments and parameters -/

/-- Whether the value is the format of a text. -/
def Value.isTemplate : Value → Bool
  | template _ _ => true
  | binary _ _ _ _ | not _ _ | index _ _ _ | call _ _ _ | constant _ _ | read _ _ | number _ _
  | string _ _ | boolean _ _ | array _ _ => false

/-- The argument suits the parameter: it is a format where one is wanted and nowhere else, and
otherwise it has a type that fits or is the text for an argument that is left out. -/
structure ParamDef.Takes (p : ParamDef) (v : Value) : Prop where
  template : v.isTemplate = p.template
  suits : p.template = false → (∀ span, p.ty.fits v.ty span = .ok true) ∨
    ∃ text, p.default? = some text ∧ v = .constant p.ty text

/-- The arguments suit the function. There is one for each parameter; if the last parameter is
variadic then there may be none for it, or several. -/
structure FunctionDef.Accepts (f : FunctionDef) (args : List Value) : Prop where
  arity : args.length = f.params.length ∨
    (∃ p, f.params.getLast? = some p ∧ p.ty.isVariadic = true) ∧ f.params.length ≤ args.length + 1
  takes : ∀ i v, args[i]? = some v →
    ∃ p, f.params[min i (f.params.length - 1)]? = some p ∧ p.Takes v

namespace ParamDef

/-- The arguments are taken one after the other, and a variadic parameter at the end takes all that
are left. -/
inductive TakeAll : List ParamDef → List Value → Prop
  | nil : TakeAll [] []
  | cons {p ps v vs} : p.Takes v → TakeAll ps vs → TakeAll (p :: ps) (v :: vs)
  | rest {p vs} : p.ty.isVariadic = true → (∀ v ∈ vs, p.Takes v) → TakeAll [p] vs

variable {p : ParamDef} {ps : List ParamDef} {vs : List Value}

/-- A variadic parameter takes one more argument. -/
theorem TakeAll.more (h : TakeAll [p] vs) (hvariadic : p.ty.isVariadic = true) {v : Value}
    (hv : p.Takes v) : TakeAll [p] (v :: vs) := by
  refine .rest hvariadic (List.forall_mem_cons.mpr ⟨hv, ?_⟩)
  cases h with
  | cons hw hnone =>
    cases hnone
    exact List.forall_mem_singleton.mpr hw
  | rest _ hvs => exact hvs

theorem TakeAll.arity (h : TakeAll ps vs) : vs.length = ps.length ∨
    (∃ p, ps.getLast? = some p ∧ p.ty.isVariadic = true) ∧ ps.length ≤ vs.length + 1 := by
  induction h with
  | nil => exact .inl rfl
  | @cons p ps v vs _ _ ih =>
    rcases ih with hlength | ⟨⟨q, hq, hvariadic⟩, hle⟩
    · exact .inl (congrArg (· + 1) hlength)
    · refine .inr ⟨⟨q, ?_, hvariadic⟩, Nat.succ_le_succ hle⟩
      rw [List.getLast?_cons, hq]
      rfl
  | @rest p vs hvariadic _ => exact .inr ⟨⟨p, rfl, hvariadic⟩, Nat.succ_le_succ (Nat.zero_le _)⟩

theorem TakeAll.takes (h : TakeAll ps vs) {i : Nat} {v : Value} (hv : vs[i]? = some v) :
    ∃ p, ps[min i (ps.length - 1)]? = some p ∧ p.Takes v := by
  induction h generalizing i with
  | nil => cases hv
  | @cons p ps w vs hw _ ih =>
    cases i with
    | zero =>
      obtain rfl := Option.some.inj hv
      exact ⟨p, by simp, hw⟩
    | succ i =>
      obtain ⟨q, hq, htakes⟩ := ih hv
      have hpos : 0 < ps.length := Nat.zero_lt_of_lt (List.getElem?_eq_some_iff.mp hq).1
      refine ⟨q, ?_, htakes⟩
      have hmin : min (i + 1) ((p :: ps).length - 1) = min i (ps.length - 1) + 1 := by
        rw [List.length_cons]
        omega
      rw [hmin, List.getElem?_cons_succ]
      exact hq
  | @rest p vs _ hvs => exact ⟨p, by simp, hvs v (List.mem_of_getElem? hv)⟩

end ParamDef

/-- **Arguments that are taken one after the other suit the function.** -/
theorem FunctionDef.accepts_of_takeAll {f : FunctionDef} {args : List Value}
    (h : ParamDef.TakeAll f.params args) : f.Accepts args :=
  ⟨h.arity, fun _ _ => h.takes⟩

/-! ## The parameters of the target -/

namespace ParamDef

/-- The type of the parameter has no generics, and there is no text for a format that is left
out. -/
def Regular (p : ParamDef) : Prop :=
  p.ty.hasGeneric = false ∧ (p.template = true → p.default? = none)

instance : DecidablePred Regular := fun p =>
  inferInstanceAs (Decidable (p.ty.hasGeneric = false ∧ (p.template = true → p.default? = none)))

variable {p : ParamDef} {ps : List ParamDef}

/-- The texts for arguments that are left out suit their parameters. -/
theorem takeAll_defaults? {values : List Value} (hps : ∀ p ∈ ps, p.Regular)
    (hlast : variadicLast ps = true) (h : Value.defaults? ps = some values) :
    TakeAll ps values := by
  induction ps generalizing values with
  | nil =>
    cases h
    exact .nil
  | cons p ps ih =>
    obtain ⟨⟨-, hformat⟩, hps⟩ := List.forall_mem_cons.mp hps
    rw [Value.defaults?] at h
    split at h
    case isTrue hvariadic =>
      cases h
      obtain ⟨-, rfl⟩ := defaults_variadic hvariadic hlast 0
      exact .rest hvariadic (List.forall_mem_nil _)
    case isFalse =>
      split at h
      case h_1 => cases h
      case h_2 text htext =>
        obtain ⟨rest, hrest, rfl⟩ := Option.map_eq_some_iff.mp h
        have htemplate : p.template = false := by
          cases hp : p.template with
          | false => rfl
          | true =>
            rw [hformat hp] at htext
            cases htext
        exact .cons ⟨htemplate.symm, fun _ => .inr ⟨text, htext, rfl⟩⟩
          (ih hps (variadicLast_tail hlast) hrest)

/-- A comparison with the type of a parameter binds nothing, and its answer does not depend on the
place. -/
theorem Regular.fits (hp : p.Regular) {ty : Ty} {function : String} {index : Nat} {span : Span}
    {bindings : Bindings}
    (h : Value.checkArgument function index p.ty ty span .empty = .ok bindings) :
    bindings = .empty ∧ ∀ span', p.ty.fits ty span' = .ok true := by
  have hfits := Value.checkArgument_ok.mp h
  refine ⟨?_, fun span' => ?_⟩
  · exact Solve.compare_unbound _ ty hp.1 .empty _ _ _ rfl (Ty.fitsWith_ok hfits)
  · rw [Ty.fits, Ty.fitsWith_span hfits]
    rfl

end ParamDef

theorem FunctionDef.regular_of_find? {name : String} {f : FunctionDef}
    (h : FunctionDef.find? name = some f) : ∀ p ∈ f.params, p.Regular := by
  have hall : ∀ f ∈ FunctionDef.all, ∀ p ∈ f.params, p.Regular := by decide +kernel
  exact hall f (List.mem_of_find?_eq_some h)

/-! ## Names of the tables -/

/-- The texts of the target that the tables have for values: the constants, what a trigger provides,
and what stands for an argument that is left out. -/
def constantTexts : List String :=
  ConstantDef.all.map (·.target) ++ EventDef.all.flatMap (·.args.map (·.target))
    ++ FunctionDef.all.flatMap (·.params.filterMap (·.default?))

/-- The names of the target that the tables have for actions and values. -/
def callNames : List String := FunctionDef.all.map (·.target)

/-! ## Rules that conform -/

namespace Value

/-- If the value is a call then the target has such a value and takes the arguments; and no value
but a call has a format among its parts. -/
def Conforms : Value → Prop
  | call ty name args => ∃ f ∈ FunctionDef.all, f.target = name ∧ f.ret = some ty ∧ f.Accepts args
  | v => ∀ w ∈ v.parts, w.isTemplate = false

end Value

namespace Action

/-- If the action is a call then the target has such an action or value and takes the arguments; and
no other action uses a format. -/
def Conforms : Action → Prop
  | call name args => ∃ f ∈ FunctionDef.all, f.target = name ∧ f.Accepts args
  | a => ∀ v ∈ a.values, v.isTemplate = false

end Action

/-- All calls in the rule conform, and formats are arguments of calls only. -/
def Rule.Conforms (r : Rule) : Prop := Action.Throughout Action.Conforms Value.Conforms r.body

/-! ## Folding node by node -/

namespace Value

variable {N : Value → Prop} {v : Value}

/-- The value with its parts folded. -/
def foldParts : Value → Value
  | binary ty op lhs rhs => binary ty op lhs.fold rhs.fold
  | not ty operand => not ty operand.fold
  | index ty a place => index ty a.fold place.fold
  | call ty name args => call ty name (foldList args)
  | array ty items => array ty (foldList items)
  | constant ty text => constant ty text
  | read ty slot => read ty slot
  | number ty x => number ty x
  | string ty s => string ty s
  | template ty s => template ty s
  | boolean ty b => boolean ty b

theorem parts_foldParts (v : Value) : v.foldParts.parts = v.parts.map fold := by
  cases v <;> simp [foldParts, foldList_eq_map]

/-- Folding gives a number, a truth value, or the same value with its parts folded. -/
theorem fold_cases (h : v.Agrees) :
    (∃ x, v.fold = ofNumber x) ∨ (∃ b, v.fold = ofBool b) ∨ v.fold = v.foldParts := by
  cases v with
  | binary ty op lhs rhs =>
    rw [fold, foldBinary]
    cases hv : op.onLiterals? lhs.fold rhs.fold with
    | none => exact .inr (.inr rfl)
    | some v =>
      obtain ⟨_, _, x, -, rfl, -⟩ | ⟨b, rfl, -⟩ := BinOp.onLiterals?_ok hv
      · exact .inl ⟨x, rfl⟩
      · exact .inr (.inl ⟨b, rfl⟩)
  | not ty operand =>
    obtain ⟨rfl, -⟩ := h
    rw [fold]
    unfold foldNot
    split
    · exact .inr (.inl ⟨_, rfl⟩)
    · exact .inr (.inr rfl)
  | _ => exact .inr (.inr (by rw [fold, foldParts]))

theorem isTemplate_fold (h : v.Agrees) : v.fold.isTemplate = v.isTemplate := by
  cases v with
  | template => rw [fold]
  | _ => obtain ⟨x, hfold⟩ | ⟨b, hfold⟩ | hfold := fold_cases h <;> rw [hfold] <;> rfl

/-- **What folding keeps of all values inside a value.** It is kept if it is true of numbers and
truth values, and stays true of a value when the parts of that are folded. -/
theorem throughout_fold (hnumber : ∀ x, N (ofNumber x)) (hbool : ∀ b, N (ofBool b))
    (hparts : ∀ v : Value, v.Consistent → N v → N v.foldParts) (v : Value) :
    v.Consistent → v.Throughout N → v.fold.Throughout N := by
  induction v using induct_parts with
  | h v ih =>
    intro hv h
    obtain ⟨hagrees, hconsistent⟩ := (throughout_iff v).mp hv
    obtain ⟨hself, hinside⟩ := (throughout_iff v).mp h
    obtain ⟨x, hfold⟩ | ⟨b, hfold⟩ | hfold := fold_cases hagrees
    · rw [hfold]
      exact throughout_literal rfl (hnumber x)
    · rw [hfold]
      exact throughout_literal rfl (hbool b)
    · rw [hfold, throughout_iff, parts_foldParts]
      refine ⟨hparts v hv hself, fun w hw => ?_⟩
      obtain ⟨u, hu, rfl⟩ := List.mem_map.mp hw
      exact ih u hu (hconsistent u hu) (hinside u hu)

end Value

namespace Action

variable {A : Action → Prop} {N : Value → Prop}

theorem values_fold (a : Action) : a.fold.values = a.values.map Value.fold := by
  cases a with
  | block body =>
    rw [fold]
    cases foldBody body <;> rfl
  | _ => simp [fold, Value.foldList_eq_map]

theorem inner_fold (a : Action) : a.fold.inner = foldBody a.inner := by
  cases a with
  | block body =>
    rw [fold, inner]
    cases foldBody body <;> rfl
  | _ => simp [fold, foldBody]

theorem throughout_consUnlessNoop {a : Action} {as : List Action} (ha : Throughout A N [a])
    (has : Throughout A N as) : Throughout A N (consUnlessNoop a as) := by
  unfold consUnlessNoop
  split
  · exact has
  · rw [← List.singleton_append, throughout_append]
    exact ⟨ha, has⟩

/-- **What folding keeps of all actions in a body.** -/
theorem throughout_foldBody (hA : ∀ a : Action, (∀ v ∈ a.values, v.Consistent) → A a → A a.fold)
    (hN : ∀ v : Value, v.Consistent → v.Throughout N → v.fold.Throughout N)
    (body : List Action) :
    Consistent body → Throughout A N body → Throughout A N (foldBody body) := by
  induction body using induct_body with
  | hnil =>
    intro _ _
    exact throughout_nil
  | hcons a as hinner has =>
    intro hbody h
    obtain ⟨-, hvalues, hconsistent, hrest⟩ := throughout_cons.mp hbody
    obtain ⟨hself, hinside, hbelow, hothers⟩ := throughout_cons.mp h
    rw [foldBody]
    refine throughout_consUnlessNoop (throughout_cons.mpr ⟨hA a hvalues hself, ?_, ?_,
      throughout_nil⟩) (has hrest hothers)
    · rw [values_fold]
      intro w hw
      obtain ⟨v, hv, rfl⟩ := List.mem_map.mp hw
      exact hN v (hvalues v hv) (hinside v hv)
    · rw [inner_fold]
      exact hinner hconsistent hbelow

end Action

/-! ## Folding calls -/

theorem ParamDef.Takes.fold {p : ParamDef} {v : Value} (h : p.Takes v) (hv : v.Consistent) :
    p.Takes v.fold := by
  refine ⟨(Value.isTemplate_fold hv.self).trans h.template, fun htemplate => ?_⟩
  rw [Value.fold_ty hv]
  rcases h.suits htemplate with hfits | ⟨text, hdefault, rfl⟩
  · exact .inl hfits
  · exact .inr ⟨text, hdefault, by rw [Value.fold]⟩

theorem FunctionDef.Accepts.fold {f : FunctionDef} {args : List Value} (h : f.Accepts args)
    (hargs : ∀ v ∈ args, v.Consistent) : f.Accepts (Value.foldList args) := by
  rw [Value.foldList_eq_map]
  refine ⟨by rw [List.length_map]; exact h.arity, fun i w hw => ?_⟩
  rw [List.getElem?_map] at hw
  obtain ⟨v, hv, rfl⟩ := Option.map_eq_some_iff.mp hw
  obtain ⟨p, hp, htakes⟩ := h.takes i v hv
  exact ⟨p, hp, htakes.fold (hargs v (List.mem_of_getElem? hv))⟩

theorem Value.conforms_foldParts {v : Value} (hv : v.Consistent) (h : v.Conforms) :
    v.foldParts.Conforms := by
  obtain ⟨-, hparts⟩ := (throughout_iff v).mp hv
  have hformats : (∀ w ∈ v.parts, w.isTemplate = false) →
      ∀ w ∈ v.foldParts.parts, w.isTemplate = false := by
    intro hnone w hw
    rw [parts_foldParts] at hw
    obtain ⟨u, hu, rfl⟩ := List.mem_map.mp hw
    exact (isTemplate_fold (hparts u hu).self).trans (hnone u hu)
  cases v with
  | call ty name args =>
    obtain ⟨f, hf, htarget, hret, haccepts⟩ := h
    exact ⟨f, hf, htarget, hret, haccepts.fold hparts⟩
  | _ => exact hformats h

theorem Action.conforms_fold {a : Action} (hvalues : ∀ v ∈ a.values, v.Consistent)
    (h : a.Conforms) : a.fold.Conforms := by
  have hformats : (∀ v ∈ a.values, v.isTemplate = false) →
      ∀ v ∈ a.fold.values, v.isTemplate = false := by
    intro hnone w hw
    rw [values_fold] at hw
    obtain ⟨v, hv, rfl⟩ := List.mem_map.mp hw
    exact (Value.isTemplate_fold (hvalues v hv).self).trans (hnone v hv)
  cases a with
  | call name args =>
    obtain ⟨f, hf, htarget, haccepts⟩ := h
    exact ⟨f, hf, htarget, haccepts.fold hvalues⟩
  | block body =>
    rw [fold]
    cases foldBody body <;> exact List.forall_mem_nil _
  | _ => exact hformats h

namespace Rule

variable {rules : List Rule}

/-- What folding keeps of all actions and all values in rules. -/
theorem throughout_foldAll {A : Action → Prop} {N : Value → Prop}
    (hA : ∀ a : Action, (∀ v ∈ a.values, v.Consistent) → A a → A a.fold)
    (hnumber : ∀ x, N (.ofNumber x)) (hbool : ∀ b, N (.ofBool b))
    (hparts : ∀ v : Value, v.Consistent → N v → N v.foldParts)
    (hconsistent : ∀ r ∈ rules, r.Consistent) (h : ∀ r ∈ rules, Action.Throughout A N r.body) :
    ∀ r ∈ foldAll rules, Action.Throughout A N r.body := by
  intro r hr
  obtain ⟨s, hs, rfl⟩ := List.mem_map.mp hr
  exact Action.throughout_foldBody hA (Value.throughout_fold hnumber hbool hparts) s.body
    (hconsistent s hs) (h s hs)

/-- **Folding keeps calls as they are.** -/
theorem conforms_foldAll (hconsistent : ∀ r ∈ rules, r.Consistent)
    (h : ∀ r ∈ rules, r.Conforms) : ∀ r ∈ foldAll rules, r.Conforms :=
  throughout_foldAll (fun _ => Action.conforms_fold) (fun _ => List.forall_mem_nil _)
    (fun _ => List.forall_mem_nil _) (fun _ => Value.conforms_foldParts) hconsistent h

end Rule

end RuleScript
