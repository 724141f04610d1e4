import Mathlib.Data.List.Forall2
import RuleScript.Compile
import RuleScript.Proofs.Nodes

/-!
# Dropping leaves no trace in the text

Folding does two things to a rule: it folds the values, and it drops the actions that do nothing,
together with the blocks that are empty then. The text of a rule has no lines for such actions, and
a block has only the lines of the actions in it. So the second thing cannot be seen in the text: it
is the text of the rule with all its actions, each value folded where it stands.

## Main definitions

* `Rule.mapValues`: the rule with its values replaced where they stand
* `Line.Folded`: a line, and the same line with its values folded

## Main results

* `Action.linesAll_foldBody`: the lines of a folded body
* `Rule.script_foldAll`: the text of folded rules
-/

namespace RuleScript

/-! ## Replacing values where they stand -/

namespace Action

mutual

/-- The action with each of its values replaced. All actions inside it stay, also those that do
nothing. -/
def mapValues (f : Value → Value) : Action → Action
  | block body => block (mapValuesBody f body)
  | branch condition body => branch (f condition) (mapValuesBody f body)
  | loop condition body => loop (f condition) (mapValuesBody f body)
  | declare slot ty value => declare slot ty (f value)
  | assign slot value => assign slot (f value)
  | assignField object field value => assignField (f object) field (f value)
  | call name args => call name (args.map f)
  | stop => stop
  | next => next
  | noop => noop

/-- The actions of a body with each of their values replaced. -/
def mapValuesBody (f : Value → Value) : List Action → List Action
  | [] => []
  | a :: as => a.mapValues f :: mapValuesBody f as

end

end Action

/-- The rule with each of its values replaced. -/
def Rule.mapValues (f : Value → Value) (r : Rule) : Rule :=
  { r with body := Action.mapValuesBody f r.body }

/-! ## The lines of what is folded -/

namespace Action

variable (store : String)

/-- An empty block has no lines, as the action that does nothing. -/
theorem lines_ofBody (depth : Nat) (body : List Action) :
    lines store depth (ofBody body) = linesAll store depth body := by
  cases body with
  | nil => simp [ofBody, lines, linesAll]
  | cons a as => simp [ofBody, lines]

/-- The action that does nothing has no lines, so it does not matter whether it is dropped. -/
theorem linesAll_consUnlessNoop (depth : Nat) (a : Action) (as : List Action) :
    linesAll store depth (consUnlessNoop a as) =
      lines store depth a ++ linesAll store depth as := by
  cases a with
  | noop => simp [consUnlessNoop, lines]
  | _ => simp [consUnlessNoop, linesAll]

mutual

theorem lines_fold (depth : Nat) : ∀ a : Action,
    lines store depth a.fold = lines store depth (a.mapValues Value.fold)
  | block body => by
    rw [fold, lines_ofBody, mapValues, lines]
    exact linesAll_foldBody depth body
  | branch condition body | loop condition body => by
    rw [fold, mapValues, lines, lines, linesAll_foldBody (depth + 1) body]
  | call name args => by
    rw [fold, mapValues, Value.foldList_eq_map]
  | declare _ _ _ | assign _ _ | assignField _ _ _ | stop | next | noop => by
    rw [fold, mapValues]

/-- **The lines of a folded body** are those of the body with its values folded where they stand. -/
theorem linesAll_foldBody (depth : Nat) : ∀ body : List Action,
    linesAll store depth (foldBody body) = linesAll store depth (mapValuesBody Value.fold body)
  | [] => rfl
  | a :: as => by
    rw [foldBody, linesAll_consUnlessNoop, mapValuesBody, linesAll, lines_fold depth a,
      linesAll_foldBody depth as]

end

end Action

/-! ## Line by line -/

/-- The second line is the first one with its values folded: it has the same indent and does the
same with the values. -/
inductive Line.Folded (store : String) : Line → Line → Prop
  /-- A line without values, such as one that closes a branch. -/
  | same (l : Line) : Folded store l l
  | branch (depth : Nat) (condition : Value) : Folded store
    ⟨depth, "If(" ++ condition.text store ++ ");"⟩
    ⟨depth, "If(" ++ condition.fold.text store ++ ");"⟩
  | loop (depth : Nat) (condition : Value) : Folded store
    ⟨depth, "While(" ++ condition.text store ++ ");"⟩
    ⟨depth, "While(" ++ condition.fold.text store ++ ");"⟩
  | store (depth : Nat) (slot : Slot) (value : Value) : Folded store
    ⟨depth, Action.storeText store slot value⟩ ⟨depth, Action.storeText store slot value.fold⟩
  | field (depth : Nat) (object : Value) (field : String) (value : Value) : Folded store
    ⟨depth, "Set Player Variable(" ++ object.text store ++ ", " ++ field ++ ", "
      ++ value.text store ++ ");"⟩
    ⟨depth, "Set Player Variable(" ++ object.fold.text store ++ ", " ++ field ++ ", "
      ++ value.fold.text store ++ ");"⟩
  | call (depth : Nat) (name : String) (args : List Value) : Folded store
    ⟨depth, Value.callText name (Value.texts store args) ++ ";"⟩
    ⟨depth, Value.callText name (Value.texts store (args.map Value.fold)) ++ ";"⟩

namespace Action

variable (store : String)

mutual

/-- Folding the values where they stand changes every line of an action on its own. -/
theorem lines_folded (depth : Nat) : ∀ a : Action,
    List.Forall₂ (Line.Folded store) (lines store depth a)
      (lines store depth (a.mapValues Value.fold))
  | block body => by
    rw [mapValues, lines, lines]
    exact linesAll_folded depth body
  | branch condition body => by
    rw [mapValues, lines, lines]
    exact List.rel_append (.cons (.branch depth condition) (linesAll_folded (depth + 1) body))
      (.cons (.same _) .nil)
  | loop condition body => by
    rw [mapValues, lines, lines]
    exact List.rel_append (.cons (.loop depth condition) (linesAll_folded (depth + 1) body))
      (.cons (.same _) .nil)
  | declare slot _ value | assign slot value => by
    rw [mapValues, lines, lines]
    exact .cons (.store depth slot value) .nil
  | assignField object field value => by
    rw [mapValues, lines, lines]
    exact .cons (.field depth object field value) .nil
  | call name args => by
    rw [mapValues, lines, lines]
    exact .cons (.call depth name args) .nil
  | stop | next => by
    rw [mapValues, lines]
    exact .cons (.same _) .nil
  | noop => by
    rw [mapValues, lines]
    exact .nil

theorem linesAll_folded (depth : Nat) : ∀ body : List Action,
    List.Forall₂ (Line.Folded store) (linesAll store depth body)
      (linesAll store depth (mapValuesBody Value.fold body))
  | [] => .nil
  | a :: as => by
    rw [mapValuesBody, linesAll, linesAll]
    exact List.rel_append (lines_folded depth a) (linesAll_folded depth as)

end

end Action

/-! ## Rules -/

namespace Rule

theorem lines_fold (store : String) (r : Rule) :
    r.fold.lines store = (r.mapValues Value.fold).lines store := by
  simp only [lines, fold, mapValues, Action.linesAll_foldBody]

/-- The lines of a rule and those of the folded rule go together one by one. -/
theorem lines_folded (store : String) (r : Rule) :
    List.Forall₂ (Line.Folded store) (r.lines store) (r.fold.lines store) := by
  have hsame : ∀ ls : List Line, List.Forall₂ (Line.Folded store) ls ls :=
    fun ls => List.forall₂_same.mpr fun l _ => .same l
  rw [lines_fold, lines, lines]
  exact List.rel_append (List.rel_append (hsame _) (Action.linesAll_folded store 2 r.body))
    (hsame _)

theorem script_fold (store : String) (rules : List Rule) :
    script store (foldAll rules) = script store (rules.map (mapValues Value.fold)) := by
  simp only [script, foldAll, List.map_map, Function.comp_def, lines_fold]

/-- **Dropping actions leaves no trace in the text.** The text of folded rules is that of the rules
with all their actions, each value folded where it stands. Hence each rule has the same lines at the
same indent before and after folding, up to the values in them; and a source text is compiled to
these two texts with and without folding, if it is compiled at all. -/
theorem script_foldAll (store : String) (rules : List Rule) :
    script store (foldAll rules) = script store (rules.map (mapValues Value.fold)) ∧
    List.Forall₂ (fun r s => r.name = s.name ∧ r.trigger = s.trigger ∧
      List.Forall₂ (Line.Folded store) (r.lines store) (s.lines store)) rules (foldAll rules) ∧
    ∀ (options : Options) (source : String),
      (compileSource { options with optimize := true } source).result =
        (analyzeSource options source).result.map
          (fun rules => script options.variableArray (rules.map (mapValues Value.fold))) ∧
      (compileSource { options with optimize := false } source).result =
        (analyzeSource options source).result.map (script options.variableArray) := by
  refine ⟨script_fold store rules, ?_, ?_⟩
  · rw [foldAll, List.forall₂_map_right_iff, List.forall₂_same]
    intro r _
    exact ⟨rfl, rfl, lines_folded store r⟩
  · intro options source
    have hanalyze : ∀ optimize, analyzeSource { options with optimize } source =
        analyzeSource options source := fun _ => rfl
    simp only [compileSource, hanalyze, Logged.andThen]
    cases (analyzeSource options source).result with
    | error e => exact ⟨rfl, rfl⟩
    | ok rules =>
      refine ⟨?_, rfl⟩
      show Except.ok (script _ (foldAll rules)) = Except.ok _
      rw [script_fold]

end Rule

end RuleScript
