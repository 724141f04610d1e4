import RuleScript.Proofs.Nodes
import RuleScript.Proofs.Script.Term
import RuleScript.Rule.Text

/-!
# What a rule text says

The text of a rule says less than the rule. A block leaves nothing but the actions in it, the first
value of a variable is written as any other one, and the type of a value is not written at all. What
is left is a tree of terms: each action is one term, or a condition with the actions it guards. The
text of a rule is the text of its tree.

## Main definitions

* `Value.term`: the term that a value is written as
* `Script.Step`, `Script.Entry`: what a text says of an action and of a rule
* `Rule.entry`: what the text of a rule says
* `Value.Brings`, `Action.Brings`: a property of the words that a value or an action itself has in
  its text, and another of what it has between quotes

## Main results

* `Value.text_term`: the text of a value is that of its term
* `Rule.script_eq`: the text of rules is that of their entries
* `Value.all_term`, `Action.all_stepsBody`: all words and quotes are brought by a value or an action
-/

namespace RuleScript

/-! ## Values -/

namespace Term

/-- The term of a text of the target that may have one argument in parentheses. -/
def ofConstant (s : String) : Term :=
  match s.toList.dropWhile (· ≠ '(') with
  | '(' :: arg =>
    if arg.getLast? = some ')' then
      app (String.ofList (s.toList.takeWhile (· ≠ '('))) (word (String.ofList arg.dropLast)) []
    else word s
  | _ => word s

/-- The term of an operation, given the terms of its operands. -/
def ofBinary (ty : Ty) (op : BinOp) (l r : Term) : Term :=
  match op with
  | .add =>
    if ty = .string then app "Custom String" (quoted "\x7b0\x7d\x7b1\x7d") [l, r]
    else app "Add" l [r]
  | .sub => app "Subtract" l [r]
  | .mul => app "Multiply" l [r]
  | .div => app "Divide" l [r]
  | .and => app "And" l [r]
  | .or => app "Or" l [r]
  | .eq | .ne | .lt | .le | .gt | .ge => app "Compare" l [word op.spelling, r]

/-- The term of an array, given the terms of its items. -/
def ofItems : List Term → Term
  | [] => word "Empty Array"
  | items => call "Array" items

end Term

namespace Value

mutual

/-- The term that a value is written as. -/
def term (store : String) : Value → Term
  | binary ty op lhs rhs => .ofBinary ty op (lhs.term store) (rhs.term store)
  | not _ operand => .app "Not" (operand.term store) []
  | index _ a i => .app "Value In Array" (a.term store) [i.term store]
  | call _ name args => .call name (terms store args)
  | constant _ s => .ofConstant s
  | read _ slot => .app "Value In Array" (.word ("Global." ++ store)) [.word slot.repr]
  | number _ x => .word (numberText x)
  | string _ s => .app "Custom String" (.quoted s) []
  | template _ s => .quoted s
  | boolean _ b => .word (if b then "True" else "False")
  | array _ items => .ofItems (terms store items)

/-- The terms that some values are written as. -/
def terms (store : String) : List Value → List Term
  | [] => []
  | v :: vs => v.term store :: terms store vs

end

end Value

/-! ## Rules -/

namespace Script

/-- What a text says of an action. -/
inductive Step
  | plain (t : Term)
  | branch (condition : Term) (body : List Step)
  | loop (condition : Term) (body : List Step)

/-- What a text says of a rule. -/
structure Entry where
  name : String
  trigger : String
  body : List Step

end Script

namespace Action

open Script

mutual

/-- What the text of an action says. -/
def steps (store : String) : Action → List Step
  | block body => stepsBody store body
  | branch condition body => [.branch (condition.term store) (stepsBody store body)]
  | loop condition body => [.loop (condition.term store) (stepsBody store body)]
  | declare slot _ value | assign slot value =>
    [.plain (.app "Set Global Variable At Index" (.word store)
      [.word slot.repr, value.term store])]
  | assignField object field value =>
    [.plain (.app "Set Player Variable" (object.term store) [.word field, value.term store])]
  | call name args => [.plain (.call name (Value.terms store args))]
  | stop => [.plain (.word "Break")]
  | next => [.plain (.word "Continue")]
  | noop => []

/-- What the text of a body says. -/
def stepsBody (store : String) : List Action → List Step
  | [] => []
  | a :: as => a.steps store ++ stepsBody store as

end

end Action

/-- What the text of a rule says. -/
def Rule.entry (store : String) (r : Rule) : Script.Entry :=
  ⟨r.name, r.trigger, Action.stepsBody store r.body⟩

/-! ## Writing -/

namespace Script

namespace Step

mutual

/-- The lines of a step at a depth. -/
def lines (depth : Nat) : Step → List Line
  | plain t => [⟨depth, t.text ++ ";"⟩]
  | branch condition body =>
    ⟨depth, (Term.app "If" condition []).text ++ ";"⟩ :: linesAll (depth + 1) body
      ++ [⟨depth, (Term.word "End").text ++ ";"⟩]
  | loop condition body =>
    ⟨depth, (Term.app "While" condition []).text ++ ";"⟩ :: linesAll (depth + 1) body
      ++ [⟨depth, (Term.word "End").text ++ ";"⟩]

/-- The lines of some steps at a depth. -/
def linesAll (depth : Nat) : List Step → List Line
  | [] => []
  | s :: ss => s.lines depth ++ linesAll depth ss

end

theorem linesAll_append (depth : Nat) (ss ts : List Step) :
    linesAll depth (ss ++ ts) = linesAll depth ss ++ linesAll depth ts := by
  induction ss with
  | nil => rfl
  | cons s ss ih => rw [List.cons_append, linesAll, linesAll, ih, List.append_assoc]

end Step

/-- The lines of an entry. -/
def Entry.lines (e : Entry) : List Line :=
  [⟨0, (Term.app "rule" (.quoted e.name) []).text ++ " \x7b"⟩,
   ⟨1, "event \x7b"⟩,
   ⟨2, (Term.word e.trigger).text ++ ";"⟩,
   ⟨2, "All;"⟩,
   ⟨2, "All;"⟩,
   ⟨1, "\x7d"⟩,
   ⟨1, "actions \x7b"⟩]
  ++ Step.linesAll 2 e.body
  ++ [⟨1, "\x7d"⟩, ⟨0, "\x7d"⟩]

/-- The lines of a script: the header, and each entry after an empty line. -/
def lines (store : String) (entries : List Entry) : List Line :=
  Rule.header store ++ entries.flatMap fun e => ⟨0, ""⟩ :: e.lines

end Script

/-! ## The text of a rule is that of its tree -/

namespace Term

theorem text_app (head : String) (arg : Term) :
    (app head arg []).text = head ++ "(" ++ arg.text ++ ")" := by
  simp [text, texts]

theorem text_app₂ (head : String) (arg arg' : Term) :
    (app head arg [arg']).text = head ++ "(" ++ arg.text ++ ", " ++ arg'.text ++ ")" := by
  simp [text, texts, String.intercalate_cons_cons, String.append_assoc]

theorem text_app₃ (head : String) (arg arg' arg'' : Term) :
    (app head arg [arg', arg'']).text =
      head ++ "(" ++ arg.text ++ ", " ++ arg'.text ++ ", " ++ arg''.text ++ ")" := by
  simp [text, texts, String.intercalate_cons_cons, String.append_assoc]

theorem text_call (head : String) (args : List Term) :
    (call head args).text = Value.callText head (texts args) := by
  cases args with
  | nil => rfl
  | cons arg args => rfl

theorem text_ofItems (items : List Term) :
    (ofItems items).text = Value.arrayText (texts items) := by
  cases items with
  | nil => rfl
  | cons t ts => rfl

theorem text_ofBinary (ty : Ty) (op : BinOp) (l r : Term) :
    (ofBinary ty op l r).text = Value.binaryText ty op l.text r.text := by
  cases op with
  | add =>
    show (if ty = .string then _ else _ : Term).text = if ty = .string then _ else _
    split
    · have hformat : (quoted "\x7b0\x7d\x7b1\x7d").text = "\"\x7b0\x7d\x7b1\x7d\"" := by
        decide +kernel
      rw [text_app₃, hformat]
      rfl
    · exact text_app₂ _ _ _
  | sub | mul | div | and | or => exact text_app₂ _ _ _
  | eq | ne | lt | le | gt | ge => exact text_app₃ _ _ _ _

/-- A text of the target is the text of its term, whether it has parentheses or not. -/
theorem text_ofConstant (s : String) : (ofConstant s).text = s := by
  rw [ofConstant]
  split
  · rename_i arg harg
    split
    · -- The text ends with a parenthesis, so it is cut at the first one and at its end.
      rename_i hlast
      obtain ⟨inner, rfl⟩ := List.getLast?_eq_some_iff.mp hlast
      have hsplit : s.toList.takeWhile (· ≠ '(') ++ '(' :: (inner ++ [')']) = s.toList := by
        rw [← harg, List.takeWhile_append_dropWhile]
      apply String.toList_inj.mp
      refine Eq.trans ?_ hsplit
      rw [text_app]
      simp [text]
    · rfl
  · rfl

end Term

namespace Value

variable (store : String)

mutual

/-- **The text of a value** is that of its term. -/
theorem text_term : ∀ v : Value, (v.term store).text = v.text store
  | binary ty op lhs rhs => by
    show _ = binaryText ty op (lhs.text store) (rhs.text store)
    rw [term, Term.text_ofBinary, text_term lhs, text_term rhs]
  | not _ operand => by
    show _ = "Not(" ++ operand.text store ++ ")"
    simp [term, Term.text_app, text_term operand]
  | index _ a i => by
    show _ = "Value In Array(" ++ a.text store ++ ", " ++ i.text store ++ ")"
    simp [term, Term.text_app₂, text_term a, text_term i]
  | call _ name args => by
    show _ = callText name (texts store args)
    rw [term, Term.text_call, texts_terms args]
  | constant _ s => Term.text_ofConstant s
  | read _ slot => by
    show _ = "Value In Array(Global." ++ store ++ ", " ++ slot.repr ++ ")"
    simp [term, Term.text_app₂, Term.text, ← String.toList_inj]
  | string _ s => by
    show _ = "Custom String(\"" ++ Text.escape s ++ "\")"
    simp [term, Term.text_app, Term.text, ← String.toList_inj]
  | number _ _ | boolean _ _ | template _ _ => rfl
  | array _ items => by
    show _ = arrayText (texts store items)
    rw [term, Term.text_ofItems, texts_terms items]

theorem texts_terms : ∀ vs : List Value, Term.texts (terms store vs) = texts store vs
  | [] => rfl
  | v :: vs => by
    show _ = v.text store :: texts store vs
    rw [terms, Term.texts, text_term v, texts_terms vs]

end

end Value

namespace Action

open Script

variable (store : String)

mutual

theorem lines_steps (depth : Nat) : ∀ a : Action,
    Step.linesAll depth (a.steps store) = a.lines store depth
  | block body => by
    rw [steps, lines]
    exact linesAll_stepsBody depth body
  | branch condition body | loop condition body => by
    simp only [steps, lines, Step.linesAll, Step.lines, List.append_nil, Term.text_app,
      Value.text_term, linesAll_stepsBody (depth + 1) body]
    simp [Term.text, ← String.toList_inj]
  | declare slot _ value | assign slot value => by
    have hstore : storeText store slot value = "Set Global Variable At Index(" ++ store ++ ", "
        ++ slot.repr ++ ", " ++ value.text store ++ ");" := rfl
    simp only [steps, lines, Step.linesAll, Step.lines, List.append_nil, Term.text_app₃,
      Value.text_term, hstore]
    simp [Term.text, ← String.toList_inj]
  | assignField object field value => by
    simp only [steps, lines, Step.linesAll, Step.lines, List.append_nil, Term.text_app₃,
      Value.text_term]
    simp [Term.text, ← String.toList_inj]
  | call name args => by
    simp only [steps, lines, Step.linesAll, Step.lines, List.append_nil, Term.text_call,
      Value.texts_terms]
  | stop | next => by
    simp [steps, lines, Step.linesAll, Step.lines, Term.text]
  | noop => by
    simp only [steps, lines, Step.linesAll]

/-- The lines of a body are those of what they say. -/
theorem linesAll_stepsBody (depth : Nat) : ∀ body : List Action,
    Step.linesAll depth (stepsBody store body) = linesAll store depth body
  | [] => by simp only [stepsBody, linesAll, Step.linesAll]
  | a :: as => by
    rw [stepsBody, Step.linesAll_append, lines_steps depth a, linesAll_stepsBody depth as, linesAll]

end

end Action

namespace Rule

theorem lines_entry (store : String) (r : Rule) : (r.entry store).lines = r.lines store := by
  simp only [Script.Entry.lines, entry, lines, Action.linesAll_stepsBody, Term.text_app]
  simp [Term.text, ← String.toList_inj]

/-- **The text of rules** is that of their entries. -/
theorem script_eq (store : String) (rules : List Rule) :
    script store rules = render (Script.lines store (rules.map (entry store))) := by
  have hblank : (Line.mk 0 "").render = "\n" := by simp [Line.render]
  apply String.toList_inj.mp
  simp [script, render, Script.lines, lines_entry, hblank, List.flatMap_assoc, List.flatMap_map]

end Rule

/-! ## Words and quotes -/

section Brings

variable {W Q : String → Prop}

namespace Term

/-- The words for the operations and the shapes of values. -/
def fixedWords : List String :=
  ["Custom String", "Add", "Subtract", "Multiply", "Divide", "And", "Or", "Compare", "Not",
   "Value In Array", "Array", "Empty Array", "True", "False"]
  ++ [BinOp.eq, .ne, .lt, .le, .gt, .ge].map BinOp.spelling

theorem all_ofBinary (hfixed : ∀ w ∈ fixedWords, W w) {ty : Ty} {op : BinOp}
    (hformat : ty = .string → op = .add → Q "\x7b0\x7d\x7b1\x7d") {l r : Term} (hl : l.All W Q)
    (hr : r.All W Q) : (ofBinary ty op l r).All W Q := by
  cases op with
  | add =>
    show (if ty = .string then _ else _ : Term).All W Q
    split
    case isTrue hty => exact ⟨hfixed _ (by decide), hformat hty rfl, hl, hr, trivial⟩
    case isFalse => exact ⟨hfixed _ (by decide), hl, hr, trivial⟩
  | sub | mul | div | and | or => exact ⟨hfixed _ (by decide), hl, hr, trivial⟩
  | eq | ne | lt | le | gt | ge =>
    exact ⟨hfixed _ (by decide), hl, hfixed _ (by decide), hr, trivial⟩

theorem all_ofItems (hfixed : ∀ w ∈ fixedWords, W w) {items : List Term} (h : AllOf W Q items) :
    (ofItems items).All W Q := by
  cases items with
  | nil => exact hfixed _ (by decide)
  | cons t ts => exact ⟨hfixed _ (by decide), h⟩

end Term

namespace Value

/-- The words that the value itself has in its text have a property, and what it has between quotes
has another. Two texts are joined by a format for them. -/
def Brings (W Q : String → Prop) : Value → Prop
  | binary ty op _ _ => ty = .string → op = .add → Q "\x7b0\x7d\x7b1\x7d"
  | call _ name _ => W name
  | constant _ text => (Term.ofConstant text).All W Q
  | read _ slot => W slot.repr
  | number _ x => W (numberText x)
  | string _ s | template _ s => Q s
  | not _ _ | index _ _ _ | boolean _ _ | array _ _ => True

theorem all_terms {store : String} {vs : List Value} (h : ∀ v ∈ vs, (v.term store).All W Q) :
    Term.AllOf W Q (terms store vs) := by
  induction vs with
  | nil => trivial
  | cons v vs ih =>
    obtain ⟨hv, hvs⟩ := List.forall_mem_cons.mp h
    exact ⟨hv, ih hvs⟩

/-- **The words and quotes of a value** are those that the values inside it bring, but for those of
the target and the store. -/
theorem all_term {store : String} (hfixed : ∀ w ∈ Term.fixedWords, W w)
    (hstore : W ("Global." ++ store)) (v : Value) :
    v.Throughout (Brings W Q) → (v.term store).All W Q := by
  induction v using induct_parts with
  | h v ih =>
    intro h
    obtain ⟨hself, hinside⟩ := (throughout_iff v).mp h
    have hparts : ∀ w ∈ v.parts, (w.term store).All W Q := fun w hw => ih w hw (hinside w hw)
    -- What is left of each term is a fixed word, or one that the value brings itself.
    cases v with
    | binary ty op lhs rhs =>
      exact Term.all_ofBinary hfixed hself (hparts lhs (by simp)) (hparts rhs (by simp))
    | not _ operand => exact ⟨hfixed _ (by decide), hparts operand (by simp), trivial⟩
    | index _ a place =>
      exact ⟨hfixed _ (by decide), hparts a (by simp), hparts place (by simp), trivial⟩
    | call _ name args => exact Term.all_call hself (all_terms hparts)
    | array _ items => exact Term.all_ofItems hfixed (all_terms hparts)
    | read _ slot => exact ⟨hfixed _ (by decide), hstore, hself, trivial⟩
    | string _ s => exact ⟨hfixed _ (by decide), hself, trivial⟩
    | boolean _ b =>
      show W (if b then "True" else "False")
      split <;> exact hfixed _ (by decide)
    | constant _ _ | number _ _ | template _ _ => exact hself

end Value

namespace Script.Step

mutual

/-- One property holds of all words in the step, and another of all that is quoted in it. -/
def All (W Q : String → Prop) : Step → Prop
  | plain t => t.All W Q
  | branch condition body | loop condition body => condition.All W Q ∧ AllOf W Q body

/-- One property holds of all words in the steps, and another of all that is quoted in them. -/
def AllOf (W Q : String → Prop) : List Step → Prop
  | [] => True
  | s :: ss => s.All W Q ∧ AllOf W Q ss

end

theorem allOf_append {ss ts : List Step} (hss : AllOf W Q ss) (hts : AllOf W Q ts) :
    AllOf W Q (ss ++ ts) := by
  induction ss with
  | nil => exact hts
  | cons s ss ih => exact ⟨hss.1, ih hss.2⟩

/-- The words for the actions that are no calls. -/
def fixedWords : List String :=
  ["Set Global Variable At Index", "Set Player Variable", "Break", "Continue"]

end Script.Step

namespace Action

open Script

/-- The words that the action itself has in its text have a property. -/
def Brings (W : String → Prop) : Action → Prop
  | declare slot _ _ | assign slot _ => W slot.repr
  | assignField _ field _ => W field
  | call name _ => W name
  | block _ | branch _ _ | loop _ _ | stop | next | noop => True

/-- **The words and quotes of a body** are those that the actions and values in it bring, but for
those of the target and the store. -/
theorem all_stepsBody {store : String} (hfixed : ∀ w ∈ Term.fixedWords ++ Step.fixedWords, W w)
    (hstore : W store ∧ W ("Global." ++ store)) (body : List Action) :
    Throughout (Brings W) (Value.Brings W Q) body → Step.AllOf W Q (stepsBody store body) := by
  obtain ⟨hvalueWords, hactionWords⟩ := List.forall_mem_append.mp hfixed
  induction body using induct_body with
  | hnil =>
    intro _
    trivial
  | hcons a as hinner has =>
    intro h
    obtain ⟨hself, hvalues, hbelow, hothers⟩ := throughout_cons.mp h
    have hterms : ∀ v ∈ a.values, (v.term store).All W Q := fun v hv =>
      Value.all_term hvalueWords hstore.2 v (hvalues v hv)
    have hbody := hinner hbelow
    rw [stepsBody]
    refine Step.allOf_append ?_ (has hothers)
    cases a with
    | block body => exact hbody
    | branch condition body | loop condition body =>
      exact ⟨⟨hterms condition (by simp), hbody⟩, trivial⟩
    | declare slot _ value | assign slot value =>
      exact ⟨⟨hactionWords _ (by decide), hstore.1, hself, hterms value (by simp), trivial⟩,
        trivial⟩
    | assignField object field value =>
      exact ⟨⟨hactionWords _ (by decide), hterms object (by simp), hself,
        hterms value (by simp), trivial⟩, trivial⟩
    | call name args => exact ⟨Term.all_call hself (Value.all_terms hterms), trivial⟩
    | stop | next => exact ⟨hactionWords _ (by decide), trivial⟩
    | noop => trivial

end Action

end Brings

end RuleScript
