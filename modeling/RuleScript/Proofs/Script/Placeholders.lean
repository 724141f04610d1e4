import Mathlib
import RuleScript.Compile
import RuleScript.Proofs.Lowering.Emission
import RuleScript.Proofs.Script.Recovery
import RuleScript.Proofs.Syntax.Names
import RuleScript.Proofs.Syntax.Words

/-!
# Placeholders

The target takes braces in a quoted text for places that values are put into. A program asks for
such places by a format, and joining two texts is written with a format too. No other text may have
braces, or a value would be put where none was meant.

A text in a rule is a literal or the text of a type. The first has no braces because lowering
refuses them. The second has the names in the type, and those that come from the program are words
of its source: letters, digits and underscores.

Nothing but the texts in a rule is ever quoted. The constants and the names of actions and values
are those of the tables, fields are words of the source, and none of them holds a mark.

## Main definitions

* `Script.Entry.Quotes`: a property of all that stands between quotes in the actions of a rule
* `Rule.Formats`: the texts that have braces for a reason
* `Rule.BracesInFormats`: no other text of a rule has braces

## Main results

* `Action.quotes_stepsBody`: what a rule text has between quotes is brought by a value in the rule
* `analyzeSource_braces`: braces come from formats only, before and after folding
* `analyzeSource_words`: what stands outside of quotes opens none
* `analyzeSource_read`: the rules of a source are read back from their text
-/

namespace RuleScript

open Text (OneLine Plain isBrace)
open Lexer (IsWord)

/-! ## Quotes -/

/-- The property holds of all that stands between quotes in the actions of the entry. -/
def Script.Entry.Quotes (Q : String → Prop) (e : Script.Entry) : Prop :=
  Script.Step.AllOf (fun _ => True) Q e.body

theorem Term.quotes_ofConstant {Q : String → Prop} (s : String) :
    (ofConstant s).All (fun _ => True) Q := by
  unfold ofConstant
  split
  · split
    · exact ⟨trivial, trivial, trivial⟩
    · trivial
  · trivial

/-- What the text of a body has between quotes is brought by the values in the body. -/
theorem Action.quotes_stepsBody {Q : String → Prop} {store : String} {body : List Action}
    (h : Throughout (fun _ => True) (Value.Brings (fun _ => True) Q) body) :
    Script.Step.AllOf (fun _ => True) Q (stepsBody store body) := by
  refine all_stepsBody (fun _ _ => trivial) ⟨trivial, trivial⟩ body
    (h.mono (fun a _ => ?_) fun _ => id)
  cases a <;> trivial

/-! ## Texts -/

theorem Lexer.IsWord.plain {s : String} (h : IsWord s) : Plain s := by
  intro c hc
  rw [isBrace, Bool.or_eq_false_iff, beq_eq_false_iff_ne, beq_eq_false_iff_ne]
  constructor
  · rintro rfl
    exact h.not_mem (by decide) hc
  · rintro rfl
    exact h.not_mem (by decide) hc

/-- If the value is a text then it has no braces. -/
def Value.PlainText (v : Value) : Prop := ∀ ty s, v = .string ty s → Plain s

theorem Value.plainText_foldParts {v : Value} (h : v.PlainText) : v.foldParts.PlainText := by
  cases v with
  | string => exact h
  | _ => exact nofun

/-! ## Names -/

theorem Value.named_foldParts {v : Value} (h : v.Named) : v.foldParts.Named := by
  cases v <;> exact h

theorem Action.registered_fold {a : Action} (h : a.Registered) : a.fold.Registered := by
  cases a with
  | block body =>
    rw [fold]
    cases foldBody body <;> trivial
  | _ => exact h

theorem Value.Written.named {v : Value} (h : v.Written IsWord) : v.Named := by
  cases v with
  | call _ name _ =>
    obtain ⟨f, hf, rfl, -⟩ := h.conforms
    exact List.mem_map_of_mem hf
  | constant ty text => exact h.constant ty text rfl
  | _ => trivial

theorem Action.Written.registered {a : Action} (h : a.Written IsWord) : a.Registered := by
  cases a with
  | call name _ =>
    obtain ⟨f, hf, rfl, -⟩ := h.conforms
    exact List.mem_map_of_mem hf
  | assignField object field value => exact h.field object field value rfl
  | _ => trivial

theorem Value.Written.plainText {v : Value} (h : v.Written IsWord) : v.PlainText := by
  intro ty s hs
  rcases h.text ty s hs with hplain | ⟨t, ht, rfl⟩
  · exact hplain
  · exact Ty.made_text (by decide) t (ht.mono fun _ => IsWord.plain)

/-! ## Rules -/

namespace Rule

variable {r : Rule}

/-- All values in the rule, at any depth. -/
def nodes (r : Rule) : List Value :=
  (Action.nodesBody r.body).flatMap fun a => a.values.flatMap Value.nodes

theorem mem_nodes {v : Value} :
    v ∈ r.nodes ↔ ∃ a ∈ Action.nodesBody r.body, ∃ w ∈ a.values, v ∈ w.nodes := by
  simp [nodes]

/-- A property of all values in the rule. -/
theorem throughout_nodes {N : Value → Prop} :
    Action.Throughout (fun _ => True) N r.body ↔ ∀ v ∈ r.nodes, N v := by
  constructor
  · intro h v hv
    obtain ⟨a, ha, w, hw, hv⟩ := mem_nodes.mp hv
    exact (h a ha).2 w hw v hv
  · intro h a ha
    exact ⟨trivial, fun w hw v hv => h v (mem_nodes.mpr ⟨a, ha, w, hw, hv⟩)⟩

/-- The text has braces for a reason: the rule has it as a format, or it is the format that joins
two texts and the rule joins some. -/
def Formats (r : Rule) (content : String) : Prop :=
  (∃ ty, .template ty content ∈ r.nodes) ∨
  content = "\x7b0\x7d\x7b1\x7d" ∧ ∃ lhs rhs, .binary .string .add lhs rhs ∈ r.nodes

/-- The texts in the rule have no braces, and what the text of the rule has between quotes has none
either unless it is a format. -/
structure BracesInFormats (r : Rule) : Prop where
  texts : ∀ ty s, .string ty s ∈ r.nodes → Plain s
  quotes : ∀ store, (r.entry store).Quotes fun content => Plain content ∨ r.Formats content

theorem bracesInFormats_of_plainText (hplain : ∀ v ∈ r.nodes, v.PlainText) :
    r.BracesInFormats := by
  refine ⟨fun ty s hs => hplain _ hs ty s rfl, fun store => ?_⟩
  refine Action.quotes_stepsBody (throughout_nodes.mpr fun v hv => ?_)
  cases v with
  | binary ty op lhs rhs =>
    -- Only the sum of two texts is written with a format of its own.
    rintro rfl rfl
    exact .inr (.inr ⟨rfl, lhs, rhs, hv⟩)
  | template ty content => exact .inr (.inl ⟨ty, hv⟩)
  | string ty s => exact .inl (hplain _ hv ty s rfl)
  | constant ty text => exact Term.quotes_ofConstant text
  | _ => trivial

variable {rules : List Rule}

/-- Folding makes up no texts. -/
theorem plainText_foldAll (hconsistent : ∀ r ∈ rules, r.Consistent)
    (h : ∀ r ∈ rules, ∀ v ∈ r.nodes, v.PlainText) :
    ∀ r ∈ foldAll rules, ∀ v ∈ r.nodes, v.PlainText := by
  have hfolded := throughout_foldAll (A := fun _ => True) (N := Value.PlainText)
    (fun _ _ _ => trivial) (fun _ => nofun) (fun _ => nofun)
    (fun _ _ => Value.plainText_foldParts) hconsistent fun r hr => throughout_nodes.mpr (h r hr)
  exact fun r hr => throughout_nodes.mp (hfolded r hr)

/-- Folding makes up no names. -/
theorem named_foldAll (hconsistent : ∀ r ∈ rules, r.Consistent) (h : ∀ r ∈ rules, r.Named) :
    ∀ r ∈ foldAll rules, r.Named := by
  have hbodies := throughout_foldAll (A := Action.Registered) (N := Value.Named)
    (fun _ _ => Action.registered_fold) (fun _ => trivial) (fun _ => trivial)
    (fun _ _ => Value.named_foldParts) hconsistent fun r hr => (h r hr).body
  intro r hr
  have hbody := hbodies r hr
  obtain ⟨s, hs, rfl⟩ := List.mem_map.mp hr
  exact ⟨(h s hs).name, (h s hs).trigger, hbody⟩

/-- The rule can be read back if no text in it has the end of a line. -/
theorem Named.registered (h : r.Named)
    (htexts : ∀ ty s, .string ty s ∈ r.nodes ∨ .template ty s ∈ r.nodes → OneLine s) :
    r.Registered := by
  refine ⟨h.name, h.trigger, fun a ha => ⟨(h.body a ha).1, fun v hv w hw => ?_⟩⟩
  have hnamed := (h.body a ha).2 v hv w hw
  have hmem : w ∈ r.nodes := mem_nodes.mpr ⟨a, ha, v, hv, hw⟩
  cases w with
  | string ty s => exact htexts ty s (.inl hmem)
  | template ty s => exact htexts ty s (.inr hmem)
  | _ => exact hnamed

end Rule

/-! ## Sources -/

section

variable {options : Options} {source : String} {rules : List Rule}

/-- The rules of a source are those that a program is lowered to whose names are words. -/
theorem lower_of_analyzeSource (h : (analyzeSource options source).result = .ok rules) :
    ∃ (program : Program) (st : LowerState),
      program.Spelled IsWord ∧ program.lower options = .ok rules st := by
  unfold analyzeSource Logged.andThen at h
  split at h
  · cases h
  rename_i program hprogram
  unfold parseSource at hprogram
  split at hprogram
  · cases hprogram
  rename_i tokens htokens
  have hspelled : program.Spelled IsWord := Program.spelled_of_ofLexemes
    (fun l hl name hname => Lexeme.isWord_of_ofSource htokens hl hname) hprogram
  unfold analyzeProgram at h
  split at h
  · rename_i rules' st hlower
    cases h
    exact ⟨program, st, hspelled, hlower⟩
  · cases h

/-- **Braces come from formats only.** In the rules of a source, and in those rules after folding,
no text has a brace. What the text of these rules has between quotes has none either, unless it is
a format of the rule or the one that joins two texts. -/
theorem analyzeSource_braces (h : (analyzeSource options source).result = .ok rules) :
    ∀ rules' ∈ [rules, Rule.foldAll rules], (∀ r ∈ rules', r.BracesInFormats) ∧
      ∀ store, Rule.script store rules' =
        Rule.render (Script.lines store (rules'.map (Rule.entry store))) := by
  obtain ⟨program, st, hspelled, hlower⟩ := lower_of_analyzeSource h
  have hwritten := Program.lower_wellWritten (fun _ => id) hspelled hlower
  have hplain : ∀ r ∈ rules, ∀ v ∈ r.nodes, v.PlainText := fun r hr =>
    Rule.throughout_nodes.mp ((hwritten r hr).body.mono (fun _ _ => trivial) fun _ hv =>
      hv.plainText)
  have hfolded := Rule.plainText_foldAll (Program.consistent_of_lower hlower) hplain
  intro rules' hrules'
  refine ⟨?_, fun store => Rule.script_eq store rules'⟩
  simp only [List.mem_cons, List.not_mem_nil, or_false] at hrules'
  rcases hrules' with rfl | rfl
  · exact fun r hr => Rule.bracesInFormats_of_plainText (hplain r hr)
  · exact fun r hr => Rule.bracesInFormats_of_plainText (hfolded r hr)

/-- The names in the rules of a source are those of the tables, also once folded. -/
theorem analyzeSource_named (h : (analyzeSource options source).result = .ok rules) :
    ∀ rules' ∈ [rules, Rule.foldAll rules], ∀ r ∈ rules', r.Named := by
  obtain ⟨program, st, hspelled, hlower⟩ := lower_of_analyzeSource h
  have hnamed : ∀ r ∈ rules, r.Named := fun r hr => by
    have hwritten := Program.lower_wellWritten (fun _ => id) hspelled hlower r hr
    exact ⟨hwritten.name, hwritten.trigger,
      hwritten.body.mono (fun _ ha => ha.registered) fun _ hv => hv.named⟩
  intro rules' hrules'
  simp only [List.mem_cons, List.not_mem_nil, or_false] at hrules'
  rcases hrules' with rfl | rfl
  · exact hnamed
  · exact Rule.named_foldAll (Program.consistent_of_lower hlower) hnamed

/-- **Words bring no quotes.** In the text of the rules of a source, also once folded, no constant,
name, field, slot or number holds a quote or any other mark, nor does the name of the store if it
was chosen so. All that stands between quotes there is thus the text of a value. -/
theorem analyzeSource_words (h : (analyzeSource options source).result = .ok rules)
    {store : String} (hstore : Term.Word store) :
    ∀ rules' ∈ [rules, Rule.foldAll rules], ∀ r ∈ rules', (r.entry store).Words Term.Word :=
  fun rules' hrules' r hr => (analyzeSource_named h rules' hrules' r hr).words hstore

/-- **The rules of a source are read back from their text**, also once folded, if no text in them
has the end of a line. -/
theorem analyzeSource_read (h : (analyzeSource options source).result = .ok rules)
    {store : String} (hstore : Term.Word store) : ∀ rules' ∈ [rules, Rule.foldAll rules],
      (∀ r ∈ rules', ∀ ty s, .string ty s ∈ r.nodes ∨ .template ty s ∈ r.nodes → OneLine s) →
      Script.read (Rule.script store rules') = some (rules'.map (Rule.entry store)) := by
  intro rules' hrules' htexts
  rw [Rule.script_eq]
  refine Script.read_render hstore.2 fun e he => ?_
  obtain ⟨r, hr, rfl⟩ := List.mem_map.mp he
  have hnamed := analyzeSource_named h rules' hrules' r hr
  exact Rule.readable_entry hstore (hnamed.registered (htexts r hr))

end

/-- A source with the text of a type that a call binds, two texts that are joined, and a format. -/
def announcementSource : String :=
  "function f<T>(x: T): string \x7b return typeof [x] + \"s\"; \x7d "
    ++ "event client(p) \x7b smallMessage(p, format(\"\x7b0\x7d\", f(p))); \x7d"

theorem analyzeSource_braces_announcementSource :
    ∃ rules, (analyzeSource {} announcementSource).result = .ok rules ∧
      ∀ rules' ∈ [rules, Rule.foldAll rules], (∀ r ∈ rules', r.BracesInFormats) ∧
        ∀ store, Rule.script store rules' =
          Rule.render (Script.lines store (rules'.map (Rule.entry store))) := by
  have hok : (analyzeSource {} announcementSource).result.isOk = true := by cbv
  cases h : (analyzeSource {} announcementSource).result with
  | error e =>
    rw [h] at hok
    cases hok
  | ok rules => exact ⟨rules, rfl, analyzeSource_braces h⟩

end RuleScript
