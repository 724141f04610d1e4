import RuleScript.Proofs.Lowering.Conformance
import RuleScript.Proofs.Nodes
import RuleScript.Proofs.Script.Reading
import RuleScript.Proofs.Syntax.Words
import RuleScript.Registry.Constants
import RuleScript.Registry.Events
import RuleScript.Registry.Functions

/-!
# Rules are read back from their text

A rule takes its names from the tables of the target, and its texts and numbers from a program. The
names are free of the marks of a rule text, and so are the texts of numbers. What a program puts
into quotes is not free of anything, but it is escaped. So nothing that stands in quotes can end
them, and the text of a rule says what the rule says.

## Main definitions

* `Rule.Named`: the names in a rule are those of the tables
* `Rule.Registered`: so they are, and the texts in the rule stand in one line each
* `Script.Entry.Words`: a property of all that stands outside of quotes

## Main results

* `Value.inline_numberText`: the text of a number is one word
* `Rule.Named.words`: nothing outside of quotes opens any
* `Rule.readable_entry`: what the text of such a rule says can be read back
* `Rule.read_script`: the reader recovers the rules and their indent
-/

namespace RuleScript

open Text (OneLine Fits)
open Lexer (IsWord isWordChar)

/-! ## Words -/

/-- What may stand in a rule text outside of quotes: no mark, and no end of a line. -/
abbrev Term.Word (s : String) : Prop := Unmarked s ∧ OneLine s

namespace Term

theorem word_append {s t : String} (hs : Word s) (ht : Word t) : Word (s ++ t) := by
  refine ⟨?_, Text.oneLine_append.mpr ⟨hs.2, ht.2⟩⟩
  intro c hc
  rw [String.toList_append] at hc
  rcases List.mem_append.mp hc with hc | hc
  · exact hs.1 c hc
  · exact ht.1 c hc

/-- Letters, digits, underscores, points and signs make a word. -/
theorem word_of_chars {s : String}
    (h : ∀ c ∈ s.toList, isWordChar c = true ∨ c = '-' ∨ c = '.') : Word s := by
  have hnone : ∀ c ∈ '\n' :: marks, ¬(isWordChar c = true ∨ c = '-' ∨ c = '.') := by
    simp only [marks, List.forall_mem_cons, List.not_mem_nil, false_implies, implies_true]
    decide
  constructor
  · intro c hc hmark
    exact hnone c (List.mem_cons_of_mem _ hmark) (h c hc)
  · intro hc
    exact hnone '\n' List.mem_cons_self (h '\n' hc)

theorem word_of_isWord {s : String} (h : IsWord s) : Word s :=
  word_of_chars fun c hc => .inl (h c hc)

/-- Whether a byte belongs to no mark and to no end of a line. -/
def isWordByte (b : UInt8) : Bool := !(('\n' :: marks).flatMap String.utf8EncodeChar).contains b

theorem word_of_bytes {s : String} (h : s.toByteArray.data.toList.all isWordByte = true) :
    Word s := by
  have hchars : ∀ c ∈ s.toList, c ∉ '\n' :: marks := by
    intro c hc hmark
    obtain ⟨b, hb⟩ := List.exists_mem_of_ne_nil _ (String.utf8EncodeChar_ne_nil (c := c))
    have hbytes : b ∈ s.toByteArray.data.toList := by
      rw [← String.utf8Encode_toList, List.utf8Encode, List.toList_data_toByteArray]
      exact List.mem_flatMap.mpr ⟨c, hc, hb⟩
    have hword := List.all_eq_true.mp h b hbytes
    rw [isWordByte, Bool.not_eq_true', List.contains_eq_mem, decide_eq_false_iff_not] at hword
    exact hword (List.mem_flatMap.mpr ⟨c, hmark, hb⟩)
  exact ⟨fun c hc hmark => hchars c hc (List.mem_cons_of_mem _ hmark),
    fun hc => hchars _ hc List.mem_cons_self⟩

/-- A constant that is a word has no argument. -/
theorem Word.inline_ofConstant {s : String} (h : Word s) : (ofConstant s).Inline := by
  have hparens : ∀ c ∈ s.toList, c ≠ '(' := by
    rintro c hc rfl
    exact h.1 _ hc List.mem_cons_self
  have hdrop : s.toList.dropWhile (· ≠ '(') = [] :=
    List.dropWhile_eq_nil_iff.mpr fun c hc => decide_eq_true (hparens c hc)
  rw [ofConstant, hdrop]
  exact h

end Term

theorem Lexer.isWordChar_of_isDigit {c : Char} (h : c.isDigit = true) : isWordChar c = true := by
  simp [isWordChar, Char.isAlphanum, h]

namespace Decimal

theorem isDigit_of_mem_trimZeros {digits : List Char} (h : ∀ c ∈ digits, c.isDigit = true) :
    ∀ c ∈ trimZeros digits, c.isDigit = true := by
  intro c hc
  unfold trimZeros at hc
  split at hc
  · rw [List.mem_singleton.mp hc]
    decide
  · have hmem := List.mem_reverse.mp hc
    exact h c (List.mem_reverse.mp ((List.dropWhile_sublist _).mem hmem))

theorem isDigit_of_mem_scientific (s : Scaled) : ∀ c ∈ s.scientific.digits, c.isDigit = true :=
  isDigit_of_mem_trimZeros fun _ hc => Nat.isDigit_of_mem_toDigits (by decide) (by decide) hc

/-- Without an exponent there are only digits and a point. -/
theorem mem_positionalText (l : Layout) {s : Scientific} (h : ∀ c ∈ s.digits, c.isDigit = true) :
    ∀ c ∈ l.positionalText s, c.isDigit = true ∨ c = '.' := by
  have hzero : ∀ {n c}, c ∈ List.replicate n '0' → c.isDigit = true ∨ c = '.' := by
    intro n c hc
    rw [List.eq_of_mem_replicate hc]
    exact .inl (by decide)
  intro c hc
  unfold Layout.positionalText at hc
  split at hc
  · simp only [List.cons_append, List.mem_cons, List.mem_append] at hc
    rcases hc with rfl | rfl | hc | hc
    · exact .inl (by decide)
    · exact .inr rfl
    · exact hzero hc
    · exact .inl (h c hc)
  · dsimp only at hc
    split at hc
    · simp only [List.mem_append] at hc
      rcases hc with (hc | hc) | hc
      · exact .inl (h c hc)
      · exact hzero hc
      · split at hc
        · simp only [List.mem_cons, List.not_mem_nil, or_false] at hc
          rcases hc with rfl | rfl
          · exact .inr rfl
          · exact .inl (by decide)
        · cases hc
    · simp only [List.mem_append, List.mem_cons] at hc
      rcases hc with hc | rfl | hc
      · exact .inl (h c (List.mem_of_mem_take hc))
      · exact .inr rfl
      · exact .inl (h c (List.mem_of_mem_drop hc))

/-- The plainest layout never writes an exponent. -/
theorem magnitudeText_plain (b : Binary) :
    ∃ s : Scaled, plain.magnitudeText b = plain.positionalText s.scientific := by
  refine ⟨if b.mantissa = 0 then ⟨0, 0⟩ else b.shortest plain.tie, ?_⟩
  rw [apply_ite Scaled.scientific]
  rfl

theorem mem_magnitudeText_plain (b : Binary) :
    ∀ c ∈ plain.magnitudeText b, c.isDigit = true ∨ c = '.' := by
  obtain ⟨s, hs⟩ := magnitudeText_plain b
  rw [hs]
  exact mem_positionalText _ (isDigit_of_mem_scientific s)

/-- In the plainest layout there is a sign at most, or a name made of letters. -/
theorem mem_render_plain (x : Float) :
    ∀ c ∈ (plain.render x).toList, isWordChar c = true ∨ c = '-' ∨ c = '.' := by
  intro c hc
  unfold Layout.render at hc
  split at hc
  · rename_i b _
    rw [String.toList_ofList, List.mem_append] at hc
    rcases hc with hsign | hmagnitude
    · split at hsign
      · exact .inr (.inl (List.mem_singleton.mp hsign))
      · cases hsign
    · rcases mem_magnitudeText_plain b c hmagnitude with hdigit | hpoint
      · exact .inl (Lexer.isWordChar_of_isDigit hdigit)
      · exact .inr (.inr hpoint)
  · have hnames : Lexer.IsWord "NaN" ∧ Lexer.IsWord "inf" := by decide
    split at hc
    · exact .inl (hnames.1 c hc)
    · split at hc
      · rw [show "-inf" = "-" ++ "inf" from rfl, String.toList_append] at hc
        rcases List.mem_append.mp hc with hsign | hname
        · exact .inr (.inl (List.mem_singleton.mp hsign))
        · exact .inl (hnames.2 c hname)
      · exact .inl (hnames.2 c hc)

end Decimal

/-- The text of a number is one word. -/
theorem Value.word_numberText (x : Float) : Term.Word (numberText x) := by
  unfold numberText
  split
  · decide
  · exact Term.word_of_chars (Decimal.mem_render_plain x)

theorem Slot.word_repr (slot : Slot) : Term.Word slot.repr := by
  apply Term.word_of_chars
  intro c hc
  rw [Nat.toList_repr] at hc
  exact .inl (Lexer.isWordChar_of_isDigit (Nat.isDigit_of_mem_toDigits (by decide) (by decide) hc))

/-! ## Names of the tables -/

/-- A name in the value is one of the tables, and a text in it stands in one line. -/
def Value.Registered : Value → Prop
  | call _ name _ => name ∈ callNames
  | constant _ text => text ∈ constantTexts
  | string _ s | template _ s => OneLine s
  | binary _ _ _ _ | not _ _ | index _ _ _ | read _ _ | number _ _ | boolean _ _ | array _ _ => True

instance : DecidablePred Value.Registered
  | .call _ name _ => inferInstanceAs (Decidable (name ∈ callNames))
  | .constant _ text => inferInstanceAs (Decidable (text ∈ constantTexts))
  | .string _ s | .template _ s => inferInstanceAs (Decidable (OneLine s))
  | .binary _ _ _ _ | .not _ _ | .index _ _ _ | .read _ _ | .number _ _ | .boolean _ _
  | .array _ _ => inferInstanceAs (Decidable True)

/-- A name in the action is one of the tables, or a word. -/
def Action.Registered : Action → Prop
  | call name _ => name ∈ callNames
  | assignField _ field _ => IsWord field
  | block _ | branch _ _ | loop _ _ | declare _ _ _ | assign _ _ | stop | next | noop => True

instance : DecidablePred Action.Registered
  | .call name _ => inferInstanceAs (Decidable (name ∈ callNames))
  | .assignField _ field _ => inferInstanceAs (Decidable (IsWord field))
  | .block _ | .branch _ _ | .loop _ _ | .declare _ _ _ | .assign _ _ | .stop | .next | .noop =>
    inferInstanceAs (Decidable True)

/-- The names in the rule are those of the tables, fields are words, and a text in it stands in one
line. -/
structure Rule.Registered (r : Rule) : Prop where
  name : r.name ∈ EventDef.all.map (·.name)
  trigger : r.trigger ∈ EventDef.all.map (·.target)
  body : Action.Throughout Action.Registered Value.Registered r.body

instance (r : Rule) : Decidable r.Registered :=
  decidable_of_iff (r.name ∈ EventDef.all.map (·.name) ∧ r.trigger ∈ EventDef.all.map (·.target) ∧
      Action.Throughout Action.Registered Value.Registered r.body)
    ⟨fun h => ⟨h.1, h.2.1, h.2.2⟩, fun h => ⟨h.1, h.2, h.3⟩⟩

/-- A name in the value is one of the tables. -/
def Value.Named : Value → Prop
  | call _ name _ => name ∈ callNames
  | constant _ text => text ∈ constantTexts
  | binary _ _ _ _ | not _ _ | index _ _ _ | read _ _ | number _ _ | string _ _ | template _ _
  | boolean _ _ | array _ _ => True

/-- The names in the rule are those of the tables, and fields are words. -/
structure Rule.Named (r : Rule) : Prop where
  name : r.name ∈ EventDef.all.map (·.name)
  trigger : r.trigger ∈ EventDef.all.map (·.target)
  body : Action.Throughout Action.Registered Value.Named r.body

theorem word_of_mem_callNames : ∀ name ∈ callNames,
    Term.Unmarked name ∧ Fits name ∧ name.toList ≠ [] ∧ name ∉ ["If", "While", "End"] := by
  decide +kernel

theorem inline_of_mem_constantTexts : ∀ text ∈ constantTexts, (Term.ofConstant text).Inline := by
  -- Most constants are words, and the bytes of a text are at hand where its characters are not.
  have htexts : ∀ text ∈ constantTexts,
      text.toByteArray.data.toList.all Term.isWordByte = true ∨ (Term.ofConstant text).Inline := by
    decide +kernel
  exact fun text htext =>
    (htexts text htext).elim (fun h => (Term.word_of_bytes h).inline_ofConstant) id

theorem fits_of_mem_events :
    (∀ name ∈ EventDef.all.map (·.name), OneLine name) ∧
    ∀ trigger ∈ EventDef.all.map (·.target), Term.Word trigger ∧ Fits trigger := by
  decide +kernel

/-! ## The terms of a rule -/

namespace Value

variable {store : String}

theorem word_fixedWords : ∀ w ∈ Term.fixedWords, Term.Word w := by decide +kernel

theorem Registered.brings {v : Value} (h : v.Registered) : v.Brings Term.Word OneLine := by
  cases v with
  | binary ty op lhs rhs =>
    intro _ _
    decide
  | call _ name _ =>
    obtain ⟨hunmarked, hfits, -⟩ := word_of_mem_callNames name h
    exact ⟨hunmarked, hfits.1⟩
  | constant _ text => exact inline_of_mem_constantTexts text h
  | read _ slot => exact Slot.word_repr slot
  | number _ x => exact word_numberText x
  | string | template | not | index | boolean | array => exact h

theorem Named.brings {v : Value} (h : v.Named) : v.Brings Term.Word fun _ => True := by
  cases v with
  | binary ty op lhs rhs => exact fun _ _ => trivial
  | call _ name _ =>
    obtain ⟨hunmarked, hfits, -⟩ := word_of_mem_callNames name h
    exact ⟨hunmarked, hfits.1⟩
  | constant _ text =>
    exact (inline_of_mem_constantTexts text h).mono (fun _ => id) fun _ _ => trivial
  | read _ slot => exact Slot.word_repr slot
  | number _ x => exact word_numberText x
  | string | template | not | index | boolean | array => trivial

/-- The term of a value stands in one line, and no word in it holds a mark. -/
theorem inline_term (hstore : Term.Word store) (v : Value) (h : v.Throughout Registered) :
    (v.term store).Inline :=
  all_term word_fixedWords (Term.word_append (by decide) hstore) v
    (h.mono fun _ hw => hw.brings)

end Value

namespace Action

open Script

variable {store : String}

theorem Registered.brings {a : Action} (h : a.Registered) : a.Brings Term.Word := by
  cases a with
  | declare slot _ _ | assign slot _ => exact Slot.word_repr slot
  | assignField _ field _ => exact Term.word_of_isWord h
  | call name _ =>
    obtain ⟨hunmarked, hfits, -⟩ := word_of_mem_callNames name h
    exact ⟨hunmarked, hfits.1⟩
  | block | branch | loop | stop | next | noop => trivial

/-- A call is not taken for the start or the end of a body. -/
theorem readable_call {name : String} (hname : name ∈ callNames) {args : List Term}
    (hargs : Term.AllOf Term.Word OneLine args) : (Step.plain (.call name args)).Readable := by
  obtain ⟨hunmarked, hfits, hne, hcontrol⟩ := word_of_mem_callNames name hname
  refine ⟨Term.all_call ⟨hunmarked, hfits.1⟩ hargs, ?_, role_call hcontrol args⟩
  cases args with
  | nil => exact hfits.2
  | cons arg args =>
    obtain ⟨c, cs, hchars⟩ := List.exists_cons_of_ne_nil hne
    rw [Term.call, Term.toList_text_app, hchars]
    exact fun hc => hfits.2 (hchars ▸ hc)

mutual

theorem readable_steps (hstore : Term.Word store) : ∀ a : Action, a.Registered →
    (∀ v ∈ a.values, v.Throughout Value.Registered) →
    Throughout Action.Registered Value.Registered a.inner → Step.AllReadable (a.steps store)
  | block body, _, _, hinner => readable_stepsBody hstore body hinner
  | branch condition body, _, hvalues, hinner | loop condition body, _, hvalues, hinner =>
    ⟨⟨Value.inline_term hstore condition (hvalues condition (by simp)),
      readable_stepsBody hstore body hinner⟩, trivial⟩
  | declare slot _ value, _, hvalues, _ | assign slot value, _, hvalues, _ => by
    have hvalue := Value.inline_term hstore value (hvalues value (by simp))
    refine ⟨⟨⟨by decide, hstore, Slot.word_repr slot, hvalue, trivial⟩, ?_, rfl⟩, trivial⟩
    simp [Term.toList_text_app]
  | assignField object field value, hfield, hvalues, _ => by
    have hobject := Value.inline_term hstore object (hvalues object (by simp))
    have hvalue := Value.inline_term hstore value (hvalues value (by simp))
    refine ⟨⟨⟨by decide, hobject, Term.word_of_isWord hfield, hvalue, trivial⟩, ?_, rfl⟩, trivial⟩
    simp [Term.toList_text_app]
  | call name args, hname, hvalues, _ =>
    have hargs := Value.all_terms fun v hv => Value.inline_term hstore v (hvalues v hv)
    ⟨readable_call hname hargs, trivial⟩
  | stop, _, _, _ => ⟨⟨by decide, by decide, rfl⟩, trivial⟩
  | next, _, _, _ => ⟨⟨by decide, by decide, rfl⟩, trivial⟩
  | noop, _, _, _ => trivial

theorem readable_stepsBody (hstore : Term.Word store) : ∀ body : List Action,
    Throughout Action.Registered Value.Registered body → Step.AllReadable (stepsBody store body)
  | [], _ => trivial
  | a :: as, h => by
    obtain ⟨ha, hvalues, hinner, has⟩ := throughout_cons.mp h
    exact Step.allReadable_append (readable_steps hstore a ha hvalues hinner)
      (readable_stepsBody hstore as has)

end

end Action

/-! ## Rules -/

/-- The property holds of all that stands outside of quotes in the trigger and the actions of the
entry. -/
def Script.Entry.Words (W : String → Prop) (e : Script.Entry) : Prop :=
  W e.trigger ∧ Script.Step.AllOf W (fun _ => True) e.body

namespace Rule

/-- **Nothing outside of quotes opens any.** No word in the text of a rule holds a mark or the end
of a line, whatever is quoted in it. -/
theorem Named.words {store : String} (hstore : Term.Word store) {r : Rule} (h : r.Named) :
    (r.entry store).Words Term.Word := by
  refine ⟨(fits_of_mem_events.2 r.trigger h.trigger).1, ?_⟩
  have hfixed : ∀ w ∈ Term.fixedWords ++ Script.Step.fixedWords, Term.Word w :=
    List.forall_mem_append.mpr ⟨Value.word_fixedWords, by decide +kernel⟩
  exact Action.all_stepsBody hfixed ⟨hstore, Term.word_append (by decide) hstore⟩ r.body
    (h.body.mono (fun _ ha => ha.brings) fun _ hv => hv.brings)

/-- What the text of a rule says can be read back. -/
theorem readable_entry {store : String} (hstore : Term.Word store) {r : Rule}
    (h : r.Registered) : (r.entry store).Readable := by
  obtain ⟨hnames, htriggers⟩ := fits_of_mem_events
  obtain ⟨htrigger, hfits⟩ := htriggers r.trigger h.trigger
  exact ⟨hnames r.name h.name, htrigger, hfits.2,
    Action.readable_stepsBody hstore r.body h.body⟩

/-- **Rules are read back from their text.** A reader that knows only quotes with backslashes,
commas, parentheses, semicolons and what opens and closes a body recovers what the rules say, in
their order: every action as the tree of its terms, with what is quoted as it was before it was
escaped. The paragraphs of the text are the header and the lines of the rules, and each line of a
body is indented by two tabs and one more for all that is open around it. -/
theorem read_script (store : String) (rules : List Rule) (hstore : Term.Word store)
    (hrules : ∀ r ∈ rules, r.Registered) :
    Script.read (script store rules) = some (rules.map (entry store)) ∧
    Script.paragraphs (script store rules) = header store :: rules.map (lines store) ∧
    ∀ r ∈ rules, ∀ before l after, Action.linesAll store 2 r.body = before ++ l :: after →
      l.depth + (before ++ [l]).countP Script.closes = 2 + before.countP Script.opens := by
  have hentries : ∀ e ∈ rules.map (entry store), e.Readable := by
    intro e he
    obtain ⟨r, hr, rfl⟩ := List.mem_map.mp he
    exact readable_entry hstore (hrules r hr)
  rw [script_eq]
  refine ⟨Script.read_render hstore.2 hentries, ?_, ?_⟩
  · rw [Script.paragraphs_render hstore.2 hentries, List.map_map]
    exact congrArg (header store :: ·) (List.map_congr_left fun r _ => lines_entry store r)
  · intro r hr
    rw [← Action.linesAll_stepsBody]
    exact (Script.Step.indented_linesAll (readable_entry hstore (hrules r hr)).body 2).indent

/-- A rule with a text that would end its quotes, the call and the body if it were not escaped. -/
def hostile : Rule where
  name := "server"
  trigger := "Ongoing - Global"
  body :=
    [.block [.noop,
      .branch (.not .boolean (.constant .boolean "Event Was Critical Hit"))
        [.call "Small Message"
          [.call (.array .player) "All Players" [.constant (.native "team") "All Teams"],
           .string .string "\\\"), b); End;"],
         .loop (.boolean .boolean true) [.stop]]]]

theorem read_script_hostile :
    (Term.Word "A" ∧ ∀ r ∈ [hostile], r.Registered) ∧
    Script.read (script "A" [hostile]) = some [⟨"server", "Ongoing - Global",
      [.branch (.app "Not" (.word "Event Was Critical Hit") [])
        [.plain (.app "Small Message" (.app "All Players" (.word "All Teams") [])
          [.app "Custom String" (.quoted "\\\"), b); End;") []]),
         .loop (.word "True") [.plain (.word "Break")]]]⟩] := by
  have hstore : Term.Word "A" := by decide
  have hrules : ∀ r ∈ [hostile], r.Registered := by decide +kernel
  refine ⟨⟨hstore, hrules⟩, (read_script "A" [hostile] hstore hrules).1.trans ?_⟩
  rfl

end Rule

end RuleScript
