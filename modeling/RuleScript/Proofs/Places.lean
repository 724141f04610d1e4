import Mathlib
import RuleScript.Compile
import RuleScript.Proofs.Lexing.Tiling
import RuleScript.Proofs.Lowering.Blame
import RuleScript.Proofs.Syntax.Layout

/-!
# Places in a source

The tokens of a source mark parts of it one behind the other, so reading lays out nested outlines
among them. All places of a program that was read are therefore parts of its source. Errors of
lowering are at such places, and those of the lexer and of the grammar are at tokens or at what was
read from them.

## Main results

* `Cursor.orderly_start`: the tokens of a source are in order
* `Program.places_ofSource`: the places of a program and of all errors are parts of the source
-/

namespace RuleScript

open Text (width)

variable {source : String} {tokens : List Lexeme} {e : Error}

/-- A part of a text is marked by where it starts and ends. -/
theorem Span.marks_of_append {pre part post : List Char}
    (h : source.toList = pre ++ (part ++ post)) :
    Span.Marks source ⟨width pre, width pre + width part⟩ := by
  have hbehind : source.toList = pre ++ part ++ post := by rw [h, List.append_assoc]
  have hstop : width pre + width part = width (pre ++ part) := (Text.width_append pre part).symm
  refine ⟨Nat.le_add_right _ _, ?_, ⟨pre, _, h, rfl⟩, ⟨pre ++ part, post, hbehind, hstop⟩⟩
  rw [hstop]
  exact Text.width_mono ⟨post, hbehind.symm⟩

/-- The tokens of a source are in order. -/
theorem Cursor.orderly_start (h : Lexeme.ofSource source = .ok tokens) :
    (Cursor.start tokens).Orderly source := by
  have htiles := Lexer.tiles_lexemes h
  obtain ⟨body, rfl, hbody⟩ := Lexeme.exists_body_of_tiles [] htiles rfl rfl
  constructor
  · show ∀ s ∈ Span.zero :: (body ++ [Lexeme.finish source]).map Lexeme.span, s.Marks source
    rw [List.forall_mem_cons, List.forall_mem_map, List.forall_mem_append,
      List.forall_mem_singleton]
    refine ⟨Span.marks_zero source, fun l hl => ?_, ?_⟩
    · obtain ⟨-, text, htext, -⟩ := hbody l hl
      obtain ⟨pre, post, hsource, hspan⟩ := Text.slice?_eq_some_iff.mp htext
      exact hspan ▸ Span.marks_of_append hsource
    · have hwhole : source.toList = source.toList ++ ([] ++ []) := by simp
      exact Span.marks_of_append hwhole
  · show (Span.zero :: (body ++ [Lexeme.finish source]).map Lexeme.span).Pairwise _
    rw [List.pairwise_cons, List.pairwise_map]
    exact ⟨fun _ _ => Nat.zero_le _, Lexeme.pairwise_of_tiles htiles⟩

theorem Lexeme.marks_of_ofSource (h : Lexeme.ofSource source = .error e) : e.span.Marks source := by
  obtain ⟨pre, part, post, hsource, hspan⟩ := Lexer.exists_of_lexemes_error h
  rw [Nat.zero_add] at hspan
  exact hspan ▸ Span.marks_of_append hsource

namespace TypeExpr

/-- The outline of an annotation that was read alone is nested. -/
theorem nested_of_ofSource {t : TypeExpr} (h : ofSource source = .ok t) :
    t.outline.Nested source := by
  obtain ⟨tokens, htokens, h⟩ := Except.bind_eq_ok.mp h
  obtain ⟨⟨ty, c, hshorter⟩, hp, h⟩ := Except.bind_eq_ok.mp h
  have hlays := (laysOut_parse (.start tokens)).ok _ hp
  have hrow := hlays.2 source (Cursor.orderly_start htokens)
  dsimp only at h
  split at h
  · cases h
    exact hrow.nested _ List.mem_cons_self
  · cases h

theorem marks_of_ofSource (h : ofSource source = .error e) : e.span.Marks source := by
  rcases Except.bind_eq_error.mp h with htokens | ⟨tokens, htokens, h⟩
  · exact Lexeme.marks_of_ofSource htokens
  have hc := Cursor.orderly_start htokens
  have hread := laysOut_parse (.start tokens)
  rcases Except.bind_eq_error.mp h with hparse | ⟨⟨ty, c, hshorter⟩, hp, h⟩
  · exact hread.error e hparse source hc
  · dsimp only at h
    split at h
    · cases h
    · cases h
      exact (hc.passes (hread.ok _ hp).1).marks_span

end TypeExpr

namespace Program

variable {program : Program}

/-- The outline of a program that was read is nested. -/
theorem nested_ofLexemes (hc : (Cursor.start tokens).Orderly source)
    (h : ofLexemes tokens = .ok program) : (program.outline source).Nested source := by
  rw [ofLexemes, parseItems_eq] at h
  cases hitems : parseItemsTo (.start tokens) with
  | error e =>
    rw [hitems] at h
    cases h
  | ok read =>
    obtain ⟨items, stop⟩ := read
    rw [hitems] at h
    cases h
    have hrow := (lays_of_parseItemsTo _ hitems).1.2 source hc
    refine .node (Span.marks_whole source) hrow.nested (fun o ho => ?_) hrow.ordered
    exact ⟨Nat.zero_le _, (hrow.within o ho).marks.stop_le_width⟩

theorem marks_ofLexemes (hc : (Cursor.start tokens).Orderly source)
    (h : ofLexemes tokens = .error e) : e.span.Marks source := by
  rcases Except.bind_eq_error.mp h with hitems | ⟨items, -, h⟩
  · exact marks_of_parseItems _ hitems hc
  · cases h

theorem nested_of_parseSource (h : (parseSource source).result = .ok program) :
    (program.outline source).Nested source := by
  unfold parseSource at h
  split at h
  case h_1 => cases h
  case h_2 tokens htokens => exact nested_ofLexemes (Cursor.orderly_start htokens) h

theorem marks_of_parseSource (h : (parseSource source).result = .error e) :
    e.span.Marks source := by
  unfold parseSource at h
  split at h
  case h_1 e' he =>
    cases h
    exact Lexeme.marks_of_ofSource he
  case h_2 tokens htokens => exact marks_ofLexemes (Cursor.orderly_start htokens) h

/-- All places of the declarations of a program that was read are parts of its source. -/
theorem throughout_items (h : (parseSource source).result = .ok program) :
    ∀ i ∈ program.items, i.outline.Throughout (Span.Marks source) := by
  have hthroughout := (nested_of_parseSource h).throughout
  rw [outline, Outline.throughout_node, List.forall_mem_map] at hthroughout
  exact hthroughout.2

theorem marks_of_analyzeSource {options : Options}
    (h : (analyzeSource options source).result = .error e) : e.span.Marks source := by
  unfold analyzeSource Logged.andThen at h
  split at h
  case h_1 e' he =>
    cases h
    exact marks_of_parseSource he
  case h_2 program hprogram =>
    unfold analyzeProgram at h
    split at h
    case h_1 => cases h
    case h_2 e' st hlower =>
      cases h
      exact lower_blames (throughout_items hprogram) options hlower

/-- **Places in a source.** If a source is read as a program or as an annotation, then each node is
a part of the source, between characters; the nodes in a node lie in its part, one behind the other.
And if the source cannot be split into tokens, read, or lowered under some options, then the error
is at a part of the source, between characters. -/
theorem places_ofSource (source : String) :
    ((∀ program, (parseSource source).result = .ok program →
        (program.outline source).Nested source) ∧
      ∀ t, TypeExpr.ofSource source = .ok t → t.outline.Nested source) ∧
    ((∀ e, Lexeme.ofSource source = .error e → e.span.Marks source) ∧
      (∀ e, (parseSource source).result = .error e → e.span.Marks source) ∧
      (∀ e, TypeExpr.ofSource source = .error e → e.span.Marks source) ∧
      ∀ options e, (analyzeSource options source).result = .error e → e.span.Marks source) :=
  ⟨⟨fun _ => nested_of_parseSource, fun _ => TypeExpr.nested_of_ofSource⟩,
    fun _ => Lexeme.marks_of_ofSource, fun _ => marks_of_parseSource,
    fun _ => TypeExpr.marks_of_ofSource, fun _ _ => marks_of_analyzeSource⟩

/-- A source with a method, an operator with an assignment, and brackets that belong to no node,
behind a wide character. An item is taken of a player, in the body of a function that is called. -/
def misusedSource : String :=
  "/* é */ function f<T>(a: T) \x7b let x = (a)[a]; x += a.g(x) * x; \x7d "
    ++ "event client(p) \x7b f(p); \x7d"

theorem places_ofSource_misusedSource :
    ∃ program e, (parseSource misusedSource).result = .ok program ∧
      (program.outline misusedSource).Nested misusedSource ∧
      (analyzeSource {} misusedSource).result = .error e ∧ e.span.Marks misusedSource := by
  have hread : (parseSource misusedSource).result.isOk = true := by cbv
  have hfails : (analyzeSource {} misusedSource).result.isOk = false := by cbv
  obtain ⟨⟨hnested, -⟩, -, -, -, hmarks⟩ := places_ofSource misusedSource
  cases hprogram : (parseSource misusedSource).result with
  | error e =>
    rw [hprogram] at hread
    cases hread
  | ok program =>
    cases hlower : (analyzeSource {} misusedSource).result with
    | ok rules =>
      rw [hlower] at hfails
      cases hfails
    | error e => exact ⟨program, e, rfl, hnested program hprogram, rfl, hmarks {} e hlower⟩

end Program

end RuleScript
