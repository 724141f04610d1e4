import Mathlib.Data.List.DropRight
import Mathlib.Data.Prod.Lex
import RuleScript.Text.Span

/-!
# Lines and columns

A position is found by walking over the characters that start before an offset, whatever their
widths. So the line counts the line feeds among them, and the column those after the last line feed.
Each character moves the position on, to a later line or to a later column of the same one; so no
two places between characters have the same position.

## Main definitions

* `Text.before`: the characters that start before an offset
* `Text.lastLine`: the characters after the last line feed
* `Text.IsBoundary`: an offset between two characters, or at an end of the text
* `Position.key`: positions in the order of reading

## Main results

* `Position.ofOffset_locates`: what the position of an offset counts, and that it tells apart all
  places between characters
-/

namespace RuleScript

namespace Text

/-- The characters of a text that starts at byte `here`, each with the offset at which it starts. -/
def charOffsets (here : Nat) : List Char → List (Nat × Char)
  | [] => []
  | c :: cs => (here, c) :: charOffsets (here + c.utf8Size) cs

/-- The characters of a text that start before an offset. -/
def before (offset : Nat) (text : String) : List Char :=
  ((charOffsets 0 text.toList).filter (·.1 < offset)).map (·.2)

/-- The characters after the last line feed. -/
def lastLine (cs : List Char) : List Char := cs.rtakeWhile (· ≠ '\n')

/-- An offset between two characters of a text, or at one of its ends. -/
def IsBoundary (text : String) (offset : Nat) : Prop :=
  ∃ pre post, text.toList = pre ++ post ∧ offset = width pre

variable {cs pre post : List Char} {here offset : Nat} {text : String}

theorem lastLine_concat_feed (cs : List Char) : lastLine (cs ++ ['\n']) = [] :=
  List.rtakeWhile_concat_neg _ _ _ (by decide)

theorem lastLine_concat {c : Char} (h : c ≠ '\n') (cs : List Char) :
    lastLine (cs ++ [c]) = lastLine cs ++ [c] :=
  List.rtakeWhile_concat_pos _ _ _ (decide_eq_true h)

theorem le_of_mem_charOffsets {x : Nat × Char} (h : x ∈ charOffsets here cs) : here ≤ x.1 := by
  induction cs generalizing here with
  | nil => cases h
  | cons c cs ih =>
    rcases List.mem_cons.mp h with rfl | h
    · exact Nat.le_refl here
    · exact Nat.le_trans (Nat.le_add_right _ _) (ih h)

/-- No character starts before the text does. -/
theorem filter_charOffsets_of_le (h : offset ≤ here) :
    (charOffsets here cs).filter (·.1 < offset) = [] := by
  rw [List.filter_eq_nil_iff]
  intro x hx
  have := le_of_mem_charOffsets hx
  simp only [decide_eq_true_eq]
  omega

/-- The characters that start before the end of some of them are just these. -/
theorem filter_charOffsets_append (here : Nat) (pre post : List Char) :
    ((charOffsets here (pre ++ post)).filter (·.1 < here + width pre)).map (·.2) = pre := by
  induction pre generalizing here with
  | nil => rw [List.nil_append, width_nil, Nat.add_zero, filter_charOffsets_of_le (Nat.le_refl _),
      List.map_nil]
  | cons c pre ih =>
    have hpos := c.utf8Size_pos
    rw [List.cons_append, charOffsets, width_cons, ← Nat.add_assoc,
      List.filter_cons_of_pos (by simp only [decide_eq_true_eq]; omega), List.map_cons, ih]

theorem before_of_append (h : text.toList = pre ++ post) : before (width pre) text = pre := by
  rw [before, h]
  simpa using filter_charOffsets_append 0 pre post

theorem width_mono (h : pre <+: cs) : width pre ≤ width cs := by
  obtain ⟨post, rfl⟩ := h
  induction pre with
  | nil => exact Nat.zero_le _
  | cons c pre ih => exact Nat.add_le_add_left ih _

/-- Of two places between characters, the text before the earlier one is a proper part of that
before the later one. -/
theorem exists_of_boundaries {a b : Nat} (ha : IsBoundary text a) (hb : IsBoundary text b)
    (hab : a < b) : ∃ pre d ds post, text.toList = (pre ++ d :: ds) ++ post ∧ a = width pre ∧
      b = width (pre ++ d :: ds) := by
  obtain ⟨pre, post, hpre, rfl⟩ := ha
  obtain ⟨pre', post', hpre', rfl⟩ := hb
  have hprefix : pre <+: pre' ∨ pre' <+: pre :=
    List.prefix_or_prefix_of_prefix ⟨post, hpre.symm⟩ ⟨post', hpre'.symm⟩
  rcases hprefix with ⟨ds, rfl⟩ | h
  · cases ds with
    | nil => rw [List.append_nil] at hab; exact absurd hab (Nat.lt_irrefl _)
    | cons d ds => exact ⟨pre, d, ds, post', hpre', rfl, rfl⟩
  · exact absurd (width_mono h) (Nat.not_le_of_lt hab)

end Text

namespace Position

/-- Positions in the order of reading: line by line, and within a line column by column. -/
def key (p : Position) : ℕ ×ₗ ℕ := toLex (p.line, p.column)

variable {source : String} {offset here : Nat} {p : Position} {cs : List Char}

/-- Walking stops at the first character that does not start before the offset. -/
theorem walk_eq (offset here : Nat) (p : Position) (cs : List Char) :
    walk offset here p cs =
      (((Text.charOffsets here cs).filter (·.1 < offset)).map (·.2)).foldl after p := by
  induction cs generalizing here p with
  | nil => rfl
  | cons c cs ih =>
    by_cases h : offset ≤ here
    · rw [walk, if_pos h, Text.filter_charOffsets_of_le h]
      rfl
    · have hhere : here < offset := Nat.lt_of_not_le h
      rw [walk, if_neg h, ih, Text.charOffsets, List.filter_cons_of_pos (by simpa using hhere)]
      rfl

theorem ofOffset_eq (source : String) (offset : Nat) :
    ofOffset source offset = (Text.before offset source).foldl after first :=
  walk_eq offset 0 first source.toList

/-- What the position behind some characters counts. -/
theorem foldl_after (cs : List Char) :
    cs.foldl after first = ⟨1 + cs.count '\n', 1 + (Text.lastLine cs).length⟩ := by
  induction cs using List.reverseRecOn with
  | nil => rfl
  | append_singleton cs c ih =>
    rw [List.foldl_concat, ih, after, List.count_append, List.count_singleton]
    by_cases hc : c = '\n'
    · rw [if_pos hc, hc, Text.lastLine_concat_feed]
      rfl
    · rw [if_neg hc, Text.lastLine_concat hc]
      simp [hc, Nat.add_assoc]

theorem key_lt_after (p : Position) (c : Char) : p.key < (p.after c).key := by
  rw [key, key, Prod.Lex.toLex_lt_toLex, after]
  split
  · exact .inl (Nat.lt_succ_self _)
  · exact .inr ⟨rfl, Nat.lt_succ_self _⟩

theorem key_le_foldl (p : Position) (cs : List Char) : p.key ≤ (cs.foldl after p).key := by
  induction cs generalizing p with
  | nil => exact le_refl _
  | cons c cs ih => exact (key_lt_after p c).le.trans (ih (p.after c))

/-- A later place between characters has a later position. -/
theorem key_lt_of_boundaries {a b : Nat} (ha : Text.IsBoundary source a)
    (hb : Text.IsBoundary source b) (hab : a < b) :
    (ofOffset source a).key < (ofOffset source b).key := by
  obtain ⟨pre, d, ds, post, hsource, rfl, rfl⟩ := Text.exists_of_boundaries ha hb hab
  have hpre : source.toList = pre ++ (d :: ds ++ post) := by rw [hsource, List.append_assoc]
  rw [ofOffset_eq, ofOffset_eq, Text.before_of_append hpre, Text.before_of_append hsource,
    List.foldl_append, List.foldl_cons]
  exact lt_of_lt_of_le (key_lt_after _ d) (key_le_foldl _ ds)

/-- **Lines and columns.** The position of an offset, wherever it is, counts the line feeds among
the characters that start before it, and the characters after the last of these. A later place
between characters has a later position, so that no two of them have the same. -/
theorem ofOffset_locates (source : String) :
    (∀ offset, ofOffset source offset =
      ⟨1 + (Text.before offset source).count '\n',
        1 + (Text.lastLine (Text.before offset source)).length⟩) ∧
    (∀ a b, Text.IsBoundary source a → Text.IsBoundary source b → a < b →
      (ofOffset source a).key < (ofOffset source b).key) ∧
    ∀ a b, Text.IsBoundary source a → Text.IsBoundary source b →
      ofOffset source a = ofOffset source b → a = b := by
  refine ⟨fun offset => ?_, fun a b => key_lt_of_boundaries, fun a b ha hb hab => ?_⟩
  · rw [ofOffset_eq, foldl_after]
  · rcases Nat.lt_trichotomy a b with hlt | rfl | hlt
    · exact absurd (congrArg key hab) (key_lt_of_boundaries ha hb hlt).ne
    · rfl
    · exact absurd (congrArg key hab) (key_lt_of_boundaries hb ha hlt).ne'

/-- An offset inside of a wide character, and the places before and behind a line feed. -/
theorem ofOffset_locates_twoLines :
    ofOffset "é\nb" 1 = ⟨1, 2⟩ ∧ (ofOffset "é\nb" 2).key < (ofOffset "é\nb" 3).key := by
  obtain ⟨hcounts, hlater, -⟩ := ofOffset_locates "é\nb"
  have hbefore : Text.before 1 "é\nb" = ['é'] := by decide +kernel
  have hfeed : Text.IsBoundary "é\nb" 2 := ⟨['é'], ['\n', 'b'], by decide, by decide⟩
  have hline : Text.IsBoundary "é\nb" 3 := ⟨['é', '\n'], ['b'], by decide, by decide⟩
  refine ⟨?_, hlater 2 3 hfeed hline (by decide)⟩
  rw [hcounts, hbefore]
  rfl

end Position

end RuleScript
