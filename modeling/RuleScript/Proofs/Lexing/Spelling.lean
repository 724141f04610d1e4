import RuleScript.Proofs.Lexing.Pieces
import RuleScript.Proofs.Script.Recovery
import RuleScript.Proofs.Syntax.Words
import RuleScript.Text.Escape

/-!
# Tokens survive being written

Every token but the end of the text has a spelling, and the spelling is read as that token wherever
nothing follows that could go on with it. Such texts can be put together, token by token and with
blanks in between.

What stands in quotes is escaped as in the texts of rules: reading a string takes back what escaping
did. Numbers are written without an exponent.

## Main definitions

* `Token.spelling`: a token as it is written
* `Token.Writable`: what can be written
* `Token.extendable`: the characters that would go on with a token before them

## Main results

* `Lexer.Yields.spelling`: a token before a text, if the text does not go on with it
* `Lexeme.ofSource_spellings`: tokens with blanks between them are read back
-/

namespace RuleScript

open Lexer (Stops isWordStart isWordChar)

/-! ## Spellings -/

namespace Decimal

/-- The number that a text without sign and exponent writes. -/
def ofText (text : String) : Float :=
  ofDigits (text.toList.takeWhile Char.isDigit)
    (Lexer.fraction (text.toList.dropWhile Char.isDigit))

end Decimal

namespace Token

/-- A token as it is written. -/
def spelling : Token → String
  | number x => Decimal.plain.render x
  | string s => "\"" ++ Text.escape s ++ "\""
  | ident name => name
  | keyword k => k.spelling
  | symbol s => s.spelling
  | eof => ""

/-- A letter or an underscore, then letters, digits and underscores, but no reserved word. -/
def isName (name : String) : Bool :=
  (match name.toList with
    | [] => false
    | c :: tail => isWordStart c && tail.all isWordChar)
  && (Keyword.ofSpelling? name).isNone

/-- What can be written: a name; a string in one line; a number that is finite and has no sign, if
its text stands for it. -/
def Writable : Token → Prop
  | number x => x.isFinite = true ∧ Decimal.isNegative x = false ∧
    Decimal.ofText (Decimal.plain.render x) = x
  | string s => '\n' ∉ s.toList
  | ident name => isName name = true
  | keyword _ | symbol _ => True
  | eof => False

/-- The characters that would go on with a token before them. -/
def extendable : Token → Char → Bool
  | number _ => fun c => isWordChar c || c == '.'
  | ident _ | keyword _ => isWordChar
  | symbol s => s.extendable
  | string _ | eof => fun _ => false

/-- No token goes on with a blank. -/
theorem extendable_blank (t : Token) : t.extendable ' ' = false := by
  cases t with
  | symbol s => cases s <;> rfl
  | _ => rfl

end Token

/-! ## Numbers -/

namespace Decimal

/-- A point with digits behind it, if there are any. -/
def pointed (digits : List Char) : List Char := if digits.isEmpty then [] else '.' :: digits

variable {whole part rest : List Char}

theorem fraction_pointed (hpart : ∀ d ∈ part, d.isDigit = true) (hrest : Stops Char.isDigit rest)
    (hpoint : Stops (· == '.') rest) : Lexer.fraction (pointed part ++ rest) = part := by
  unfold pointed
  cases part with
  | nil =>
    apply Lexer.fraction.eq_2
    rintro ds rfl
    cases Lexer.stops_cons.mp hpoint
  | cons d ds => exact Lexer.takeWhile_append_of_stops hpart hrest

theorem stops_pointed (part : List Char) (hrest : Stops Char.isDigit rest) :
    Stops Char.isDigit (pointed part ++ rest) := by
  unfold pointed
  cases part with
  | nil => exact hrest
  | cons d ds => exact Lexer.stops_cons.mpr rfl

theorem scanDecimal_pointed {c : Char} (hwhole : ∀ d ∈ whole, d.isDigit = true)
    (hpart : ∀ d ∈ part, d.isDigit = true) (hrest : Stops Char.isDigit rest)
    (hpoint : Stops (· == '.') rest) (hfinite : (ofDigits (c :: whole) part).isFinite = true) :
    Lexer.scanDecimal c (whole ++ pointed part ++ rest) =
      .token (.number (ofDigits (c :: whole) part)) (whole ++ pointed part).length := by
  rw [List.append_assoc]
  simp only [Lexer.scanDecimal, Lexer.takeWhile_append_of_stops hwhole (stops_pointed part hrest),
    Lexer.dropWhile_append_of_stops hwhole (stops_pointed part hrest),
    fraction_pointed hpart hrest hpoint, hfinite, if_true, List.length_append]
  unfold pointed
  split <;> rfl

/-- The mark of another base is no digit and no point. -/
theorem scanNumber_pointed {c : Char} (hwhole : ∀ d ∈ whole, d.isDigit = true)
    (hrest : Stops isWordChar rest) :
    Lexer.scanNumber c (whole ++ pointed part ++ rest) =
      Lexer.scanDecimal c (whole ++ pointed part ++ rest) := by
  have hne {mark : Char} (hdigit : mark.isDigit = false) (hpoint : mark ≠ '.')
      (hword : isWordChar mark = true) :
      ∀ ds, c = '0' → whole ++ pointed part ++ rest = mark :: ds → False := by
    intro ds _ hds
    cases whole with
    | cons d whole =>
      cases hds
      rw [hwhole mark List.mem_cons_self] at hdigit
      cases hdigit
    | nil =>
      unfold pointed at hds
      cases part with
      | cons d part =>
        cases hds
        exact hpoint rfl
      | nil =>
        have hds : rest = mark :: ds := hds
        subst hds
        rw [Lexer.stops_cons.mp hrest] at hword
        cases hword
  exact Lexer.scanNumber.eq_5 _ _ (hne rfl (by decide) rfl) (hne rfl (by decide) rfl)
    (hne rfl (by decide) rfl) (hne rfl (by decide) rfl)

@[simp] theorem pointed_nil : pointed [] = [] := rfl

theorem pointed_of_ne_nil (h : part ≠ []) : pointed part = '.' :: part := by
  rw [pointed, if_neg (by simpa using h)]

/-- The plainest layout writes digits, and a point at most among them. -/
theorem exists_positionalText {s : Scientific} (hne : s.digits ≠ [])
    (h : ∀ c ∈ s.digits, c.isDigit = true) :
    ∃ c whole part, plain.positionalText s = c :: (whole ++ pointed part) ∧
      (∀ d ∈ c :: whole, d.isDigit = true) ∧ ∀ d ∈ part, d.isDigit = true := by
  have hzeros {n : Nat} : ∀ d ∈ List.replicate n '0', d.isDigit = true :=
    fun d hd => List.eq_of_mem_replicate hd ▸ rfl
  obtain ⟨c, ds, hdigits⟩ := List.exists_cons_of_ne_nil hne
  rw [hdigits] at h
  have hds := (List.forall_mem_cons.mp h).2
  unfold Layout.positionalText
  split
  · refine ⟨'0', [], List.replicate (-s.exponent - 1).toNat '0' ++ s.digits, ?_, by simp, ?_⟩
    · rw [pointed_of_ne_nil (List.append_ne_nil_of_right_ne_nil _ hne)]
      rfl
    · rw [hdigits]
      exact List.forall_mem_append.mpr ⟨hzeros, h⟩
  · dsimp only
    split
    · refine ⟨c, ds ++ List.replicate (s.exponent.toNat + 1 - s.digits.length) '0', [], ?_, ?_,
        List.forall_mem_nil _⟩
      · simp [plain, hdigits]
      · exact List.forall_mem_append.mpr ⟨h, hzeros⟩
    · rename_i hlength
      rw [hdigits, List.length_cons] at hlength
      have hdrop : ds.drop s.exponent.toNat ≠ [] := by
        rw [Ne, List.drop_eq_nil_iff]
        omega
      refine ⟨c, ds.take s.exponent.toNat, ds.drop s.exponent.toNat, ?_, ?_, ?_⟩
      · rw [pointed_of_ne_nil hdrop, hdigits]
        rfl
      · refine List.forall_mem_cons.mpr ⟨h c List.mem_cons_self, fun d hd => ?_⟩
        exact hds d (List.mem_of_mem_take hd)
      · exact fun d hd => hds d (List.mem_of_mem_drop hd)

theorem trimZeros_ne_nil (digits : List Char) : trimZeros digits ≠ [] := by
  unfold trimZeros
  split
  · simp
  · assumption

theorem exists_magnitudeText (b : Binary) :
    ∃ c whole part, plain.magnitudeText b = c :: (whole ++ pointed part) ∧
      (∀ d ∈ c :: whole, d.isDigit = true) ∧ ∀ d ∈ part, d.isDigit = true := by
  obtain ⟨s, hs⟩ := magnitudeText_plain b
  rw [hs]
  exact exists_positionalText (trimZeros_ne_nil _) (isDigit_of_mem_scientific s)

theorem ofText_pointed {c : Char} (hwhole : ∀ d ∈ c :: whole, d.isDigit = true)
    (hpart : ∀ d ∈ part, d.isDigit = true) :
    ofText (String.ofList (c :: (whole ++ pointed part))) = ofDigits (c :: whole) part := by
  have hstops := stops_pointed part (Lexer.stops_nil (p := Char.isDigit))
  have hfraction := fraction_pointed hpart Lexer.stops_nil Lexer.stops_nil
  rw [List.append_nil] at hstops hfraction
  rw [ofText, String.toList_ofList, ← List.cons_append,
    Lexer.takeWhile_append_of_stops hwhole hstops, Lexer.dropWhile_append_of_stops hwhole hstops,
    hfraction]

/-- A number that its text stands for is written with digits: the names of the numbers that are not
finite would be read as zero. -/
theorem exists_render {x : Float} (hsign : isNegative x = false)
    (hread : ofText (plain.render x) = x) :
    ∃ c whole part, (plain.render x).toList = c :: (whole ++ pointed part) ∧
      (∀ d ∈ c :: whole, d.isDigit = true) ∧ (∀ d ∈ part, d.isDigit = true) ∧
      ofDigits (c :: whole) part = x := by
  unfold Layout.render at hread ⊢
  split at hread
  · rename_i b _
    obtain ⟨c, whole, part, htext, hwhole, hpart⟩ := exists_magnitudeText b
    simp only [hsign, Bool.false_eq_true, reduceIte, List.nil_append, htext] at hread ⊢
    rw [ofText_pointed hwhole hpart] at hread
    exact ⟨c, whole, part, String.toList_ofList, hwhole, hpart, hread⟩
  · rename_i hnone
    rw [hsign] at hread
    have hzero : x = ofText "NaN" ∨ x = ofText "inf" := by
      split at hread
      · exact .inl hread.symm
      · exact .inr hread.symm
    rcases hzero with rfl | rfl <;> exact absurd hnone (by decide +kernel)

end Decimal

/-! ## Strings -/

/-- Reading a string takes back what escaping did. -/
theorem Lexer.stringBody_escape (s rest : List Char) (h : '\n' ∉ s) :
    stringBody (s.flatMap Text.escapeChar ++ '"' :: rest) =
      ⟨s, (s.flatMap Text.escapeChar).length + 1, true⟩ := by
  induction s with
  | nil => rfl
  | cons c s ih =>
    rw [List.mem_cons, not_or] at h
    rw [List.flatMap_cons, List.append_assoc]
    by_cases hc : c = '\\' ∨ c = '"'
    · rw [Text.escapeChar, if_pos hc, List.cons_append, List.singleton_append]
      rcases hc with rfl | rfl <;> rw [stringBody, ih h.2] <;> simp [StringBody.push]
    · rw [not_or] at hc
      rw [Text.escapeChar, if_neg (by simp [hc]), List.singleton_append,
        stringBody.eq_6 c _ hc.2 (fun hend => h.1 hend.symm) (fun _ hslash => absurd hslash hc.1)
          (fun _ hslash => absurd hslash hc.1), ih h.2]
      simp [StringBody.push]

/-! ## Words -/

theorem Keyword.ofSpelling?_spelling (k : Keyword) : ofSpelling? k.spelling = some k := by
  cases k <;> decide

theorem Lexer.scanWord_append {c : Char} {tail rest : List Char}
    (htail : ∀ d ∈ tail, isWordChar d = true) (hrest : Stops isWordChar rest) :
    scanWord c (tail ++ rest) = .token (wordToken (String.ofList (c :: tail))) tail.length := by
  simp only [scanWord, takeWhile_append_of_stops htail hrest]

theorem Keyword.exists_spelling (k : Keyword) :
    ∃ c tail, k.spelling.toList = c :: tail ∧ isWordStart c = true ∧
      ∀ d ∈ tail, isWordChar d = true := by
  cases k <;> exact ⟨_, _, rfl, rfl, List.all_eq_true.mp rfl⟩

/-! ## Tokens -/

theorem Symbol.exists_spelling (s : Symbol) : ∃ c tail, s.spelling.toList = c :: tail := by
  cases s <;> exact ⟨_, _, rfl⟩

theorem Token.isName_iff {name : String} : isName name = true ↔
    ∃ c tail, name.toList = c :: tail ∧ isWordStart c = true ∧
      (∀ d ∈ tail, isWordChar d = true) ∧ Keyword.ofSpelling? name = none := by
  unfold isName
  cases name.toList with
  | nil => simp
  | cons c tail =>
    simp only [Bool.and_eq_true, List.all_eq_true, Option.isNone_iff_eq_none, and_assoc,
      List.cons.injEq]
    constructor
    · exact fun h => ⟨c, tail, rfl, rfl, h⟩
    · rintro ⟨_, _, rfl, rfl, h⟩
      exact h

/-- The names among the tokens of a source text can be written. -/
theorem Lexeme.isName_of_ofSource {source : String} {tokens : List Lexeme}
    (h : ofSource source = .ok tokens) {l : Lexeme} (hl : l ∈ tokens) {name : String}
    (hname : l.token = .ident name) : Token.isName name = true :=
  Token.isName_iff.mpr (exists_of_ofSource h hl hname)

/-- A token is read from its spelling where nothing follows that could go on with it. -/
theorem Token.scan_spelling {t : Token} (h : t.Writable) {rest : List Char}
    (hrest : Stops t.extendable rest) :
    ∃ c tail, t.spelling.toList = c :: tail ∧
      Lexer.scan c (tail ++ rest) = .token t tail.length := by
  cases t with
  | number x =>
    obtain ⟨hfinite, hsign, hread⟩ := h
    obtain ⟨c, whole, part, htext, hwhole, hpart, hvalue⟩ := Decimal.exists_render hsign hread
    obtain ⟨hc, hwhole⟩ := List.forall_mem_cons.mp hwhole
    have hword : Stops isWordChar rest := hrest.mono fun d hd => by simp [extendable, hd]
    have hpoint : Stops (· == '.') rest := hrest.mono fun d hd => by simp [extendable, hd]
    have hdigit : Stops Char.isDigit rest := hword.mono fun _ => Lexer.isWordChar_of_isDigit
    refine ⟨c, _, htext, ?_⟩
    rw [Lexer.scan_number hc, Decimal.scanNumber_pointed hwhole hword,
      Decimal.scanDecimal_pointed hwhole hpart hdigit hpoint (hvalue ▸ hfinite), hvalue]
  | string s =>
    refine ⟨'"', (s.toList.flatMap Text.escapeChar) ++ ['"'], ?_, ?_⟩
    · simp [spelling, Text.escape]
    · have hbody := Lexer.stringBody_escape s.toList rest h
      show Lexer.scanString _ = _
      rw [List.append_assoc, List.singleton_append, Lexer.scanString, hbody]
      simp
  | ident name =>
    obtain ⟨c, tail, hname, hc, htail, hkeyword⟩ := isName_iff.mp h
    refine ⟨c, tail, hname, ?_⟩
    rw [Lexer.scan_word hc, Lexer.scanWord_append htail hrest, ← hname, String.ofList_toList,
      Lexer.wordToken, hkeyword]
  | keyword k =>
    obtain ⟨c, tail, hspelling, hc, htail⟩ := k.exists_spelling
    refine ⟨c, tail, hspelling, ?_⟩
    rw [Lexer.scan_word hc, Lexer.scanWord_append htail hrest, ← hspelling, String.ofList_toList,
      Lexer.wordToken, k.ofSpelling?_spelling]
  | symbol s =>
    obtain ⟨c, tail, hspelling⟩ := s.exists_spelling
    exact ⟨c, tail, hspelling, Lexer.scan_symbol hspelling hrest⟩
  | eof => cases h

/-! ## Texts -/

namespace Lexer

namespace Yields

variable {cs : List Char} {ts : List Token}

/-- A spelling before a text that does not go on with the token. -/
theorem spelling {t : Token} (ht : t.Writable) (hcs : Stops t.extendable cs) (h : Yields cs ts) :
    Yields (t.spelling.toList ++ cs) (t :: ts) := by
  obtain ⟨c, tail, hspelling, hscan⟩ := t.scan_spelling ht hcs
  rw [hspelling]
  exact .token hscan h

/-- Tokens with blanks between them. -/
theorem spellings (h : ∀ t ∈ ts, t.Writable) :
    Yields (" ".intercalate (ts.map Token.spelling)).toList ts := by
  induction ts with
  | nil => exact nil
  | cons t ts ih =>
    obtain ⟨ht, hts⟩ := List.forall_mem_cons.mp h
    cases ts with
    | nil =>
      rw [List.map_singleton, String.intercalate_singleton, ← List.append_nil t.spelling.toList]
      exact spelling ht stops_nil nil
    | cons u us =>
      rw [List.map_cons, List.map_cons, String.intercalate_cons_cons, String.append_assoc,
        String.toList_append, String.toList_append]
      exact spelling ht (stops_cons.mpr t.extendable_blank) (ih hts).space

end Yields

end Lexer

/-- **Tokens survive being written.** Writing tokens with blanks between them gives a text that is
read as these tokens and the end of the text. -/
theorem Lexeme.ofSource_spellings (ts : List Token) (h : ∀ t ∈ ts, t.Writable) :
    ∃ ls, ofSource (" ".intercalate (ts.map Token.spelling)) = .ok ls ∧
      ls.map Lexeme.token = ts ++ [.eof] :=
  Lexer.Yields.spellings h 0

/-- Tokens that could run into each other or end too early: backslashes before quotes, the start of
a comment, a number before the mark of another base, points, a word that starts like a reserved
one. -/
def Token.crowded : List Token :=
  [.string "\\\"\\", .symbol .slash, .symbol .star, .string "//", .number 0, .ident "x1",
    .number 0.1, .symbol .dot, .symbol .dotDot, .number 5, .keyword .in_, .ident "inn", .symbol .eq,
    .symbol .eqEq]

theorem Lexeme.ofSource_spellings_crowded :
    (∀ t ∈ Token.crowded, t.Writable) ∧
      ∃ ls, ofSource (" ".intercalate (Token.crowded.map Token.spelling)) = .ok ls ∧
        ls.map Lexeme.token = Token.crowded ++ [.eof] := by
  have h : ∀ t ∈ Token.crowded, t.Writable := by
    simp only [Token.crowded, List.forall_mem_cons, Token.Writable, List.not_mem_nil, false_implies,
      implies_true, and_true, true_and]
    decide +kernel
  exact ⟨h, ofSource_spellings _ h⟩

end RuleScript
