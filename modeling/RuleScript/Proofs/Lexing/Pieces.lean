import Mathlib.Data.List.TakeWhile
import RuleScript.Token.Lexer

/-!
# The pieces of a text

The rules by which a text is cut into pieces. A piece reaches as far as it can, so what follows it
cannot go on with it. What is read as a token or a blank does not depend on what comes after that:
if the text is cut off there or later, the same piece is read.

## Main definitions

* `Lexer.Stops`: a text does not start with a character of some class
* `Symbol.extendable`: the characters that would make another symbol, or a comment, of a symbol
* `Lexer.Scans`: the rules of the single pieces
* `Lexer.Yields`: the tokens that a text is read as

## Main results

* `Lexer.scans`: the first piece of a text follows one of the rules
* `Lexer.extra_scan_le`: a piece ends within the text
* `Lexer.scan_take`: a token or a blank is also read from a text that is cut off behind it
-/

namespace RuleScript

/-- The characters that would make another symbol, or a comment, of a symbol before them. -/
def Symbol.extendable (s : Symbol) (c : Char) : Bool :=
  match s with
  | dot | dotDot => c == '.'
  | eq | plus | minus | star | bang | lt | gt => c == '='
  | slash => c == '=' || c == '/' || c == '*'
  | pipe => c == '|'
  | _ => false

namespace Lexer

variable {c : Char} {cs rest : List Char} {m : Nat}

/-! ## Where a class of characters ends -/

/-- The text does not start with a character of the class. -/
def Stops (p : Char → Bool) (cs : List Char) : Prop := ∀ c ∈ cs.head?, p c = false

section Stops

variable {p : Char → Bool}

theorem stops_nil : Stops p [] := fun _ h => nomatch h

theorem stops_cons : Stops p (c :: cs) ↔ p c = false := by
  simp [Stops]

theorem Stops.mono {q : Char → Bool} (h : Stops p cs) (hq : ∀ c, q c = true → p c = true) :
    Stops q cs := by
  intro c hc
  refine Bool.eq_false_iff.mpr fun hqc => ?_
  cases (h c hc).symm.trans (hq c hqc)

/-- The text does not start with a given character. -/
theorem stops_of_ne {d : Char} (h : ∀ ds, cs = d :: ds → False) : Stops (· == d) cs := by
  intro c hc
  obtain ⟨ds, rfl⟩ := List.head?_eq_some_iff.mp hc
  exact beq_eq_false_iff_ne.mpr fun heq => h ds (heq ▸ rfl)

theorem Stops.take (h : Stops p cs) : Stops p (cs.take m) := by
  intro c hc
  cases m with
  | zero => cases hc
  | succ m =>
    cases cs with
    | nil => cases hc
    | cons d ds => exact h c hc

theorem stops_dropWhile : Stops p (cs.dropWhile p) := by
  intro c hc
  have h := List.head?_dropWhile_not p cs
  rw [Option.mem_def.mp hc] at h
  simpa using h

/-- A text is cut where a class of characters ends. -/
theorem exists_append_stops (p : Char → Bool) (cs : List Char) :
    ∃ tail rest, cs = tail ++ rest ∧ (∀ c ∈ tail, p c = true) ∧ Stops p rest :=
  ⟨_, _, List.takeWhile_append_dropWhile.symm, fun _ => List.mem_takeWhile_imp, stops_dropWhile⟩

theorem takeWhile_append_of_stops (hcs : ∀ c ∈ cs, p c = true) (h : Stops p rest) :
    (cs ++ rest).takeWhile p = cs := by
  rw [List.takeWhile_append_of_pos hcs]
  cases rest with
  | nil => simp
  | cons c rest => rw [List.takeWhile_cons_of_neg (by simp [stops_cons.mp h]), List.append_nil]

theorem dropWhile_append_of_stops (hcs : ∀ c ∈ cs, p c = true) (h : Stops p rest) :
    (cs ++ rest).dropWhile p = rest := by
  rw [List.dropWhile_append_of_pos hcs]
  cases rest with
  | nil => rfl
  | cons c rest => rw [List.dropWhile_cons_of_neg (by simp [stops_cons.mp h])]

/-- A text that is cut off behind the characters of a class at its start. -/
theorem exists_take (h : (cs.takeWhile p).length ≤ m) :
    cs.take m = cs.takeWhile p ++ (cs.dropWhile p).take (m - (cs.takeWhile p).length) := by
  conv => lhs; rw [← List.takeWhile_append_dropWhile (p := p) (l := cs)]
  rw [List.take_append, List.take_of_length_le h]

theorem take_length_takeWhile : cs.take (cs.takeWhile p).length = cs.takeWhile p := by
  rw [exists_take (Nat.le_refl _), Nat.sub_self, List.take_zero, List.append_nil]

theorem takeWhile_take (h : (cs.takeWhile p).length ≤ m) :
    (cs.take m).takeWhile p = cs.takeWhile p := by
  rw [exists_take h]
  exact takeWhile_append_of_stops (fun _ => List.mem_takeWhile_imp) stops_dropWhile.take

theorem dropWhile_take (h : (cs.takeWhile p).length ≤ m) :
    (cs.take m).dropWhile p = (cs.dropWhile p).take (m - (cs.takeWhile p).length) := by
  rw [exists_take h]
  exact dropWhile_append_of_stops (fun _ => List.mem_takeWhile_imp) stops_dropWhile.take

end Stops

/-! ## The rules -/

/-- The rules of the single pieces: the piece of a text that starts with `c`. -/
inductive Scans : Char → List Char → Piece → Prop
  | blank (c : Char) (cs : List Char) : isBlank c = true → Scans c cs (.blank 0)
  | word (c : Char) (cs : List Char) : isWordStart c = true → Scans c cs (scanWord c cs)
  | number (c : Char) (cs : List Char) : c.isDigit = true → Scans c cs (scanNumber c cs)
  | string (cs : List Char) : Scans '"' cs (scanString cs)
  | symbol (s : Symbol) (c : Char) (tail rest : List Char) : s.spelling.toList = c :: tail →
    Stops s.extendable rest → Scans c (tail ++ rest) (.symbol s tail.length)
  | lineComment (cs : List Char) :
    Scans '/' ('/' :: cs) (.blank ((cs.takeWhile (· != '\n')).length + 1))
  | blockComment (cs : List Char) (n : Nat) : commentLength? cs = some n →
    Scans '/' ('*' :: cs) (.blank (n + 1))
  | openComment (cs : List Char) : commentLength? cs = none →
    Scans '/' ('*' :: cs) (.fault .unterminatedComment (cs.length + 1))
  | loneAmpersand (cs : List Char) : Stops (· == '&') cs →
    Scans '&' cs (.fault .loneAmpersand 0)
  | unexpected (c : Char) (cs : List Char) :
    (∀ ds, scan c ds = .fault (.unexpectedChar c) 0) → Scans c cs (.fault (.unexpectedChar c) 0)

namespace Scans

/-- A symbol of one character that nothing can make another of. -/
theorem single (s : Symbol) (hspelling : s.spelling.toList = [c])
    (hs : s.extendable = fun _ => false) : Scans c cs (.symbol s 0) :=
  symbol s c [] cs hspelling fun _ _ => congrFun hs _

theorem orWithEq (plain withEq : Symbol) (hplain : plain.spelling.toList = [c])
    (hwithEq : withEq.spelling.toList = [c, '=']) (hmost : withEq.extendable = fun _ => false)
    (h : Stops (· == '=') cs → Stops plain.extendable cs) :
    Scans c cs (orWithEq plain withEq cs) := by
  unfold Lexer.orWithEq
  split
  · exact symbol withEq c ['='] _ hwithEq fun _ _ => congrFun hmost _
  · rename_i hne
    exact symbol plain c [] cs hplain (h (stops_of_ne hne))

theorem dots : Scans '.' cs (scanDots cs) := by
  unfold scanDots
  split
  · exact symbol .ellipsis '.' ['.', '.'] _ rfl fun _ _ => rfl
  · rename_i ds hne
    exact symbol .dotDot '.' ['.'] ds rfl (stops_of_ne hne)
  · rename_i hne
    exact symbol .dot '.' [] cs rfl (stops_of_ne hne)

theorem slash : Scans '/' cs (scanSlash cs) := by
  unfold scanSlash
  split
  · exact lineComment _
  · split
    · exact blockComment _ _ ‹_›
    · exact openComment _ ‹_›
  · rename_i hline hblock
    refine orWithEq .slash .slashEq rfl rfl rfl fun heq d hd => ?_
    simp only [Symbol.extendable, heq d hd, stops_of_ne hline d hd, stops_of_ne hblock d hd,
      Bool.or_self]

end Scans

/-- The first piece of a text follows one of the rules. -/
theorem scans (c : Char) (cs : List Char) : Scans c cs (scan c cs) := by
  unfold scan
  split
  · exact .blank _ _ ‹_›
  split
  · exact .word _ _ ‹_›
  split
  · exact .number _ _ ‹_›
  split
  · exact .string _
  iterate 9 exact .single _ rfl rfl
  · exact .dots
  iterate 3 exact .orWithEq _ _ rfl rfl rfl id
  · exact .slash
  iterate 4 exact .orWithEq _ _ rfl rfl rfl id
  · split
    · exact .symbol .or '|' ['|'] _ rfl fun _ _ => rfl
    · rename_i hne
      exact .symbol .pipe '|' [] cs rfl (stops_of_ne hne)
  · split
    · exact .symbol .and '&' ['&'] _ rfl fun _ _ => rfl
    · rename_i hne
      exact .loneAmpersand _ (stops_of_ne hne)
  · refine .unexpected _ _ fun ds => ?_
    unfold scan
    rw [if_neg ‹_›, if_neg ‹_›, if_neg ‹_›]
    split <;> first | rfl | simp_all only [forall_const]

/-! ### What the rules say of a text -/

theorem scan_blank (h : isBlank c = true) : scan c cs = .blank 0 := by
  unfold scan
  rw [if_pos h]

theorem scan_word (h : isWordStart c = true) : scan c cs = scanWord c cs := by
  have hblank : ¬isBlank c = true := by
    intro hblank
    simp only [isBlank, Bool.or_eq_true, beq_iff_eq] at hblank
    rcases hblank with ((rfl | rfl) | rfl) | rfl <;> exact absurd h (by decide)
  unfold scan
  rw [if_neg hblank, if_pos h]

theorem isWordChar_of_isWordStart (h : isWordStart c = true) : isWordChar c = true := by
  simp only [isWordStart, isWordChar, Char.isAlphanum, Bool.or_eq_true] at h ⊢
  exact h.imp_left .inl

theorem isAlpha_iff : c.isAlpha = true ↔
    65 ≤ c.toNat ∧ c.toNat ≤ 90 ∨ 97 ≤ c.toNat ∧ c.toNat ≤ 122 := by
  show (decide (c.val ≥ 'A'.val ∧ c.val ≤ 'Z'.val) ||
    (c.val ≥ 'a'.val && c.val ≤ 'z'.val)) = true ↔ _
  simp only [Bool.or_eq_true, Bool.and_eq_true, decide_eq_true_eq, ge_iff_le,
    UInt32.le_iff_toNat_le]
  rfl

theorem isDigit_iff : c.isDigit = true ↔ 48 ≤ c.toNat ∧ c.toNat ≤ 57 := by
  simp only [Char.isDigit, Bool.and_eq_true, decide_eq_true_eq, ge_iff_le, UInt32.le_iff_toNat_le]
  rfl

theorem isWordStart_of_isDigit (h : c.isDigit = true) : isWordStart c = false := by
  have hline : c ≠ '_' := by
    rintro rfl
    exact absurd h (by decide)
  have halpha : ¬c.isAlpha = true := by
    rw [isDigit_iff] at h
    rw [isAlpha_iff]
    omega
  simp [isWordStart, halpha, hline]

theorem scan_number (h : c.isDigit = true) : scan c cs = scanNumber c cs := by
  have hblank : ¬isBlank c = true := by
    intro hblank
    simp only [isBlank, Bool.or_eq_true, beq_iff_eq] at hblank
    rcases hblank with ((rfl | rfl) | rfl) | rfl <;> exact absurd h (by decide)
  unfold scan
  rw [if_neg hblank, if_neg (by simp [isWordStart_of_isDigit h]), if_pos h]

theorem orWithEq_of_stops {plain withEq : Symbol} (h : Stops (· == '=') cs) :
    orWithEq plain withEq cs = .symbol plain 0 := by
  unfold orWithEq
  split
  · cases h '=' rfl
  · rfl

theorem scanDots_of_stops (h : Stops (· == '.') cs) :
    scanDots cs = .symbol .dot 0 ∧ scanDots ('.' :: cs) = .symbol .dotDot 1 := by
  cases cs with
  | nil => exact ⟨rfl, rfl⟩
  | cons d ds =>
    have hd : d ≠ '.' := by simpa using stops_cons.mp h
    constructor
    · exact scanDots.eq_3 _ (by simp [hd]) (by simp [hd])
    · exact scanDots.eq_2 _ (by simp [hd])

theorem scanSlash_of_stops (h : Stops Symbol.slash.extendable cs) :
    scanSlash cs = .symbol .slash 0 := by
  have hne {d : Char} (hd : Symbol.slash.extendable d = true) : ∀ ds, cs ≠ d :: ds := by
    rintro ds rfl
    rw [stops_cons.mp h] at hd
    cases hd
  rw [scanSlash.eq_3 _ (hne rfl) (hne rfl)]
  apply orWithEq_of_stops
  exact stops_of_ne (hne rfl)

theorem scan_pipe_of_stops (h : Stops (· == '|') cs) : scan '|' cs = .symbol .pipe 0 := by
  generalize hp : scan '|' cs = p
  have hscans := scans '|' cs
  rw [hp] at hscans
  cases hscans with
  | symbol s _ tail rest hs =>
    cases s
    all_goals simp only [Symbol.spelling, String.toList] at hs
    case pipe =>
      cases hs
      rfl
    case or =>
      cases hs
      cases stops_cons.mp h
    all_goals cases hs
  | unexpected _ _ hall => cases hall []
  | blank | word | number => contradiction

theorem scan_ampersand_of_stops (h : Stops (· == '&') cs) :
    scan '&' cs = .fault .loneAmpersand 0 := by
  generalize hp : scan '&' cs = p
  have hscans := scans '&' cs
  rw [hp] at hscans
  cases hscans with
  | symbol s _ tail rest hs =>
    cases s
    all_goals simp only [Symbol.spelling, String.toList] at hs
    case and =>
      cases hs
      cases stops_cons.mp h
    all_goals cases hs
  | loneAmpersand => rfl
  | unexpected _ _ hall => cases hall []
  | blank | word | number => contradiction

/-- A symbol is read where nothing follows that makes another of it. -/
theorem scan_symbol {s : Symbol} {tail : List Char} (hs : s.spelling.toList = c :: tail)
    (h : Stops s.extendable cs) : scan c (tail ++ cs) = .symbol s tail.length := by
  cases s
  all_goals
    simp only [Symbol.spelling, String.toList] at hs
    obtain ⟨rfl, rfl⟩ := hs
  case dot => exact (scanDots_of_stops h).1
  case dotDot => exact (scanDots_of_stops h).2
  case slash => exact scanSlash_of_stops h
  case pipe => exact scan_pipe_of_stops h
  case eq | plus | minus | star | bang | lt | gt => exact orWithEq_of_stops h
  all_goals rfl

/-! ## A text that is cut off -/

theorem commentLength?_le {n : Nat} (h : commentLength? cs = some n) : n ≤ cs.length := by
  fun_induction commentLength? cs generalizing n with
  | case1 => cases h
  | case2 cs =>
    cases h
    simp
  | case3 c cs hne ih =>
    obtain ⟨k, hk, rfl⟩ := Option.map_eq_some_iff.mp h
    exact Nat.succ_le_succ (ih hk)

theorem length_stringBody_le (cs : List Char) : (stringBody cs).length ≤ cs.length := by
  fun_induction stringBody cs with
  | case1 => simp
  | case2 => simp
  | case3 => simp
  | case4 cs ih => simpa [StringBody.push] using ih
  | case5 cs ih => simpa [StringBody.push] using ih
  | case6 => simpa [StringBody.push] using ‹_ ≤ _›

theorem length_takeWhile_le (p : Char → Bool) : (cs.takeWhile p).length ≤ cs.length :=
  (List.takeWhile_sublist p).length_le

theorem extra_scanRadix (base : Nat) (mark : Char) (cs : List Char) :
    (scanRadix base mark cs).extra = (cs.takeWhile Char.isAlphanum).length + 1 := by
  simp only [scanRadix]
  split <;> rfl

/-- The point and the digits of a fraction are among what follows the whole part. -/
theorem length_fraction_le (cs : List Char) :
    (if (fraction cs).isEmpty then 0 else (fraction cs).length + 1) ≤ cs.length := by
  unfold fraction
  split
  · split
    · exact Nat.zero_le _
    · exact Nat.succ_le_succ (length_takeWhile_le _)
  · exact Nat.zero_le _

theorem extra_scanDecimal (c : Char) (cs : List Char) :
    (scanDecimal c cs).extra = (cs.takeWhile Char.isDigit).length +
      if (fraction (cs.dropWhile Char.isDigit)).isEmpty then 0
      else (fraction (cs.dropWhile Char.isDigit)).length + 1 := by
  simp only [scanDecimal]
  split <;> rfl

theorem extra_scanNumber_le : (scanNumber c cs).extra ≤ cs.length := by
  unfold scanNumber
  split
  case h_5 =>
    have hfraction := length_fraction_le (cs.dropWhile Char.isDigit)
    have hlength := congrArg List.length
      (List.takeWhile_append_dropWhile (p := Char.isDigit) (l := cs))
    rw [List.length_append] at hlength
    rw [extra_scanDecimal]
    omega
  all_goals
    rw [extra_scanRadix]
    exact Nat.succ_le_succ (length_takeWhile_le _)

theorem Scans.extra_le {p : Piece} (h : Scans c cs p) : p.extra ≤ cs.length := by
  cases h with
  | blank | loneAmpersand | unexpected => exact Nat.zero_le _
  | word => exact length_takeWhile_le _
  | number => exact extra_scanNumber_le
  | string =>
    have := length_stringBody_le cs
    simp only [scanString]
    split <;> exact this
  | symbol s _ tail rest => exact (List.length_append ▸ Nat.le_add_right _ _)
  | lineComment cs => exact Nat.succ_le_succ (length_takeWhile_le _)
  | blockComment cs n hn => exact Nat.succ_le_succ (commentLength?_le hn)
  | openComment => exact Nat.le_refl _

/-- A piece ends within the text. -/
theorem extra_scan_le (c : Char) (cs : List Char) : (scan c cs).extra ≤ cs.length :=
  (scans c cs).extra_le

theorem exists_cons_of_take {ds : List Char} (h : cs.take m = c :: ds) : ∃ ds', cs = c :: ds' := by
  cases m with
  | zero => cases h
  | succ m =>
    cases cs with
    | nil => cases h
    | cons d cs =>
      cases h
      exact ⟨cs, rfl⟩

theorem commentLength?_take {n : Nat} (h : commentLength? cs = some n) (hm : n ≤ m) :
    commentLength? (cs.take m) = some n := by
  fun_induction commentLength? cs generalizing n m with
  | case1 => cases h
  | case2 cs =>
    cases h
    obtain ⟨m, rfl⟩ := Nat.exists_eq_add_of_le' hm
    rfl
  | case3 c cs hne ih =>
    obtain ⟨k, hk, rfl⟩ := Option.map_eq_some_iff.mp h
    obtain ⟨m, rfl⟩ := Nat.exists_eq_add_of_le' (Nat.le_of_add_left_le hm)
    rw [List.take_succ_cons, commentLength?.eq_3, ih hk (Nat.le_of_succ_le_succ hm)]
    · rfl
    · rintro ds rfl hds
      obtain ⟨ds', rfl⟩ := exists_cons_of_take hds
      exact hne ds' rfl rfl

theorem stringBody_take (h : (stringBody cs).closed = true) (hm : (stringBody cs).length ≤ m) :
    stringBody (cs.take m) = stringBody cs := by
  fun_induction stringBody cs generalizing m with
  | case1 | case3 => cases h
  | case2 cs =>
    obtain ⟨m, rfl⟩ := Nat.exists_eq_add_of_le' hm
    rfl
  | case4 cs ih | case5 cs ih =>
    obtain ⟨m, rfl⟩ := Nat.exists_eq_add_of_le' (Nat.le_of_add_left_le hm)
    rw [List.take_succ_cons, List.take_succ_cons, stringBody, ih h (Nat.le_of_add_le_add_right hm)]
  | case6 c cs hclose hend hquote hslash ih =>
    obtain ⟨m, rfl⟩ := Nat.exists_eq_add_of_le' (Nat.le_of_add_left_le hm)
    have hne {d : Char} (h : ∀ ds, c = '\\' → cs = d :: ds → False) :
        ∀ ds, c = '\\' → cs.take m = d :: ds → False := by
      intro ds hc hds
      obtain ⟨ds', hcs⟩ := exists_cons_of_take hds
      exact h ds' hc hcs
    rw [List.take_succ_cons, stringBody.eq_6 c _ hclose hend (hne hquote) (hne hslash),
      ih h (Nat.le_of_add_le_add_right hm)]

theorem fraction_take (hm : (if (fraction cs).isEmpty then 0 else (fraction cs).length + 1) ≤ m) :
    fraction (cs.take m) = fraction cs := by
  cases m with
  | zero =>
    split at hm
    · rename_i hempty
      rw [List.take_zero, List.isEmpty_iff.mp hempty]
      rfl
    · cases hm
  | succ m =>
    unfold fraction at hm
    split at hm
    · rename_i ds
      have hdigits : (ds.takeWhile Char.isDigit).length ≤ m := by
        split at hm
        · rename_i hempty
          rw [List.isEmpty_iff.mp hempty]
          exact Nat.zero_le _
        · exact Nat.le_of_succ_le_succ hm
      rw [List.take_succ_cons, fraction, fraction, takeWhile_take hdigits]
    · rename_i hne
      rw [fraction.eq_2 cs hne, fraction.eq_2]
      intro ds hds
      obtain ⟨ds', rfl⟩ := exists_cons_of_take hds
      exact hne ds' rfl

theorem scanWord_take (hm : (scanWord c cs).extra ≤ m) :
    scanWord c (cs.take m) = scanWord c cs := by
  simp only [scanWord] at hm ⊢
  rw [takeWhile_take hm]

theorem scanRadix_take {base : Nat} {mark : Char} (hm : (scanRadix base mark cs).extra ≤ m + 1) :
    scanRadix base mark (cs.take m) = scanRadix base mark cs := by
  rw [extra_scanRadix] at hm
  simp only [scanRadix, takeWhile_take (Nat.le_of_succ_le_succ hm)]

theorem scanDecimal_take (hm : (scanDecimal c cs).extra ≤ m) :
    scanDecimal c (cs.take m) = scanDecimal c cs := by
  rw [extra_scanDecimal] at hm
  have hwhole : (cs.takeWhile Char.isDigit).length ≤ m := Nat.le_of_add_right_le hm
  have hfraction : fraction ((cs.dropWhile Char.isDigit).take
      (m - (cs.takeWhile Char.isDigit).length)) = fraction (cs.dropWhile Char.isDigit) :=
    fraction_take (by omega)
  simp only [scanDecimal, takeWhile_take hwhole, dropWhile_take hwhole, hfraction]

theorem scanNumber_take (hm : (scanNumber c cs).extra ≤ m) :
    scanNumber c (cs.take m) = scanNumber c cs := by
  unfold scanNumber at hm
  split at hm
  case h_5 hx hX hb hB =>
    have hne {d : Char} (h : ∀ ds, c = '0' → cs = d :: ds → False) :
        ∀ ds, c = '0' → cs.take m = d :: ds → False := by
      intro ds hc hds
      obtain ⟨ds', hcs⟩ := exists_cons_of_take hds
      exact h ds' hc hcs
    rw [scanNumber.eq_5 c cs hx hX hb hB,
      scanNumber.eq_5 c _ (hne hx) (hne hX) (hne hb) (hne hB), scanDecimal_take hm]
  all_goals
    rw [extra_scanRadix] at hm
    obtain ⟨m, rfl⟩ := Nat.exists_eq_add_of_le' (Nat.le_of_add_left_le hm)
    exact scanRadix_take (by rwa [extra_scanRadix])

theorem scanString_take {t : Option Token} (h : (scanString cs).result = .ok t)
    (hm : (scanString cs).extra ≤ m) : scanString (cs.take m) = scanString cs := by
  simp only [scanString] at h hm
  split at h
  · rename_i hclosed
    rw [if_pos hclosed] at hm
    simp only [scanString, stringBody_take hclosed hm]
  · cases h

theorem Scans.take {p : Piece} {t : Option Token} (h : Scans c cs p) (hp : p.result = .ok t)
    (hm : p.extra ≤ m) : scan c (cs.take m) = p := by
  cases h with
  | blank _ _ hc => exact scan_blank hc
  | word _ _ hc => rw [scan_word hc, scanWord_take hm]
  | number _ _ hc => rw [scan_number hc, scanNumber_take hm]
  | string cs => exact scanString_take hp hm
  | symbol s _ tail rest hs hrest =>
    have htail : tail.length ≤ m := hm
    rw [List.take_append, List.take_of_length_le htail]
    exact scan_symbol hs hrest.take
  | lineComment cs =>
    obtain ⟨m, rfl⟩ := Nat.exists_eq_add_of_le' (Nat.le_of_add_left_le hm)
    show Piece.blank (((cs.take m).takeWhile (· != '\n')).length + 1) = _
    rw [takeWhile_take (Nat.le_of_succ_le_succ hm)]
  | blockComment cs n hn =>
    obtain ⟨m, rfl⟩ := Nat.exists_eq_add_of_le' (Nat.le_of_add_left_le hm)
    show scanSlash ('*' :: cs.take m) = _
    rw [scanSlash, commentLength?_take hn (Nat.le_of_succ_le_succ hm)]
  | openComment => cases hp
  | loneAmpersand | unexpected => cases hp

/-- A token or a blank is also read from a text that is cut off behind it. -/
theorem scan_take {t : Option Token} (h : (scan c cs).result = .ok t)
    (hm : (scan c cs).extra ≤ m) : scan c (cs.take m) = scan c cs :=
  (scans c cs).take h hm

/-! ## Texts as tokens -/

/-- The text is read as these tokens, wherever it starts. -/
def Yields (cs : List Char) (ts : List Token) : Prop :=
  ∀ start, ∃ ls, lexemes start cs = .ok ls ∧ ls.map Lexeme.token = ts ++ [.eof]

namespace Yields

variable {ts : List Token} {tail : List Char}

theorem nil : Yields [] [] := by
  intro start
  exact ⟨_, by rw [lexemes], rfl⟩

/-- A blank before a text. -/
theorem blank (hscan : scan c (tail ++ cs) = .blank tail.length) (h : Yields cs ts) :
    Yields (c :: (tail ++ cs)) ts := by
  intro start
  rw [lexemes, hscan]
  simp only [Piece.blank, List.drop_left]
  exact h _

theorem space (h : Yields cs ts) : Yields (' ' :: cs) ts := by
  have hblank : Yields (' ' :: ([] ++ cs)) ts := blank (scan_blank rfl) h
  exact hblank

/-- A token before a text. -/
theorem token {t : Token} (hscan : scan c (tail ++ cs) = .token t tail.length) (h : Yields cs ts) :
    Yields (c :: (tail ++ cs)) (t :: ts) := by
  intro start
  obtain ⟨ls, hls, htokens⟩ := h (start + Text.width (c :: tail))
  refine ⟨⟨t, ⟨start, start + Text.width (c :: tail)⟩⟩ :: ls, ?_, by simp [htokens]⟩
  rw [lexemes, hscan]
  simp only [Piece.token, List.take_left, List.drop_left, hls]
  rfl

end Yields

end Lexer

end RuleScript
