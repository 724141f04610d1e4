import RuleScript.Proofs.Lexing.Spelling

/-!
# Tokens from bytes

The same tokens can be read off the bytes of a text: every decision of the lexer needs no more than
one or two bytes, and words, digits and parts of strings are cut out of the text between the bytes
that they reach from and to. Such a cut is only possible between two characters. It always is: no
byte of a character outside of ASCII is taken for another character, so that no rule ends inside of
one.

## Main definitions

* `Text.slice?`: the part of a text between two byte offsets, if these are between characters
* `Text.bytes`: the bytes of a text
* `ByteLexer.ofSource?`: the tokens of a text, read off its bytes

## Main results

* `Text.slice?_eq_some_iff`: what can be cut out of a text
* `ByteLexer.ofSource?_eq`: no cut fails, and the tokens are those of the text
-/

namespace RuleScript

open Lexer (Stops Piece isBlank isWordStart isWordChar)

/-! ## Slices -/

namespace Text

/-- The first `n` bytes of a text and what follows them, unless a character stands across. -/
def split? : Nat → List Char → Option (List Char × List Char)
  | 0, cs => some ([], cs)
  | _ + 1, [] => none
  | n + 1, c :: cs =>
    if c.utf8Size ≤ n + 1 then
      (split? (n + 1 - c.utf8Size) cs).map fun (part, rest) => (c :: part, rest)
    else none

/-- The part of a text between two byte offsets. Both have to be in the text, in this order, and
between two characters. -/
def slice? (text : String) (span : Span) : Option String :=
  if span.start ≤ span.stop then do
    let (_, rest) ← split? span.start text.toList
    let (part, _) ← split? (span.stop - span.start) rest
    return String.ofList part
  else none

theorem width_append (cs ds : List Char) : width (cs ++ ds) = width cs + width ds := by
  induction cs with
  | nil => simp
  | cons c cs ih => simp [ih, Nat.add_assoc]

theorem split?_width (part rest : List Char) :
    split? (width part) (part ++ rest) = some (part, rest) := by
  induction part with
  | nil =>
    unfold split?
    rfl
  | cons c part ih =>
    obtain ⟨k, hk⟩ := Nat.exists_eq_add_one.mpr c.utf8Size_pos
    have hwidth : width (c :: part) = k + width part + 1 := by
      rw [width_cons, hk, Nat.add_right_comm]
    have hrest : k + width part + 1 - c.utf8Size = width part := by omega
    rw [hwidth, List.cons_append, split?, if_pos (by omega), hrest, ih]
    rfl

theorem split?_eq_some_iff {n : Nat} {cs part rest : List Char} :
    split? n cs = some (part, rest) ↔ cs = part ++ rest ∧ n = width part := by
  constructor
  · intro h
    fun_induction split? n cs generalizing part with
    | case1 cs =>
      cases h
      exact ⟨rfl, rfl⟩
    | case2 => cases h
    | case3 n c cs hle ih =>
      obtain ⟨⟨part', rest'⟩, hsplit, heq⟩ := Option.map_eq_some_iff.mp h
      cases heq
      obtain ⟨rfl, hn⟩ := ih hsplit
      exact ⟨rfl, by rw [width_cons]; omega⟩
    | case4 => cases h
  · rintro ⟨rfl, rfl⟩
    exact split?_width part rest

theorem slice?_of_append {text : String} {pre part post : List Char} {start stop : Nat}
    (htext : text.toList = pre ++ (part ++ post)) (hstart : start = width pre)
    (hstop : stop = width pre + width part) :
    slice? text ⟨start, stop⟩ = some (String.ofList part) := by
  subst hstart hstop
  simp only [slice?, if_pos (Nat.le_add_right _ _), htext, split?_width, Nat.add_sub_cancel_left,
    Option.bind_eq_bind, Option.bind_some, Option.pure_def]

/-- What can be cut out of a text: a part of it, at its place. -/
theorem slice?_eq_some_iff {text part : String} {span : Span} :
    slice? text span = some part ↔
      ∃ pre post, text.toList = pre ++ (part.toList ++ post) ∧
        span = ⟨width pre, width pre + width part.toList⟩ := by
  constructor
  · intro h
    unfold slice? at h
    split at h
    · rename_i hle
      obtain ⟨⟨pre, rest⟩, hpre, h⟩ := Option.bind_eq_some_iff.mp h
      obtain ⟨⟨part', post⟩, hpart, h⟩ := Option.bind_eq_some_iff.mp h
      cases h
      obtain ⟨htext, hstart⟩ := split?_eq_some_iff.mp hpre
      obtain ⟨rfl, hstop⟩ := split?_eq_some_iff.mp hpart
      refine ⟨pre, post, by rw [htext, String.toList_ofList], ?_⟩
      rw [String.toList_ofList, ← hstart, ← hstop, Nat.add_sub_cancel' hle]
    · cases h
  · rintro ⟨pre, post, htext, rfl⟩
    rw [slice?_of_append htext rfl rfl, String.ofList_toList]

/-! ## Bytes -/

/-- A byte as the character of the same number. -/
def ofByte (b : UInt8) : Char := Char.ofNat b.toNat

/-- The bytes of a text in UTF-8. -/
def bytes (cs : List Char) : List Char := cs.flatMap fun c => (String.utf8EncodeChar c).map ofByte

theorem bytes_eq (text : String) :
    text.toUTF8.data.toList.map ofByte = bytes text.toList := by
  rw [String.toUTF8_eq_toByteArray, ← String.utf8Encode_toList, List.utf8Encode,
    List.toList_data_toByteArray, List.map_flatMap]
  rfl

/-- A character that is one byte. -/
def isAscii (c : Char) : Bool := c.toNat < 128

theorem toNat_ofByte (b : UInt8) : (ofByte b).toNat = b.toNat := by
  have hvalid : b.toNat.isValidChar := .inl (Nat.lt_trans b.toNat_lt (by decide))
  rw [ofByte, Char.ofNat, dif_pos hvalid]
  rfl

/-- A character of ASCII is its own byte. -/
theorem map_utf8EncodeChar_of_isAscii {c : Char} (h : isAscii c = true) :
    (String.utf8EncodeChar c).map ofByte = [c] := by
  have hc : c.val.toNat < 128 := by simpa [isAscii] using h
  have hbyte : c.val.toNat % 256 = c.toNat := Nat.mod_eq_of_lt (by omega)
  rw [String.utf8EncodeChar, if_pos (by omega), List.map_singleton, ofByte, UInt8.toNat_ofNat',
    hbyte, Char.ofNat_toNat]

/-- The bytes of a character outside of ASCII are outside of ASCII. -/
theorem isAscii_of_mem_utf8EncodeChar {c : Char} (h : isAscii c = false) :
    ∀ d ∈ (String.utf8EncodeChar c).map ofByte, isAscii d = false := by
  have hc : ¬c.val.toNat ≤ 127 := by
    have : 128 ≤ c.val.toNat := by simpa [isAscii] using h
    omega
  intro d hd
  obtain ⟨b, hb, rfl⟩ := List.mem_map.mp hd
  suffices 128 ≤ b.toNat by simpa [isAscii, toNat_ofByte] using this
  have htoNat {n : Nat} (hn : 128 ≤ n) (hn' : n < 256) : 128 ≤ (UInt8.ofNat n).toNat := by
    rwa [UInt8.toNat_ofNat', Nat.mod_eq_of_lt hn']
  rw [String.utf8EncodeChar, if_neg hc] at hb
  split at hb
  · simp only [List.mem_cons, List.not_mem_nil, or_false] at hb
    rcases hb with rfl | rfl <;> apply htoNat <;> omega
  · split at hb
    · simp only [List.mem_cons, List.not_mem_nil, or_false] at hb
      rcases hb with rfl | rfl | rfl <;> apply htoNat <;> omega
    · simp only [List.mem_cons, List.not_mem_nil, or_false] at hb
      rcases hb with rfl | rfl | rfl | rfl <;> apply htoNat <;> omega

theorem bytes_append (cs ds : List Char) : bytes (cs ++ ds) = bytes cs ++ bytes ds :=
  List.flatMap_append

theorem bytes_cons (c : Char) (cs : List Char) :
    bytes (c :: cs) = (String.utf8EncodeChar c).map ofByte ++ bytes cs :=
  List.flatMap_cons

theorem bytes_cons_of_isAscii {c : Char} (h : isAscii c = true) (cs : List Char) :
    bytes (c :: cs) = c :: bytes cs := by
  rw [bytes_cons, map_utf8EncodeChar_of_isAscii h, List.singleton_append]

/-- A text in ASCII is its own bytes. -/
theorem bytes_eq_self {cs : List Char} (h : ∀ c ∈ cs, isAscii c = true) : bytes cs = cs := by
  induction cs with
  | nil => rfl
  | cons c cs ih =>
    obtain ⟨hc, hcs⟩ := List.forall_mem_cons.mp h
    rw [bytes_cons_of_isAscii hc, ih hcs]

theorem utf8Size_of_isAscii {c : Char} (h : isAscii c = true) : c.utf8Size = 1 := by
  have hlength := congrArg List.length (map_utf8EncodeChar_of_isAscii h)
  rwa [List.length_map, String.length_utf8EncodeChar] at hlength

/-- The bytes of a text that starts outside of ASCII. -/
theorem exists_bytes_cons {c : Char} (h : isAscii c = false) :
    ∃ d ds, (∀ cs, bytes (c :: cs) = d :: ds ++ bytes cs) ∧
      (∀ e ∈ d :: ds, isAscii e = false) ∧ (d :: ds).length = c.utf8Size := by
  have hne : (String.utf8EncodeChar c).map ofByte ≠ [] := by
    rw [Ne, List.map_eq_nil_iff]
    exact String.utf8EncodeChar_ne_nil
  obtain ⟨d, ds, hds⟩ := List.exists_cons_of_ne_nil hne
  refine ⟨d, ds, fun cs => by rw [bytes_cons, hds], ?_, ?_⟩
  · rw [← hds]
    exact isAscii_of_mem_utf8EncodeChar h
  · rw [← hds, List.length_map, String.length_utf8EncodeChar]

theorem length_bytes (cs : List Char) : (bytes cs).length = width cs := by
  induction cs with
  | nil => rfl
  | cons c cs ih =>
    rw [bytes_cons, List.length_append, List.length_map, String.length_utf8EncodeChar, ih,
      width_cons]

theorem width_eq_length {cs : List Char} (h : ∀ c ∈ cs, isAscii c = true) :
    width cs = cs.length := by
  rw [← length_bytes, bytes_eq_self h]

/-- A byte of ASCII at the start is a character at the start. -/
theorem exists_of_bytes_eq_cons {d : Char} (hd : isAscii d = true) {cs ds : List Char}
    (h : bytes cs = d :: ds) : ∃ cs', cs = d :: cs' := by
  cases cs with
  | nil => cases h
  | cons c cs =>
    cases hc : isAscii c with
    | true =>
      rw [bytes_cons_of_isAscii hc] at h
      cases h
      exact ⟨cs, rfl⟩
    | false =>
      obtain ⟨e, es, hbytes, hes, -⟩ := exists_bytes_cons hc
      rw [hbytes] at h
      cases h
      cases hd.symm.trans (hes d List.mem_cons_self)

/-! ### Classes of characters -/

/-- A class of characters that does not tell apart what is outside of ASCII. -/
def Even (p : Char → Bool) : Prop :=
  ∀ ⦃c d⦄, isAscii c = false → isAscii d = false → p c = p d

variable {p : Char → Bool}

theorem takeWhile_dropWhile_bytes (hp : Even p) (cs : List Char) :
    (bytes cs).takeWhile p = bytes (cs.takeWhile p) ∧
      (bytes cs).dropWhile p = bytes (cs.dropWhile p) := by
  induction cs with
  | nil => exact ⟨rfl, rfl⟩
  | cons c cs ih =>
    cases hc : isAscii c with
    | true =>
      rw [bytes_cons_of_isAscii hc, List.takeWhile_cons, List.takeWhile_cons, List.dropWhile_cons,
        List.dropWhile_cons, ih.1, ih.2]
      split
      · exact ⟨(bytes_cons_of_isAscii hc _).symm, rfl⟩
      · exact ⟨rfl, (bytes_cons_of_isAscii hc _).symm⟩
    | false =>
      obtain ⟨d, ds, hbytes, hds, -⟩ := exists_bytes_cons hc
      rw [hbytes, List.takeWhile_cons (a := c), List.dropWhile_cons (x := c)]
      split
      · rename_i hpc
        have hall : ∀ e ∈ d :: ds, p e = true := fun e he => (hp (hds e he) hc).trans hpc
        rw [List.takeWhile_append_of_pos hall, List.dropWhile_append_of_pos hall, ih.1, ih.2,
          hbytes]
        exact ⟨rfl, rfl⟩
      · rename_i hpc
        have hd : ¬p d = true := by rwa [hp (hds d List.mem_cons_self) hc]
        rw [List.cons_append, List.takeWhile_cons_of_neg hd, List.dropWhile_cons_of_neg hd, hbytes]
        exact ⟨rfl, rfl⟩

theorem takeWhile_bytes (hp : Even p) (cs : List Char) :
    (bytes cs).takeWhile p = bytes (cs.takeWhile p) :=
  (takeWhile_dropWhile_bytes hp cs).1

theorem dropWhile_bytes (hp : Even p) (cs : List Char) :
    (bytes cs).dropWhile p = bytes (cs.dropWhile p) :=
  (takeWhile_dropWhile_bytes hp cs).2

theorem stops_bytes (hp : Even p) {cs : List Char} (h : Stops p cs) : Stops p (bytes cs) := by
  cases cs with
  | nil => exact h
  | cons c cs =>
    cases hc : isAscii c with
    | true =>
      rw [bytes_cons_of_isAscii hc]
      exact Lexer.stops_cons.mpr (Lexer.stops_cons.mp h)
    | false =>
      obtain ⟨d, ds, hbytes, hds, -⟩ := exists_bytes_cons hc
      rw [hbytes]
      refine Lexer.stops_cons.mpr ?_
      rw [hp (hds d List.mem_cons_self) hc, Lexer.stops_cons.mp h]

/-- Letters, digits and marks are in ASCII. -/
theorem Even.of_isAscii (h : ∀ c, p c = true → isAscii c = true) : Even p := by
  have hfalse {c : Char} (hc : isAscii c = false) : p c = false := by
    refine Bool.eq_false_iff.mpr fun hpc => ?_
    cases hc.symm.trans (h c hpc)
  intro c d hc hd
  rw [hfalse hc, hfalse hd]

theorem isAscii_of_isAlphanum {c : Char} (h : c.isAlphanum = true) : isAscii c = true := by
  rw [Char.isAlphanum, Bool.or_eq_true, Lexer.isAlpha_iff, Lexer.isDigit_iff] at h
  rw [isAscii, decide_eq_true_eq]
  omega

theorem isAscii_of_isWordChar {c : Char} (h : isWordChar c = true) : isAscii c = true := by
  simp only [isWordChar, Bool.or_eq_true, beq_iff_eq] at h
  rcases h with h | rfl
  · exact isAscii_of_isAlphanum h
  · rfl

theorem isAscii_of_isDigit {c : Char} (h : c.isDigit = true) : isAscii c = true :=
  isAscii_of_isWordChar (Lexer.isWordChar_of_isDigit h)

theorem isAscii_of_extendable {s : Symbol} {c : Char} (h : s.extendable c = true) :
    isAscii c = true := by
  cases s <;> simp only [Symbol.extendable, Bool.or_eq_true, beq_iff_eq, Bool.false_eq_true] at h
  case slash => rcases h with (rfl | rfl) | rfl <;> rfl
  all_goals
    subst h
    rfl

/-- Every text that is read as a symbol is in ASCII. -/
theorem isAscii_of_mem_spelling (s : Symbol) : ∀ c ∈ s.spelling.toList, isAscii c = true := by
  cases s <;> exact List.all_eq_true.mp rfl

end Text

/-! ## Reading bytes -/

namespace ByteLexer

open Lexer

variable (source : String)

/-- The word that starts at a byte, with the bytes behind that. -/
def word? (start : Nat) (cs : List Char) : Option Piece := do
  let length := (cs.takeWhile isWordChar).length
  let word ← Text.slice? source ⟨start, start + 1 + length⟩
  return .token (wordToken word) length

/-- The number in another base whose mark is behind `start`, with the bytes behind the mark. -/
def radix? (start base : Nat) (cs : List Char) : Option Piece := do
  let length := (cs.takeWhile Char.isAlphanum).length
  let digits ← Text.slice? source ⟨start + 2, start + 2 + length⟩
  match radixValue? base digits.toList with
  | some x => return .token (.number x) (length + 1)
  | none =>
    let text ← Text.slice? source ⟨start, start + 2 + length⟩
    return .fault (.invalidNumber text) (length + 1)

/-- The decimal number that starts at a byte, with the bytes behind that. -/
def decimal? (start : Nat) (cs : List Char) : Option Piece := do
  let part := fraction (cs.dropWhile Char.isDigit)
  let extra :=
    (cs.takeWhile Char.isDigit).length + if part.isEmpty then 0 else part.length + 1
  let text ← Text.slice? source ⟨start, start + 1 + extra⟩
  let x := Decimal.ofText text
  return if x.isFinite then .token (.number x) extra else .fault .numberTooLarge extra

/-- The number that starts with the byte `c`. -/
def number? (start : Nat) (c : Char) (cs : List Char) : Option Piece :=
  match c, cs with
  | '0', 'x' :: ds => radix? source start 16 ds
  | '0', 'X' :: ds => radix? source start 16 ds
  | '0', 'b' :: ds => radix? source start 2 ds
  | '0', 'B' :: ds => radix? source start 2 ds
  | _, cs => decimal? source start cs

/-- Reads a string up to its closing quote: what it stands for, if there is a quote, and the place
where reading stopped. What has no backslash in it is cut out in one piece, which starts at
`chunk`. -/
def string? (value : String) (chunk pos : Nat) : List Char → Option (Option String × Nat)
  | [] => some (none, pos)
  | '"' :: _ => do
    let piece ← Text.slice? source ⟨chunk, pos⟩
    return (some (value ++ piece), pos + 1)
  | '\n' :: _ => some (none, pos)
  | '\\' :: '"' :: cs => do
    let piece ← Text.slice? source ⟨chunk, pos⟩
    string? (value ++ piece ++ "\"") (pos + 2) (pos + 2) cs
  | '\\' :: '\\' :: cs => do
    let piece ← Text.slice? source ⟨chunk, pos⟩
    string? (value ++ piece ++ "\\") (pos + 2) (pos + 2) cs
  | _ :: cs => string? value chunk (pos + 1) cs

/-- The string whose opening quote is at `start`, with the bytes behind that. -/
def quoted? (start : Nat) (cs : List Char) : Option Piece := do
  match ← string? source "" (start + 1) (start + 1) cs with
  | (some value, stop) => return .token (.string value) (stop - start - 1)
  | (none, stop) => return .fault .unterminatedString (stop - start - 1)

/-- The fault at a byte that starts nothing: it names the character that is there. -/
def unexpected? (start : Nat) : Option Piece := do
  let rest ← Text.slice? source ⟨start, Text.width source.toList⟩
  let d := rest.toList.headD '?'
  return .fault (.unexpectedChar d) (d.utf8Size - 1)

/-- The first piece of the bytes `c :: cs`, which start at `start`. Blanks and symbols are those of
`scan`, byte by byte. -/
def scan? (start : Nat) (c : Char) (cs : List Char) : Option Piece :=
  if isWordStart c then word? source start cs
  else if c.isDigit then number? source start c cs
  else if c = '"' then quoted? source start cs
  else
    match (scan c cs).result with
    | .error (.unexpectedChar _) => unexpected? source start
    | _ => some (scan c cs)

/-- The tokens of the bytes that start at `start`. -/
def lexemes? (start : Nat) : List Char → Option (Except Error (List Lexeme))
  | [] => some (.ok [⟨.eof, ⟨start, start⟩⟩])
  | c :: cs => do
    let piece ← scan? source start c cs
    let stop := start + 1 + piece.extra
    match piece.result with
    | .error fault => return .error ⟨fault, ⟨start, stop⟩⟩
    | .ok none => lexemes? stop (cs.drop piece.extra)
    | .ok (some t) => do
      let tokens ← lexemes? stop (cs.drop piece.extra)
      return tokens.map (⟨t, ⟨start, stop⟩⟩ :: ·)
termination_by cs => cs.length
decreasing_by all_goals simp only [List.length_drop, List.length_cons]; omega

/-- The tokens of a text, read off its bytes; nothing if a cut fails. -/
def ofSource? : Option (Except Error (List Lexeme)) :=
  lexemes? source 0 (source.toUTF8.data.toList.map Text.ofByte)

/-! ## Every cut succeeds -/

end ByteLexer

namespace Lexer

open Text (bytes isAscii width)

/-- The piece with its reach in bytes. -/
def Piece.onBytes (p : Piece) (c : Char) (cs : List Char) : Piece :=
  ⟨p.result, width (c :: cs.take p.extra) - 1⟩

theorem Piece.onBytes_of_isAscii {c : Char} (hc : isAscii c = true) (p : Piece) (cs : List Char) :
    p.onBytes c cs = ⟨p.result, width (cs.take p.extra)⟩ := by
  rw [onBytes, Text.width_cons, Text.utf8Size_of_isAscii hc, Nat.add_sub_cancel_left]

/-- What is in ASCII reaches as far in bytes as in characters. -/
theorem Piece.onBytes_eq_self {p : Piece} {c : Char} {part post : List Char}
    (h : ∀ d ∈ c :: part, isAscii d = true) (hp : p.extra = part.length) :
    p.onBytes c (part ++ post) = p := by
  obtain ⟨hc, hpart⟩ := List.forall_mem_cons.mp h
  rw [onBytes_of_isAscii hc, hp, List.take_left, Text.width_eq_length hpart, ← hp]

end Lexer

namespace ByteLexer

open Lexer
open Text (bytes isAscii width)

variable {source : String} {pre cs : List Char} {c : Char}

theorem even_isWordChar : Text.Even isWordChar := .of_isAscii fun _ => Text.isAscii_of_isWordChar

theorem even_isAlphanum : Text.Even Char.isAlphanum :=
  .of_isAscii fun _ => Text.isAscii_of_isAlphanum

theorem even_isDigit : Text.Even Char.isDigit := .of_isAscii fun _ => Text.isAscii_of_isDigit

/-- A part of the source that is in ASCII can be cut out by its length. -/
theorem slice?_of_isAscii {part post : List Char} {start stop : Nat}
    (hsource : source.toList = pre ++ (part ++ post)) (hpart : ∀ d ∈ part, isAscii d = true)
    (hstart : start = width pre) (hstop : stop = start + part.length) :
    Text.slice? source ⟨start, stop⟩ = some (String.ofList part) :=
  Text.slice?_of_append hsource hstart (by rw [hstop, hstart, Text.width_eq_length hpart])

theorem word?_eq (hc : isWordStart c = true) (hsource : source.toList = pre ++ c :: cs) :
    word? source (width pre) (bytes cs) = some ((scanWord c cs).onBytes c cs) := by
  obtain ⟨tail, rest, rfl, htail, hrest⟩ := exists_append_stops isWordChar cs
  have hword : ∀ d ∈ c :: tail, isAscii d = true := List.forall_mem_cons.mpr
    ⟨Text.isAscii_of_isWordChar (isWordChar_of_isWordStart hc),
      fun d hd => Text.isAscii_of_isWordChar (htail d hd)⟩
  have hbytes : (bytes (tail ++ rest)).takeWhile isWordChar = tail := by
    rw [Text.takeWhile_bytes even_isWordChar, takeWhile_append_of_stops htail hrest,
      Text.bytes_eq_self (List.forall_mem_cons.mp hword).2]
  have hslice : Text.slice? source ⟨width pre, width pre + 1 + tail.length⟩
      = some (String.ofList (c :: tail)) :=
    slice?_of_isAscii hsource hword rfl (by rw [List.length_cons]; omega)
  rw [scanWord_append htail hrest, Piece.onBytes_eq_self hword rfl]
  simp only [word?, hbytes, hslice]
  rfl

/-- A number in another base: its mark and its digits are cut out apart. -/
theorem radix?_eq {base : Nat} {mark : Char} (hmark : isAscii mark = true)
    (hsource : source.toList = pre ++ '0' :: mark :: cs) :
    radix? source (width pre) base (bytes cs) =
      some ((scanRadix base mark cs).onBytes '0' (mark :: cs)) := by
  obtain ⟨digits, rest, rfl, hdigits, hrest⟩ := exists_append_stops Char.isAlphanum cs
  have hascii : ∀ d ∈ digits, isAscii d = true := fun d hd =>
    Text.isAscii_of_isAlphanum (hdigits d hd)
  have hall : ∀ d ∈ '0' :: mark :: digits, isAscii d = true :=
    List.forall_mem_cons.mpr ⟨rfl, List.forall_mem_cons.mpr ⟨hmark, hascii⟩⟩
  have hextra := extra_scanRadix base mark (digits ++ rest)
  rw [takeWhile_append_of_stops hdigits hrest] at hextra
  have hbytes : (bytes (digits ++ rest)).takeWhile Char.isAlphanum = digits := by
    rw [Text.takeWhile_bytes even_isAlphanum, takeWhile_append_of_stops hdigits hrest,
      Text.bytes_eq_self hascii]
  have hslice : Text.slice? source ⟨width pre + 2, width pre + 2 + digits.length⟩
      = some (String.ofList digits) := by
    have hmarks : ∀ d ∈ ['0', mark], isAscii d = true :=
      List.forall_mem_cons.mpr ⟨rfl, List.forall_mem_singleton.mpr hmark⟩
    have hsource' : source.toList = pre ++ ['0', mark] ++ (digits ++ rest) := by simp [hsource]
    refine slice?_of_isAscii hsource' hascii ?_ rfl
    rw [Text.width_append, Text.width_eq_length hmarks]
    rfl
  have htext : Text.slice? source ⟨width pre, width pre + 2 + digits.length⟩
      = some (String.ofList ('0' :: mark :: digits)) :=
    slice?_of_isAscii hsource hall rfl (by simp only [List.length_cons]; omega)
  rw [← List.cons_append, Piece.onBytes_eq_self hall (by rw [hextra]; rfl)]
  simp only [radix?, scanRadix, hbytes, hslice, htext, takeWhile_append_of_stops hdigits hrest,
    Option.bind_eq_bind, Option.bind_some, String.toList_ofList]
  cases radixValue? base digits <;> rfl

theorem fraction_bytes (cs : List Char) : fraction (bytes cs) = fraction cs := by
  unfold fraction
  split
  · rename_i ds hds
    obtain ⟨cs, rfl⟩ := Text.exists_of_bytes_eq_cons rfl hds
    rw [Text.bytes_cons_of_isAscii rfl] at hds
    cases hds
    rw [Text.takeWhile_bytes even_isDigit]
    exact Text.bytes_eq_self fun d hd => Text.isAscii_of_isDigit (List.mem_takeWhile_imp hd)
  · rename_i hne
    split
    · exact absurd (Text.bytes_cons_of_isAscii rfl _) (hne _)
    · rfl

theorem take_fraction (cs : List Char) :
    cs.take (if (fraction cs).isEmpty then 0 else (fraction cs).length + 1) =
      Decimal.pointed (fraction cs) := by
  unfold Decimal.pointed
  split
  · rfl
  · rename_i hne
    unfold fraction at hne ⊢
    split
    · rw [List.take_succ_cons, take_length_takeWhile]
    · simp at hne

theorem isAscii_of_mem_pointed {part : List Char} (h : ∀ d ∈ part, d.isDigit = true) :
    ∀ d ∈ Decimal.pointed part, isAscii d = true := by
  have hpart : ∀ d ∈ part, isAscii d = true := fun d hd => Text.isAscii_of_isDigit (h d hd)
  unfold Decimal.pointed
  split
  · exact List.forall_mem_nil _
  · exact List.forall_mem_cons.mpr ⟨rfl, hpart⟩

theorem isDigit_of_mem_fraction : ∀ d ∈ fraction cs, d.isDigit = true := by
  unfold fraction
  split
  · exact fun _ => List.mem_takeWhile_imp
  · exact List.forall_mem_nil _

/-- A decimal number is cut out with its fraction. -/
theorem decimal?_eq (hc : c.isDigit = true) (hsource : source.toList = pre ++ c :: cs) :
    decimal? source (width pre) (bytes cs) = some ((scanDecimal c cs).onBytes c cs) := by
  obtain ⟨whole, rest, rfl, hwhole, hrest⟩ := exists_append_stops Char.isDigit cs
  have hextra := extra_scanDecimal c (whole ++ rest)
  have htake := take_fraction rest
  have hle := length_fraction_le rest
  have hpart : ∀ d ∈ fraction rest, d.isDigit = true := isDigit_of_mem_fraction
  have hbytes : (bytes (whole ++ rest)).takeWhile Char.isDigit = whole ∧
      fraction ((bytes (whole ++ rest)).dropWhile Char.isDigit) = fraction rest := by
    rw [Text.takeWhile_bytes even_isDigit, Text.dropWhile_bytes even_isDigit, fraction_bytes,
      takeWhile_append_of_stops hwhole hrest, dropWhile_append_of_stops hwhole hrest,
      Text.bytes_eq_self fun d hd => Text.isAscii_of_isDigit (hwhole d hd)]
    exact ⟨rfl, rfl⟩
  rw [takeWhile_append_of_stops hwhole hrest, dropWhile_append_of_stops hwhole hrest] at hextra
  generalize hlength : (if (fraction rest).isEmpty then 0 else (fraction rest).length + 1) = n
    at hextra htake hle
  have hsplit : whole ++ rest = whole ++ Decimal.pointed (fraction rest) ++ rest.drop n := by
    rw [← htake, List.append_assoc, List.take_append_drop]
  have hreach : (whole ++ Decimal.pointed (fraction rest)).length = whole.length + n := by
    rw [List.length_append, ← htake, List.length_take, Nat.min_eq_left hle]
  have hdigits : ∀ d ∈ c :: whole, d.isDigit = true := List.forall_mem_cons.mpr ⟨hc, hwhole⟩
  have hascii : ∀ d ∈ c :: (whole ++ Decimal.pointed (fraction rest)), isAscii d = true := by
    rw [← List.cons_append]
    exact List.forall_mem_append.mpr ⟨fun d hd => Text.isAscii_of_isDigit (hdigits d hd),
      isAscii_of_mem_pointed hpart⟩
  have hsource' : source.toList =
      pre ++ (c :: (whole ++ Decimal.pointed (fraction rest)) ++ rest.drop n) := by
    rw [hsource, hsplit, List.cons_append]
  have hslice : Text.slice? source ⟨width pre, width pre + 1 + (whole.length + n)⟩
      = some (String.ofList (c :: (whole ++ Decimal.pointed (fraction rest)))) :=
    slice?_of_isAscii hsource' hascii rfl (by rw [List.length_cons, hreach]; omega)
  rw [hsplit, Piece.onBytes_eq_self hascii (by rw [← hsplit, hextra, hreach]), ← hsplit]
  simp only [decimal?, hbytes, hlength, hslice, Option.bind_eq_bind, Option.bind_some,
    Decimal.ofText_pointed hdigits hpart, scanDecimal, takeWhile_append_of_stops hwhole hrest,
    dropWhile_append_of_stops hwhole hrest]
  rfl

theorem number?_eq (hc : c.isDigit = true) (hsource : source.toList = pre ++ c :: cs) :
    number? source (width pre) c (bytes cs) = some ((scanNumber c cs).onBytes c cs) := by
  unfold scanNumber
  split
  case h_5 hx hX hb hB =>
    have hne {mark : Char} (hmark : isAscii mark = true)
        (h : ∀ ds, c = '0' → cs = mark :: ds → False) :
        ∀ ds, c = '0' → bytes cs = mark :: ds → False := by
      intro ds hc hds
      obtain ⟨cs', rfl⟩ := Text.exists_of_bytes_eq_cons hmark hds
      exact h cs' hc rfl
    rw [number?.eq_5 _ _ c _ (hne rfl hx) (hne rfl hX) (hne rfl hb) (hne rfl hB)]
    exact decimal?_eq hc hsource
  all_goals
    rw [Text.bytes_cons_of_isAscii rfl]
    exact radix?_eq rfl hsource

/-- Bytes outside of ASCII are passed over in a string. -/
theorem string?_append {value : String} {chunk pos : Nat} {ds : List Char}
    (h : ∀ d ∈ ds, isAscii d = false) :
    string? source value chunk pos (ds ++ cs) =
      string? source value chunk (pos + ds.length) cs := by
  induction ds generalizing pos with
  | nil => rfl
  | cons d ds ih =>
    obtain ⟨hd, hds⟩ := List.forall_mem_cons.mp h
    have hne {e : Char} (he : isAscii e = true) : d ≠ e := by
      rintro rfl
      cases hd.symm.trans he
    rw [List.cons_append, string?.eq_6 _ _ _ _ d _ (hne rfl) (hne rfl)
      (fun _ h => absurd h (hne rfl)) (fun _ h => absurd h (hne rfl)), ih hds, List.length_cons,
      Nat.add_assoc, Nat.add_comm 1]

/-- An escape ends what is cut out in one piece. -/
theorem string?_escape {value : String} {chunk : List Char} {e : Char} (he : e = '"' ∨ e = '\\')
    (hsource : source.toList = pre ++ (chunk ++ '\\' :: e :: cs)) :
    string? source value (width pre) (width pre + width chunk) (bytes ('\\' :: e :: cs)) =
      string? source (value ++ String.ofList (chunk ++ [e])) (width (pre ++ (chunk ++ ['\\', e])))
        (width (pre ++ (chunk ++ ['\\', e])) + width []) (bytes cs) := by
  have hwidth : width (pre ++ (chunk ++ ['\\', e])) = width pre + width chunk + 2 := by
    rw [Text.width_append, Text.width_append, ← Nat.add_assoc]
    rcases he with rfl | rfl <;> rfl
  have hslice := Text.slice?_of_append hsource rfl rfl
  rw [hwidth, String.ofList_append, ← String.append_assoc, Text.bytes_cons_of_isAscii rfl]
  rcases he with rfl | rfl
  · rw [Text.bytes_cons_of_isAscii rfl, string?, hslice]
    rfl
  · rw [Text.bytes_cons_of_isAscii rfl, string?, hslice]
    rfl

/-- Reading a string byte by byte, with `chunk` read since the last escape. -/
theorem string?_eq (value : String) {chunk : List Char}
    (hsource : source.toList = pre ++ (chunk ++ cs)) :
    string? source value (width pre) (width pre + width chunk) (bytes cs) =
      some (if (stringBody cs).closed
          then some (value ++ String.ofList (chunk ++ (stringBody cs).value)) else none,
        width pre + width chunk + width (cs.take (stringBody cs).length)) := by
  -- Along the text, character by character; `chunk` is what has been read but not yet cut out.
  fun_induction stringBody cs generalizing pre chunk value with
  | case1 => rfl
  | case2 cs =>
    rw [Text.bytes_cons_of_isAscii rfl, string?, Text.slice?_of_append hsource rfl rfl,
      List.append_nil]
    rfl
  | case3 cs =>
    rw [Text.bytes_cons_of_isAscii rfl]
    rfl
  | case4 cs ih | case5 cs ih =>
    rw [string?_escape (by simp) hsource, ih _ (by simp [hsource]), String.append_assoc,
      ← String.ofList_append, List.append_assoc]
    simp only [StringBody.push, List.nil_append, List.singleton_append, List.take_succ_cons,
      Text.width_append, Text.width_cons, Text.width_nil, Nat.add_assoc, Nat.add_zero]
    rfl
  | case6 c cs hclose hend hquote hslash ih =>
    have hstep : string? source value (width pre) (width pre + width chunk) (bytes (c :: cs)) =
        string? source value (width pre) (width pre + width (chunk ++ [c])) (bytes cs) := by
      have hwidth : width (chunk ++ [c]) = width chunk + c.utf8Size := by
        rw [Text.width_append, Text.width_cons, Text.width_nil, Nat.add_zero]
      cases hc : isAscii c with
      | true =>
        have hne {d : Char} (hd : isAscii d = true) (h : ∀ ds, c = '\\' → cs = d :: ds → False) :
            ∀ ds, c = '\\' → bytes cs = d :: ds → False := by
          intro ds hc hds
          obtain ⟨cs', rfl⟩ := Text.exists_of_bytes_eq_cons hd hds
          exact h cs' hc rfl
        rw [Text.bytes_cons_of_isAscii hc, string?.eq_6 _ _ _ _ c _ hclose hend (hne rfl hquote)
          (hne rfl hslash), hwidth, Text.utf8Size_of_isAscii hc, Nat.add_assoc]
      | false =>
        obtain ⟨d, ds, hbytes, hds, hlength⟩ := Text.exists_bytes_cons hc
        rw [hbytes, string?_append hds, hlength, hwidth, Nat.add_assoc]
    rw [hstep, ih _ (by simp [hsource])]
    simp only [StringBody.push, List.append_assoc, List.singleton_append, List.take_succ_cons,
      Text.width_append, Text.width_cons, Text.width_nil, Nat.add_assoc, Nat.add_zero]
    rfl

theorem commentLength?_append {ds : List Char} (h : ∀ d ∈ ds, isAscii d = false) :
    commentLength? (ds ++ cs) = (commentLength? cs).map (· + ds.length) := by
  induction ds with
  | nil => simp
  | cons d ds ih =>
    obtain ⟨hd, hds⟩ := List.forall_mem_cons.mp h
    have hne : ∀ es, d = '*' → ds ++ cs = '/' :: es → False := by
      rintro es rfl
      cases hd
    rw [List.cons_append, commentLength?.eq_3 d _ hne, ih hds, Option.map_map]
    rfl

/-- The end of a comment is found at the same place. -/
theorem commentLength?_bytes (cs : List Char) :
    commentLength? (bytes cs) = (commentLength? cs).map fun n => width (cs.take n) := by
  fun_induction commentLength? cs with
  | case1 => rfl
  | case2 cs =>
    rw [Text.bytes_cons_of_isAscii rfl, Text.bytes_cons_of_isAscii rfl]
    rfl
  | case3 c cs hne ih =>
    have hstep : ∀ n, width ((c :: cs).take (n + 1)) = width (cs.take n) + c.utf8Size := fun n => by
      rw [List.take_succ_cons, Text.width_cons, Nat.add_comm]
    simp only [Option.map_map, Function.comp_def, hstep]
    cases hc : isAscii c with
    | true =>
      have hne' : ∀ ds, c = '*' → bytes cs = '/' :: ds → False := by
        intro ds hc hds
        obtain ⟨cs', rfl⟩ := Text.exists_of_bytes_eq_cons rfl hds
        exact hne cs' hc rfl
      rw [Text.bytes_cons_of_isAscii hc, commentLength?.eq_3 c _ hne', ih, Option.map_map,
        Text.utf8Size_of_isAscii hc]
      rfl
    | false =>
      obtain ⟨d, ds, hbytes, hds, hlength⟩ := Text.exists_bytes_cons hc
      rw [hbytes, commentLength?_append hds, hlength, ih, Option.map_map]
      rfl

theorem isAscii_of_isBlank (h : isBlank c = true) : isAscii c = true := by
  simp only [isBlank, Bool.or_eq_true, beq_iff_eq] at h
  rcases h with ((rfl | rfl) | rfl) | rfl <;> rfl

/-- Nothing outside of ASCII starts a token or a blank. -/
theorem unexpected_of_scans {p : Piece} (h : Scans c cs p) (hc : isAscii c = false) :
    p = .fault (.unexpectedChar c) 0 := by
  have hfalse {P : Prop} (h : isAscii c = true) : P := by
    cases hc.symm.trans h
  cases h with
  | blank _ _ h => exact hfalse (isAscii_of_isBlank h)
  | word _ _ h => exact hfalse (Text.isAscii_of_isWordChar (isWordChar_of_isWordStart h))
  | number _ _ h => exact hfalse (Text.isAscii_of_isDigit h)
  | symbol s _ tail rest hs _ =>
    exact hfalse (Text.isAscii_of_mem_spelling s c (hs ▸ List.mem_cons_self))
  | unexpected => rfl
  | string | lineComment | blockComment | openComment | loneAmpersand => exact hfalse rfl

/-- Blanks, symbols and faults reach as far in the bytes. -/
theorem scan_bytes_of_scans {p : Piece} (h : Scans c cs p) (hc : isAscii c = true)
    (hword : isWordStart c = false) (hdigit : c.isDigit = false) (hquote : c ≠ '"') :
    scan c (bytes cs) = p.onBytes c cs := by
  rw [Piece.onBytes_of_isAscii hc]
  cases h with
  | blank _ _ h => exact scan_blank h
  | word _ _ h => cases hword.symm.trans h
  | number _ _ h => cases hdigit.symm.trans h
  | string => exact absurd rfl hquote
  | symbol s _ tail rest hs hrest =>
    have htail : ∀ d ∈ tail, isAscii d = true := fun d hd =>
      Text.isAscii_of_mem_spelling s d (hs ▸ List.mem_cons_of_mem c hd)
    have heven : Text.Even s.extendable := .of_isAscii fun _ => Text.isAscii_of_extendable
    rw [Text.bytes_append, Text.bytes_eq_self htail, scan_symbol hs (Text.stops_bytes heven hrest)]
    simp only [Piece.symbol, Piece.token, List.take_left, Text.width_eq_length htail]
  | lineComment cs =>
    have heven : Text.Even (· != '\n') := by
      have htrue {d : Char} (hd : isAscii d = false) : (d != '\n') = true :=
        bne_iff_ne.mpr fun h => by cases h ▸ hd
      exact fun d e hd he => (htrue hd).trans (htrue he).symm
    rw [Text.bytes_cons_of_isAscii rfl]
    show Piece.blank (((bytes cs).takeWhile (· != '\n')).length + 1) = _
    rw [Text.takeWhile_bytes heven, Text.length_bytes]
    simp only [Piece.blank, List.take_succ_cons, take_length_takeWhile, Text.width_cons]
    rw [Nat.add_comm]
    rfl
  | blockComment cs n hn =>
    rw [Text.bytes_cons_of_isAscii rfl]
    show scanSlash ('*' :: bytes cs) = _
    rw [scanSlash, commentLength?_bytes, hn]
    simp only [Option.map_some, Piece.blank, List.take_succ_cons, Text.width_cons]
    rw [Nat.add_comm]
    rfl
  | openComment cs hn =>
    rw [Text.bytes_cons_of_isAscii rfl]
    show scanSlash ('*' :: bytes cs) = _
    rw [scanSlash, commentLength?_bytes, hn]
    simp only [Option.map_none, Piece.fault, List.take_succ_cons, List.take_length, Text.width_cons,
      Text.length_bytes]
    rw [Nat.add_comm]
    rfl
  | loneAmpersand _ h =>
    have heven : Text.Even (· == '&') := .of_isAscii fun d hd => by
      rw [beq_iff_eq] at hd
      rw [hd]
      rfl
    exact scan_ampersand_of_stops (Text.stops_bytes heven h)
  | unexpected _ _ h => exact h _

/-- What starts no token has itself as its first character. -/
theorem unexpected_of_result {p : Piece} {d : Char} (h : Scans c cs p)
    (hword : isWordStart c = false) (hdigit : c.isDigit = false) (hquote : c ≠ '"')
    (hp : p.result = .error (.unexpectedChar d)) : p = .fault (.unexpectedChar c) 0 := by
  cases h with
  | word _ _ h => cases hword.symm.trans h
  | number _ _ h => cases hdigit.symm.trans h
  | string => exact absurd rfl hquote
  | unexpected => rfl
  | _ => cases hp

theorem unexpected?_eq (hsource : source.toList = pre ++ c :: cs) :
    unexpected? source (width pre) = some ((Piece.fault (.unexpectedChar c) 0).onBytes c cs) := by
  have hsource' : source.toList = pre ++ (c :: cs ++ []) := by rw [hsource, List.append_nil]
  have hslice : Text.slice? source ⟨width pre, width source.toList⟩
      = some (String.ofList (c :: cs)) :=
    Text.slice?_of_append hsource' rfl (by rw [hsource, Text.width_append])
  rw [unexpected?, hslice]
  simp only [Option.bind_eq_bind, Option.bind_some, String.toList_ofList, List.headD_cons,
    Piece.onBytes, Piece.fault, List.take_zero, Text.width_cons, Text.width_nil, Nat.add_zero]
  rfl

theorem quoted?_eq (hsource : source.toList = pre ++ '"' :: cs) :
    quoted? source (width pre) (bytes cs) = some ((scanString cs).onBytes '"' cs) := by
  have hpre : width (pre ++ ['"']) = width pre + 1 := Text.width_append pre ['"']
  have hsource' : source.toList = pre ++ ['"'] ++ ([] ++ cs) := by simp [hsource]
  have hread := string?_eq "" hsource'
  rw [Text.width_nil, Nat.add_zero, hpre] at hread
  have hreach (n : Nat) : width pre + 1 + n - width pre - 1 = n := by omega
  rw [quoted?, hread, Piece.onBytes_of_isAscii rfl, scanString]
  cases (stringBody cs).closed
  · simp only [Option.bind_eq_bind, Option.bind_some, Bool.false_eq_true, reduceIte, hreach]
    rfl
  · simp only [Option.bind_eq_bind, Option.bind_some, reduceIte, hreach, List.nil_append,
      String.empty_append]
    rfl

/-- Every piece is read off its bytes: no cut fails. -/
theorem scan?_eq (hsource : source.toList = pre ++ c :: cs) :
    ∃ d ds, bytes (c :: cs) = d :: ds ∧
      scan? source (width pre) d ds = some ((scan c cs).onBytes c cs) := by
  cases hc : isAscii c with
  | false =>
    obtain ⟨d, ds, hbytes, hds, -⟩ := Text.exists_bytes_cons hc
    refine ⟨d, ds ++ bytes cs, hbytes cs, ?_⟩
    have hd : isAscii d = false := hds d List.mem_cons_self
    have hword : ¬isWordStart d = true := fun h => by
      cases hd.symm.trans (Text.isAscii_of_isWordChar (isWordChar_of_isWordStart h))
    have hdigit : ¬d.isDigit = true := fun h => by cases hd.symm.trans (Text.isAscii_of_isDigit h)
    have hquote : d ≠ '"' := by
      rintro rfl
      cases hd
    rw [unexpected_of_scans (scans c cs) hc, scan?, if_neg hword, if_neg hdigit, if_neg hquote,
      unexpected_of_scans (scans d _) hd]
    exact unexpected?_eq hsource
  | true =>
    refine ⟨c, _, Text.bytes_cons_of_isAscii hc cs, ?_⟩
    unfold scan?
    split
    · rename_i hword
      rw [scan_word hword]
      exact word?_eq hword hsource
    split
    · rename_i hdigit
      rw [scan_number hdigit]
      exact number?_eq hdigit hsource
    split
    · rename_i hquote
      subst hquote
      exact quoted?_eq hsource
    · rename_i hword hdigit hquote
      rw [Bool.not_eq_true] at hword hdigit
      rw [scan_bytes_of_scans (scans c cs) hc hword hdigit hquote]
      split
      · rename_i d hresult
        rw [unexpected_of_result (scans c cs) hword hdigit hquote hresult]
        exact unexpected?_eq hsource
      · rfl

/-- Behind a piece the bytes of the rest of the text are left. -/
theorem drop_bytes {d : Char} {ds : List Char} (hbytes : bytes (c :: cs) = d :: ds) (n : Nat) :
    ds.drop (width (c :: cs.take n) - 1) = bytes (cs.drop n) := by
  have hsplit : d :: ds = bytes (c :: cs.take n) ++ bytes (cs.drop n) := by
    rw [← hbytes, ← Text.bytes_append, List.cons_append, List.take_append_drop]
  obtain ⟨k, hk⟩ : ∃ k, width (c :: cs.take n) = k + 1 :=
    Nat.exists_eq_add_one.mpr (Nat.lt_of_lt_of_le c.utf8Size_pos (Nat.le_add_right _ _))
  rw [hk, Nat.add_sub_cancel, ← List.drop_succ_cons (a := d), hsplit]
  exact List.drop_left' (by rw [Text.length_bytes, hk])

theorem add_one_add_width (start : Nat) (c : Char) (cs : List Char) :
    start + 1 + (width (c :: cs) - 1) = start + width (c :: cs) := by
  have := c.utf8Size_pos
  rw [Text.width_cons]
  omega

/-- Behind a piece, more of the source has been read. -/
theorem behind_piece {start n : Nat} (hstart : start = width pre)
    (hsource : source.toList = pre ++ c :: cs) :
    start + width (c :: cs.take n) = width (pre ++ c :: cs.take n) ∧
      source.toList = pre ++ c :: cs.take n ++ cs.drop n := by
  constructor
  · rw [hstart, Text.width_append]
  · rw [hsource, List.append_assoc, List.cons_append, List.take_append_drop]

theorem lexemes?_eq (pre : List Char) {start : Nat} (hstart : start = width pre)
    (hsource : source.toList = pre ++ cs) :
    lexemes? source start (bytes cs) = some (lexemes start cs) := by
  -- Piece by piece: `pre` is what has been read, and the rest is read off its own bytes.
  fun_induction lexemes start cs generalizing pre with
  | case1 start =>
    show lexemes? source start [] = _
    rw [lexemes?]
  | case2 start c cs piece stop fault =>
    rename_i hpiece
    have hresult : (scan c cs).result = .error fault := hpiece
    obtain ⟨d, ds, hbytes, hscan⟩ := scan?_eq hsource
    rw [hbytes, lexemes?, hstart, hscan]
    simp only [Piece.onBytes, Option.bind_eq_bind, Option.bind_some, add_one_add_width, hresult]
    rw [← hstart]
    rfl
  | case3 start c cs piece stop hpiece =>
    rename_i ih
    have hresult : (scan c cs).result = .ok none := hpiece
    obtain ⟨d, ds, hbytes, hscan⟩ := scan?_eq hsource
    rw [hbytes, lexemes?, hstart, hscan]
    simp only [Piece.onBytes, Option.bind_eq_bind, Option.bind_some, add_one_add_width, hresult,
      drop_bytes hbytes]
    rw [← hstart]
    obtain ⟨hstop, hrest⟩ := behind_piece hstart hsource
    exact ih _ hstop hrest
  | case4 start c cs piece stop t hpiece =>
    rename_i ih
    have hresult : (scan c cs).result = .ok (some t) := hpiece
    obtain ⟨d, ds, hbytes, hscan⟩ := scan?_eq hsource
    rw [hbytes, lexemes?, hstart, hscan]
    simp only [Piece.onBytes, Option.bind_eq_bind, Option.bind_some, add_one_add_width, hresult,
      drop_bytes hbytes]
    rw [← hstart]
    obtain ⟨hstop, hrest⟩ := behind_piece hstart hsource
    refine (congrArg (· >>= _) (ih _ hstop hrest)).trans ?_
    show some _ = some _
    cases lexemes stop (cs.drop piece.extra) <;> rfl

/-- **Every cut succeeds**, and the tokens read off the bytes are those of the text. -/
theorem ofSource?_eq (source : String) : ofSource? source = some (Lexeme.ofSource source) := by
  rw [ofSource?, Text.bytes_eq]
  exact lexemes?_eq [] rfl rfl

end ByteLexer

end RuleScript
