import Mathlib.Data.List.Chain
import RuleScript.Proofs.Lexing.Bytes

/-!
# Tokens tile the source

The tokens of a text lie in it one behind the other. Each token stands for the part of the text that
its span marks: read alone, this part is that token. What is left between the tokens is blank: read
alone, it has no token. Where a text cannot be read, the span of the error marks a part of it.

## Main definitions

* `Lexer.Tiles`: a text is cut into tokens and what is between them
* `Lexer.Blank`: white space and complete comments
* `Lexeme.Tiling`: the same for the spans of the tokens

## Main results

* `Lexer.blank_iff_yields`: only white space and complete comments have no tokens
* `Lexeme.tiling_ofSource`: the tokens of a text tile it, and no cut through its bytes fails
-/

namespace RuleScript

namespace Lexer

open Text (width)

/-- The text is cut into tokens, what is between them, and the end of the text. -/
inductive Tiles : Nat → List Char → List Lexeme → Prop
  | done (start stop : Nat) (gap : List Char) : Yields gap [] → stop = start + width gap →
    Tiles start gap [⟨.eof, ⟨stop, stop⟩⟩]
  | token (start first stop : Nat) (gap text rest : List Char) (t : Token) (ls : List Lexeme) :
    Yields gap [] → text ≠ [] → Yields text [t] → first = start + width gap →
    stop = first + width text → Tiles stop rest ls →
    Tiles start (gap ++ (text ++ rest)) (⟨t, ⟨first, stop⟩⟩ :: ls)

variable {c : Char} {cs tail gap rest : List Char} {start : Nat} {ls : List Lexeme}

/-- A piece is read in the same way if a text is cut off behind it or later. -/
theorem scan_of_append {p : Piece} {t : Option Token} (hscan : scan c (tail ++ (gap ++ rest)) = p)
    (hp : p.result = .ok t) (hextra : p.extra = tail.length) : scan c (tail ++ gap) = p := by
  subst hscan
  have htake := scan_take hp (m := (tail ++ gap).length) (by simp [hextra])
  rwa [← List.append_assoc, List.take_left, List.append_assoc] at htake

/-- A blank piece becomes a part of what is before the first token. -/
theorem Tiles.blank (hscan : scan c (tail ++ rest) = .blank tail.length)
    (h : Tiles (start + width (c :: tail)) rest ls) : Tiles start (c :: (tail ++ rest)) ls := by
  cases h with
  | done _ stop gap hgap hstop =>
    refine .done start stop _ (.blank hscan hgap) ?_
    rw [hstop, Nat.add_assoc, ← Text.width_append]
    rfl
  | token _ first stop gap text rest t ls hgap hne htext hfirst hstop h =>
    have hgap' : Yields (c :: (tail ++ gap)) [] :=
      .blank (scan_of_append hscan rfl rfl) hgap
    have hcs : c :: (tail ++ (gap ++ (text ++ rest))) = c :: (tail ++ gap) ++ (text ++ rest) := by
      simp
    rw [hcs]
    refine .token start first stop _ text rest t ls hgap' hne htext ?_ hstop h
    rw [hfirst, Nat.add_assoc, ← Text.width_append]
    rfl

/-- A piece that is a token is the first token, with nothing before it. -/
theorem Tiles.piece {t : Token} (hscan : scan c (tail ++ rest) = .token t tail.length)
    (h : Tiles (start + width (c :: tail)) rest ls) :
    Tiles start (c :: (tail ++ rest)) (⟨t, ⟨start, start + width (c :: tail)⟩⟩ :: ls) := by
  have hscan' : scan c (tail ++ []) = .token t tail.length := scan_of_append hscan rfl rfl
  have htext : Yields (c :: tail) [t] := by
    rw [← List.append_nil tail]
    exact .token hscan' .nil
  exact .token start start _ [] (c :: tail) rest t ls .nil (by simp) htext rfl rfl h

/-- A text is cut behind its first piece. -/
theorem exists_piece (c : Char) (cs : List Char) :
    ∃ tail rest, cs = tail ++ rest ∧ (scan c cs).extra = tail.length :=
  ⟨_, _, (List.take_append_drop _ cs).symm, (List.length_take_of_le (extra_scan_le c cs)).symm⟩

/-- The tokens of a text are read one behind the other. -/
theorem tiles_lexemes (h : lexemes start cs = .ok ls) : Tiles start cs ls := by
  -- Piece by piece: a blank widens the gap before the next token.
  fun_induction lexemes start cs generalizing ls with
  | case1 start =>
    cases h
    exact .done start start [] .nil rfl
  | case2 => cases h
  | case3 start c cs piece stop hpiece =>
    rename_i ih
    obtain ⟨tail, rest, rfl, hextra⟩ := exists_piece c cs
    have hscan : scan c (tail ++ rest) = .blank tail.length := by
      rw [← hextra, Piece.blank, ← hpiece]
    have hrest := ih h
    simp only [stop, piece, hextra, List.take_left, List.drop_left] at hrest
    exact .blank hscan hrest
  | case4 start c cs piece stop t hpiece =>
    rename_i ih
    obtain ⟨tail, rest, rfl, hextra⟩ := exists_piece c cs
    have hscan : scan c (tail ++ rest) = .token t tail.length := by
      rw [← hextra, Piece.token, ← hpiece]
    cases hls : lexemes stop ((tail ++ rest).drop piece.extra) with
    | error e =>
      rw [hls] at h
      cases h
    | ok ls' =>
      rw [hls] at h
      cases h
      have hrest := ih hls
      simp only [stop, piece, hextra, List.take_left, List.drop_left] at hrest ⊢
      exact .piece hscan hrest

/-- What is marked behind a piece is marked in the text. -/
theorem behind_piece_of_span {n : Nat} {span : Span} {pre part post : List Char}
    (hcs : cs.drop n = pre ++ (part ++ post))
    (hspan : span = ⟨start + width (c :: cs.take n) + width pre,
      start + width (c :: cs.take n) + width pre + width part⟩) :
    ∃ pre part post, c :: cs = pre ++ (part ++ post) ∧
      span = ⟨start + width pre, start + width pre + width part⟩ := by
  refine ⟨c :: cs.take n ++ pre, part, post, ?_, ?_⟩
  · rw [List.append_assoc, ← hcs, List.cons_append, List.take_append_drop]
  · rw [hspan, Text.width_append, ← Nat.add_assoc]

/-- An error marks a part of the text. -/
theorem exists_of_lexemes_error {e : Error} (h : lexemes start cs = .error e) :
    ∃ pre part post, cs = pre ++ (part ++ post) ∧
      e.span = ⟨start + width pre, start + width pre + width part⟩ := by
  fun_induction lexemes start cs with
  | case1 => cases h
  | case2 start c cs piece stop fault =>
    cases h
    exact ⟨[], c :: cs.take piece.extra, cs.drop piece.extra, by simp, rfl⟩
  | case3 start c cs piece stop hpiece =>
    rename_i ih
    obtain ⟨pre, part, post, hcs, hspan⟩ := ih h
    exact behind_piece_of_span hcs hspan
  | case4 start c cs piece stop t hpiece =>
    rename_i ih
    have hls : lexemes stop (cs.drop piece.extra) = .error e := by
      cases hls : lexemes stop (cs.drop piece.extra) with
      | error e' =>
        rw [hls] at h
        cases h
        rfl
      | ok ls =>
        rw [hls] at h
        cases h
    obtain ⟨pre, part, post, hcs, hspan⟩ := ih hls
    exact behind_piece_of_span hcs hspan

/-! ## What is blank -/

/-- White space and complete comments, one behind the other. A comment goes up to the end of its
line, or up to the first mark that closes it. -/
inductive Blank : List Char → Prop
  | nil : Blank []
  | space {c : Char} {cs : List Char} (hc : c ∈ [' ', '\t', '\n', '\r']) (h : Blank cs) :
    Blank (c :: cs)
  | lineComment {text cs : List Char} (htext : '\n' ∉ text) (hcs : ∀ c ∈ cs.head?, c = '\n')
    (h : Blank cs) : Blank ('/' :: '/' :: (text ++ cs))
  | blockComment {text cs : List Char} (htext : ¬ ['*', '/'] <:+: text ++ ['*']) (h : Blank cs) :
    Blank ('/' :: '*' :: (text ++ '*' :: '/' :: cs))

/-- A comment is closed by the first mark that closes one. -/
theorem commentLength?_eq_some {n : Nat} : commentLength? cs = some n ↔
    ∃ text rest, cs = text ++ '*' :: '/' :: rest ∧ ¬ ['*', '/'] <:+: text ++ ['*'] ∧
      n = text.length + 2 := by
  constructor
  · intro h
    fun_induction commentLength? cs generalizing n with
    | case1 => cases h
    | case2 rest =>
      cases h
      exact ⟨[], rest, rfl, by decide, rfl⟩
    | case3 c cs hne ih =>
      obtain ⟨k, hk, rfl⟩ := Option.map_eq_some_iff.mp h
      obtain ⟨text, rest, rfl, hinfix, rfl⟩ := ih hk
      refine ⟨c :: text, rest, rfl, fun h => ?_, rfl⟩
      rcases List.infix_cons_iff.mp h with hprefix | h
      · obtain ⟨hc, hprefix⟩ := List.cons_prefix_cons.mp hprefix
        cases text with
        | nil => simp at hprefix
        | cons d text =>
          obtain ⟨rfl, -⟩ := List.cons_prefix_cons.mp hprefix
          exact hne _ hc.symm rfl
      · exact hinfix h
  · rintro ⟨text, rest, rfl, hinfix, rfl⟩
    induction text with
    | nil => rfl
    | cons c text ih =>
      have hrest := ih fun h => hinfix (List.infix_cons_iff.mpr (.inr h))
      have hne : ∀ tail, c = '*' → text ++ '*' :: '/' :: rest = '/' :: tail → False := by
        rintro tail rfl htail
        cases text with
        | nil => cases htail
        | cons d text =>
          cases htail
          exact hinfix (List.infix_cons_iff.mpr (.inl (by simp)))
      rw [List.cons_append, commentLength?.eq_3 c _ hne, hrest]
      rfl

/-- A number is no blank. -/
theorem scanNumber_ne_blank : (scanNumber c cs).result ≠ .ok none := by
  have hradix : ∀ base mark ds, (scanRadix base mark ds).result ≠ .ok none := by
    intro base mark ds
    unfold scanRadix
    dsimp only
    split <;> exact nofun
  have hdecimal : (scanDecimal c cs).result ≠ .ok none := by
    unfold scanDecimal
    dsimp only
    split <;> exact nofun
  unfold scanNumber
  split
  · exact hradix _ _ _
  · exact hradix _ _ _
  · exact hradix _ _ _
  · exact hradix _ _ _
  · exact hdecimal

/-- A blank piece before a blank text. -/
theorem Scans.blank_of_drop {p : Piece} (h : Scans c cs p) (hp : p.result = .ok none)
    (hrest : Blank (cs.drop p.extra)) : Blank (c :: cs) := by
  cases h with
  | blank c cs hc => exact .space (by simpa [isBlank, or_assoc] using hc) hrest
  | lineComment cs =>
    obtain ⟨text, rest, rfl, htext, hstops⟩ := exists_append_stops (· != '\n') cs
    have hlength := takeWhile_append_of_stops htext hstops
    refine .lineComment (fun hmem => ?_) (fun d hd => by simpa using hstops d hd) ?_
    · cases htext _ hmem
    · simpa [Piece.blank, hlength] using hrest
  | blockComment cs n hn =>
    obtain ⟨text, rest, rfl, htext, rfl⟩ := commentLength?_eq_some.mp hn
    refine .blockComment htext ?_
    simpa [Piece.blank] using hrest
  | number c cs _ => exact absurd hp scanNumber_ne_blank
  | string cs =>
    unfold scanString at hp
    dsimp only at hp
    split at hp
    · cases hp
    · cases hp
  | _ => cases hp

theorem Tiles.ne_nil (h : Tiles start cs ls) : ls ≠ [] := by
  cases h with
  | done => exact List.cons_ne_nil _ _
  | token => exact List.cons_ne_nil _ _

/-- A text without tokens is blank. -/
theorem blank_of_lexemes (h : lexemes start cs = .ok ls) (hls : ls.map Lexeme.token = [.eof]) :
    Blank cs := by
  fun_induction lexemes start cs generalizing ls with
  | case1 => exact .nil
  | case2 => cases h
  | case3 start c cs piece stop hpiece =>
    rename_i ih
    exact (scans c cs).blank_of_drop hpiece (ih h hls)
  | case4 start c cs piece stop t hpiece =>
    cases hrest : lexemes stop (cs.drop piece.extra) with
    | error e =>
      rw [hrest] at h
      cases h
    | ok ls' =>
      rw [hrest] at h
      cases h
      obtain rfl := List.map_eq_nil_iff.mp (List.cons.inj hls).2
      exact absurd rfl (tiles_lexemes hrest).ne_nil

/-- What is blank has no tokens. -/
theorem Blank.yields (h : Blank cs) : Yields cs [] := by
  induction h with
  | nil => exact .nil
  | @space c cs hc _ ih =>
    have hblank : Yields (c :: ([] ++ cs)) [] :=
      .blank (scan_blank (by simpa [isBlank, or_assoc] using hc)) ih
    exact hblank
  | @lineComment text cs htext hcs _ ih =>
    have hscan : scan '/' ('/' :: text ++ cs) = .blank ('/' :: text).length := by
      show Piece.blank (((text ++ cs).takeWhile (· != '\n')).length + 1) = _
      have hne : ∀ d ∈ text, (d != '\n') = true := by
        rintro d hd
        refine bne_iff_ne.mpr ?_
        rintro rfl
        exact htext hd
      rw [takeWhile_append_of_stops hne fun d hd => by simpa using hcs d hd]
      rfl
    exact .blank hscan ih
  | @blockComment text cs htext _ ih =>
    have hscan : scan '/' (('*' :: (text ++ ['*', '/'])) ++ cs) =
        .blank ('*' :: (text ++ ['*', '/'])).length := by
      show scanSlash ('*' :: (text ++ ['*', '/'] ++ cs)) = _
      have hlength : commentLength? (text ++ ['*', '/'] ++ cs) = some (text.length + 2) :=
        commentLength?_eq_some.mpr ⟨text, cs, by simp, htext, rfl⟩
      rw [scanSlash, hlength]
      simp
    simpa using Yields.blank hscan ih

/-- **Only white space and complete comments have no tokens.** -/
theorem blank_iff_yields : Blank cs ↔ Yields cs [] := by
  refine ⟨Blank.yields, fun h => ?_⟩
  obtain ⟨ls, hls, htokens⟩ := h 0
  exact blank_of_lexemes hls htokens

end Lexer

namespace Lexeme

open Text (width)
open Lexer (Blank Tiles Yields)

/-- A text is read as these tokens and its end. -/
def Writes (text : String) (ts : List Token) : Prop :=
  ∃ ls, ofSource text = .ok ls ∧ ls.map token = ts ++ [.eof]

/-- What is between two places in a source is blank. -/
def Gap (source : String) (a b : Span) : Prop :=
  ∃ text, Text.slice? source ⟨a.stop, b.start⟩ = some text ∧ Writes text []

/-- The place behind the last character of a text. -/
def finish (source : String) : Lexeme :=
  ⟨.eof, ⟨width source.toList, width source.toList⟩⟩

/-- The tokens of a source, of which `body` are all but the end, lie in it one behind the other. -/
structure Tiling (source : String) (body : List Lexeme) : Prop where
  /-- No token starts before the end of one that comes before it. -/
  ordered : (body ++ [finish source]).Pairwise fun a b => a.span.stop ≤ b.span.start
  /-- Only the end of the text is empty. -/
  nonempty : ∀ l ∈ body, l.span.start < l.span.stop
  /-- The part of the source at a token writes that token. -/
  texts : ∀ l ∈ body, ∃ text, Text.slice? source l.span = some text ∧ Writes text [l.token]
  /-- Before the first token and between tokens there is nothing to read. -/
  gaps : List.IsChain (Gap source) (.zero :: (body ++ [finish source]).map span)

theorem writes_nil_iff {text : String} : Writes text [] ↔ Blank text.toList := by
  refine ⟨fun ⟨ls, hls, htokens⟩ => Lexer.blank_of_lexemes hls htokens, fun h => ?_⟩
  exact h.yields 0

/-- Between two tokens there are only white space and complete comments. -/
theorem gap_iff {source : String} {a b : Span} : Gap source a b ↔
    ∃ text, Text.slice? source ⟨a.stop, b.start⟩ = some text ∧ Blank text.toList := by
  simp only [Gap, writes_nil_iff]

variable {source : String} {pre cs : List Char} {start : Nat} {ls : List Lexeme}

theorem start_le_of_tiles (h : Tiles start cs ls) : ∀ l ∈ ls, start ≤ l.span.start := by
  induction h with
  | done start stop gap _ hstop => simp [hstop]
  | token start first stop gap text rest t ls _ _ _ hfirst hstop _ ih =>
    refine List.forall_mem_cons.mpr ⟨by simp [hfirst], fun l hl => ?_⟩
    have := ih l hl
    omega

theorem pairwise_of_tiles (h : Tiles start cs ls) :
    ls.Pairwise fun a b => a.span.stop ≤ b.span.start := by
  induction h with
  | done => exact List.pairwise_singleton _ _
  | token start first stop gap text rest t ls _ _ _ _ _ h ih =>
    exact List.pairwise_cons.mpr ⟨start_le_of_tiles h, ih⟩

theorem slice?_of_width {text : List Char} (post : List Char) {first stop : Nat}
    (hsource : source.toList = pre ++ (text ++ post)) (hfirst : first = width pre)
    (hstop : stop = first + width text) :
    Text.slice? source ⟨first, stop⟩ = some (String.ofList text) :=
  Text.slice?_of_append hsource hfirst (hfirst ▸ hstop)

theorem writes_ofList {text : List Char} {ts : List Token} (h : Yields text ts) :
    Writes (String.ofList text) ts := by
  unfold Writes ofSource
  rw [String.toList_ofList]
  exact h 0

/-- The tokens before the end, each with the text at its place. -/
theorem exists_body_of_tiles (pre : List Char) (h : Tiles start cs ls) (hstart : start = width pre)
    (hsource : source.toList = pre ++ cs) :
    ∃ body, ls = body ++ [finish source] ∧
      ∀ l ∈ body, l.span.start < l.span.stop ∧
        ∃ text, Text.slice? source l.span = some text ∧ Writes text [l.token] := by
  induction h generalizing pre with
  | done start stop gap _ hstop =>
    refine ⟨[], ?_, List.forall_mem_nil _⟩
    rw [hstop, hstart, ← Text.width_append, ← hsource]
    rfl
  | token start first stop gap text rest t ls _ hne htext hfirst hstop _ ih =>
    have hfirst : first = width (pre ++ gap) := by rw [hfirst, hstart, Text.width_append]
    have hstop' : stop = width (pre ++ gap ++ text) := by rw [hstop, hfirst, ← Text.width_append]
    obtain ⟨body, rfl, hbody⟩ := ih _ hstop' (by simp [hsource])
    refine ⟨_ :: body, rfl, List.forall_mem_cons.mpr ⟨⟨?_, _, ?_, writes_ofList htext⟩, hbody⟩⟩
    · obtain ⟨c, cs, rfl⟩ := List.exists_cons_of_ne_nil hne
      have := c.utf8Size_pos
      simp only [hstop, Text.width_cons]
      omega
    · exact slice?_of_width rest (by simp [hsource]) hfirst hstop

/-- What is between the tokens. -/
theorem gaps_of_tiles (pre : List Char) (h : Tiles start cs ls) (hstart : start = width pre)
    (hsource : source.toList = pre ++ cs) {before : Span} (hbefore : before.stop = start) :
    List.IsChain (Gap source) (before :: ls.map span) := by
  induction h generalizing pre before with
  | done start stop gap hgap hstop =>
    refine List.isChain_cons_cons.mpr ⟨⟨_, ?_, writes_ofList hgap⟩, List.isChain_singleton _⟩
    rw [hbefore]
    exact slice?_of_width [] (by simp [hsource]) hstart hstop
  | token start first stop gap text rest t ls hgap hne _ hfirst hstop _ ih =>
    refine List.isChain_cons_cons.mpr ⟨⟨_, ?_, writes_ofList hgap⟩, ?_⟩
    · rw [hbefore]
      exact slice?_of_width (text ++ rest) hsource hstart hfirst
    · refine ih (pre ++ gap ++ text) ?_ (by simp [hsource]) rfl
      rw [hstop, hfirst, hstart, Text.width_append, Text.width_append]

/-- **Tokens tile the source.** Every cut through the bytes of a source is between two characters,
and gives the tokens of the source. These lie in it one behind the other; each is what its part of
the source writes alone, and nothing else is between them. If there is an error, its span marks a
part of the source. -/
theorem tiling_ofSource (source : String) :
    ByteLexer.ofSource? source = some (ofSource source) ∧
      match ofSource source with
      | .ok tokens => ∃ body, tokens = body ++ [finish source] ∧ Tiling source body
      | .error e => ∃ text, Text.slice? source e.span = some text := by
  refine ⟨ByteLexer.ofSource?_eq source, ?_⟩
  split
  · rename_i tokens htokens
    have htiles := Lexer.tiles_lexemes htokens
    obtain ⟨body, rfl, hbody⟩ := exists_body_of_tiles [] htiles rfl rfl
    exact ⟨body, rfl, pairwise_of_tiles htiles, fun l hl => (hbody l hl).1,
      fun l hl => (hbody l hl).2, gaps_of_tiles [] htiles rfl rfl rfl⟩
  · rename_i e he
    obtain ⟨pre, part, post, hsource, hspan⟩ := Lexer.exists_of_lexemes_error he
    rw [Nat.zero_add] at hspan
    exact ⟨_, hspan ▸ Text.slice?_of_append hsource rfl rfl⟩

end Lexeme

end RuleScript
