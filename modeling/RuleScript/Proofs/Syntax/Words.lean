import RuleScript.Proofs.Lexing.Pieces

/-!
# The alphabet of names

A name in a source text is made of letters, digits and underscores, the first of which is no digit,
and it is no reserved word. This is so by the rule for words of the lexer, and every other rule
gives a token that is no name.

## Main definitions

* `Lexer.IsWord`: a text of letters, digits and underscores

## Main results

* `Lexeme.exists_of_ofSource`: how a name among the tokens of a source text is spelled
* `Lexeme.isWord_of_ofSource`: every name among the tokens of a source text is a word
-/

namespace RuleScript

namespace Lexer

/-- A text of letters, digits and underscores. -/
def IsWord (s : String) : Prop := ∀ c ∈ s.toList, isWordChar c = true

instance (s : String) : Decidable (IsWord s) := List.decidableBAll _ s.toList

/-- A character of a word is none of the others. -/
theorem IsWord.not_mem {s : String} (h : IsWord s) {c : Char} (hc : isWordChar c = false) :
    c ∉ s.toList := by
  intro hmem
  rw [h c hmem] at hc
  exact Bool.noConfusion hc

variable {c : Char} {cs : List Char} {name : String}

theorem result_scanNumber_ne (c : Char) (cs : List Char) (name : String) :
    (scanNumber c cs).result ≠ .ok (some (.ident name)) := by
  intro h
  unfold scanNumber at h
  split at h
  case h_5 =>
    simp only [scanDecimal] at h
    split at h <;> cases h
  all_goals
    simp only [scanRadix] at h
    split at h <;> cases h

/-- Only the rule for words gives a name. -/
theorem exists_of_scans {p : Piece} (h : Scans c cs p) (hp : p.result = .ok (some (.ident name))) :
    ∃ tail, name.toList = c :: tail ∧ isWordStart c = true ∧
      (∀ d ∈ tail, isWordChar d = true) ∧ Keyword.ofSpelling? name = none := by
  cases h with
  | word _ _ hc =>
    have hword : wordToken (String.ofList (c :: cs.takeWhile isWordChar)) = .ident name :=
      Option.some.inj (Except.ok.inj hp)
    unfold wordToken at hword
    split at hword
    · cases hword
    · rename_i hkeyword
      cases hword
      exact ⟨_, String.toList_ofList, hc, fun _ => List.mem_takeWhile_imp, hkeyword⟩
  | number => exact absurd hp (result_scanNumber_ne c cs name)
  | string =>
    simp only [scanString] at hp
    split at hp <;> cases hp
  | _ => cases hp

/-- Every token but the end of the text is some piece. -/
theorem exists_scan_of_mem_lexemes {start : Nat} {tokens : List Lexeme}
    (h : lexemes start cs = .ok tokens) :
    ∀ l ∈ tokens, l.token = .eof ∨ ∃ c ds, (scan c ds).result = .ok (some l.token) := by
  fun_induction lexemes start cs generalizing tokens with
  | case1 start =>
    cases h
    exact List.forall_mem_singleton.mpr (.inl rfl)
  | case2 => cases h
  | case3 start c cs piece stop hpiece =>
    rename_i ih
    exact ih h
  | case4 start c cs piece stop t hpiece =>
    rename_i ih
    cases hrest : lexemes stop (cs.drop piece.extra) with
    | error e =>
      rw [hrest] at h
      cases h
    | ok rest =>
      rw [hrest] at h
      cases h
      exact List.forall_mem_cons.mpr ⟨.inr ⟨c, cs, hpiece⟩, ih hrest⟩

end Lexer

open Lexer (isWordStart isWordChar)

/-- How a name among the tokens of a source text is spelled. -/
theorem Lexeme.exists_of_ofSource {source : String} {tokens : List Lexeme}
    (h : ofSource source = .ok tokens) {l : Lexeme} (hl : l ∈ tokens) {name : String}
    (hname : l.token = .ident name) :
    ∃ c tail, name.toList = c :: tail ∧ isWordStart c = true ∧
      (∀ d ∈ tail, isWordChar d = true) ∧ Keyword.ofSpelling? name = none := by
  rcases Lexer.exists_scan_of_mem_lexemes h l hl with heof | ⟨c, ds, hscan⟩
  · cases heof.symm.trans hname
  · rw [hname] at hscan
    exact ⟨c, Lexer.exists_of_scans (Lexer.scans c ds) hscan⟩

/-- **The alphabet of names.** Every name among the tokens of a source text is a word. -/
theorem Lexeme.isWord_of_ofSource {source : String} {tokens : List Lexeme}
    (h : ofSource source = .ok tokens) {l : Lexeme} (hl : l ∈ tokens) {name : String}
    (hname : l.token = .ident name) : Lexer.IsWord name := by
  obtain ⟨c, tail, hlist, hc, htail, -⟩ := exists_of_ofSource h hl hname
  rw [Lexer.IsWord, hlist]
  exact List.forall_mem_cons.mpr ⟨Lexer.isWordChar_of_isWordStart hc, htail⟩

end RuleScript
