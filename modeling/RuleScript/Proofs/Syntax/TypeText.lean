import Mathlib
import RuleScript.Proofs.Syntax.Names
import RuleScript.Proofs.Syntax.Rereading

/-!
# Types that their texts stand for

Every type that is written in a source has a text that can be read again, but not every type is what
its text is read as. The ones that are can be told by their form, and a text stands for one of them
at most.

## Main definitions

* `Ty.faithful`: the form of the types that are read back

## Main results

* `Ty.reread_eq_iff`: a type is read back if it is of that form, and only then
* `Ty.ofSource_text`: what the text of a type that was read from a source is read as
-/

namespace RuleScript

open Token (enclosed separated behind)

namespace Ty

variable {t u : Ty} {ts : List Ty}

/-! ## Faithful types -/

mutual

/-- Whether the text of a type is read as the type itself: no variadic type is the item of an array,
no union is variadic or the member of another, and of the members of a union only the last ends in a
return type. -/
def faithful : Ty → Bool
  | native _ => true
  | array item => !item.isVariadic && item.faithful
  | function params ret => faithfulList params && faithfulOption ret
  | variadic inner => inner.looseness ≤ 2 && inner.faithful
  | generic _ _ => false
  | union members => faithfulMembers members

/-- Whether the texts of some types are read as the types themselves. -/
def faithfulList : List Ty → Bool
  | [] => true
  | t :: ts => t.faithful && faithfulList ts

/-- Whether the text of a type that may be missing is read as the type itself. -/
def faithfulOption : Option Ty → Bool
  | none => true
  | some t => t.faithful

/-- Whether the texts of some types with bars between them are read as the types themselves. -/
def faithfulMembers : List Ty → Bool
  | [] => true
  | [t] => t.looseness ≤ 2 && t.faithful
  | t :: u :: ts => t.looseness ≤ 1 && t.faithful && faithfulMembers (u :: ts)

end

theorem barred_of_looseness_le (h : t.looseness ≤ 1) (u : Ty) :
    t.barred u = union (t :: u.members) :=
  atEnd_of_looseness_le h (Nat.le_refl 1)

mutual

/-- A faithful type is read back. -/
theorem reread_of_faithful : ∀ t : Ty, t.writable = true → t.faithful = true → t.reread = t
  | native _, _, _ => rfl
  | array item, h, hfaithful => by
    rw [writable] at h
    rw [faithful, Bool.and_eq_true, Bool.not_eq_true'] at hfaithful
    rw [reread, reread_of_faithful item h hfaithful.2]
    split
    · rfl
    · rename_i hparens
      cases item with
      | function | union => exact absurd rfl hparens
      | variadic => simp [isVariadic] at hfaithful
      | _ => rfl
  | function params ret, h, hfaithful => by
    rw [writable, Bool.and_eq_true] at h
    rw [faithful, Bool.and_eq_true] at hfaithful
    rw [reread, rereadList_of_faithful params h.1 hfaithful.1,
      rereadOption_of_faithful ret h.2 hfaithful.2]
  | variadic inner, h, hfaithful => by
    rw [writable] at h
    rw [faithful, Bool.and_eq_true, decide_eq_true_eq] at hfaithful
    rw [reread, reread_of_faithful inner h hfaithful.2]
    cases inner with
    | union => simp at hfaithful
    | _ => rfl
  | union members, h, hfaithful => by
    rw [writable, Bool.and_eq_true, decide_eq_true_eq] at h
    rw [faithful] at hfaithful
    rw [reread]
    exact (rereadMembers_of_faithful members h.2 hfaithful).2 h.1

theorem rereadList_of_faithful : ∀ ts : List Ty, writableList ts = true →
    faithfulList ts = true → rereadList ts = ts
  | [], _, _ => rfl
  | t :: ts, h, hfaithful => by
    rw [writableList, Bool.and_eq_true] at h
    rw [faithfulList, Bool.and_eq_true] at hfaithful
    rw [rereadList, reread_of_faithful t h.1 hfaithful.1,
      rereadList_of_faithful ts h.2 hfaithful.2]

theorem rereadOption_of_faithful : ∀ t? : Option Ty, writableOption t? = true →
    faithfulOption t? = true → rereadOption t? = t?
  | none, _, _ => rfl
  | some t, h, hfaithful => congrArg some (reread_of_faithful t h hfaithful)

/-- A single member stays what it is, more of them become a union. -/
theorem rereadMembers_of_faithful : ∀ ms : List Ty, writableList ms = true →
    faithfulMembers ms = true →
    (rereadMembers ms).members = ms ∧ (2 ≤ ms.length → rereadMembers ms = union ms)
  | [], _, _ => ⟨rfl, nofun⟩
  | [t], h, hfaithful => by
    rw [writableList, Bool.and_eq_true] at h
    rw [faithfulMembers, Bool.and_eq_true, decide_eq_true_eq] at hfaithful
    rw [rereadMembers, reread_of_faithful t h.1 hfaithful.2]
    exact ⟨members_of_looseness_le hfaithful.1, by simp⟩
  | t :: u :: ts, h, hfaithful => by
    rw [writableList, Bool.and_eq_true] at h
    rw [faithfulMembers, Bool.and_eq_true, Bool.and_eq_true, decide_eq_true_eq] at hfaithful
    obtain ⟨⟨hloose, ht⟩, hus⟩ := hfaithful
    rw [rereadMembers, reread_of_faithful t h.1 ht, barred_of_looseness_le hloose,
      (rereadMembers_of_faithful (u :: ts) h.2 hus).1]
    exact ⟨rfl, fun _ => rfl⟩

end

/-! ## Only faithful types are read back -/

theorem bracketed_eq_array (h : t.bracketed = array u) : t = u ∧ t.isVariadic = false := by
  cases t with
  | function params ret =>
    cases ret with
    | none =>
      cases h
      exact ⟨rfl, rfl⟩
    | some ret => cases h
  | variadic inner =>
    rw [bracketed_variadic] at h
    cases h
  | union members => cases h
  | _ =>
    cases h
    exact ⟨rfl, rfl⟩

theorem dotted_eq_variadic (h : t.dotted = variadic u) : t = u ∧ t.looseness ≤ 2 := by
  cases t with
  | union members => cases h
  | variadic inner =>
    cases h
    exact ⟨rfl, looseness_variadic_le inner⟩
  | function params ret =>
    cases h
    exact ⟨rfl, by cases ret <;> simp⟩
  | _ =>
    cases h
    exact ⟨rfl, by simp [looseness]⟩

theorem bracketed_eq_union (h : t.bracketed = union ts) :
    ∃ us, t = union us ∧ atEndLast 0 array us = ts := by
  cases t with
  | union us => exact ⟨us, rfl, union.inj h⟩
  | variadic inner =>
    rw [bracketed_variadic] at h
    cases h
  | function params ret => cases ret <;> cases h
  | _ => cases h

theorem dotted_eq_union (h : t.dotted = union ts) :
    ∃ us, t = union us ∧ us.modifyHead variadic = ts := by
  cases t with
  | union us => exact ⟨us, rfl, union.inj h⟩
  | _ => cases h

/-- A union is read from the text of another type only where that starts with points. -/
theorem exists_of_reread_eq_union : ∀ t : Ty, t.writable = true → t.looseness ≤ 2 →
    ∀ ts, t.reread = union ts → ∃ inner us, ts = variadic inner :: us
  | native _, _, _, _, hreread => nomatch hreread
  | array item, h, _, ts, hreread => by
    rw [writable] at h
    rw [reread] at hreread
    split at hreread
    · cases hreread
    · rename_i hparens
      obtain ⟨us, hus, rfl⟩ := bracketed_eq_union hreread
      have hitem : item.looseness ≤ 2 := by
        refine Nat.le_of_not_lt fun hunion => ?_
        obtain ⟨ms, rfl⟩ := exists_eq_union hunion
        exact hparens rfl
      obtain ⟨inner, us, rfl⟩ := exists_of_reread_eq_union item h hitem us hus
      obtain ⟨v, w, ws, heq, -⟩ := (hus ▸ spells_tokens item h).exists_of_union
      cases heq
      exact ⟨inner, _, rfl⟩
  | function _ _, _, _, _, hreread => nomatch hreread
  | variadic inner, h, _, ts, hreread => by
    rw [writable] at h
    rw [reread] at hreread
    obtain ⟨us, hus, rfl⟩ := dotted_eq_union hreread
    obtain ⟨v, w, ws, rfl, -⟩ := (hus ▸ spells_tokens inner h).exists_of_union
    exact ⟨v, _, rfl⟩
  | union _, _, hloose, _, _ => absurd hloose (by simp)

/-- No type is the first member of what its text is read as. -/
theorem reread_ne_union_cons : ∀ t : Ty, t.writable = true → ∀ ts, t.reread ≠ union (t :: ts)
  | native _, _, _, hreread => nomatch hreread
  | array item, h, ts, hreread => by
    obtain ⟨inner, us, heq⟩ := exists_of_reread_eq_union (array item) h (by simp) _ hreread
    cases heq
  | function _ _, _, _, hreread => nomatch hreread
  | variadic inner, h, ts, hreread => by
    rw [writable] at h
    rw [reread] at hreread
    obtain ⟨us, hus, hhead⟩ := dotted_eq_union hreread
    obtain ⟨v, w, ws, rfl, -⟩ := (hus ▸ spells_tokens inner h).exists_of_union
    cases hhead
    exact reread_ne_union_cons inner h _ hus
  | union members, h, ts, hreread => by
    obtain ⟨v, w, ws, heq, hloose⟩ := (hreread ▸ spells_tokens (union members) h).exists_of_union
    cases heq
    simp at hloose

mutual

/-- Only a faithful type is read back. -/
theorem faithful_of_reread_eq : ∀ t : Ty, t.writable = true → t.reread = t → t.faithful = true
  | native _, _, _ => rfl
  | array item, h, hreread => by
    rw [writable] at h
    rw [reread] at hreread
    rw [faithful, Bool.and_eq_true, Bool.not_eq_true']
    split at hreread
    · rename_i hparens
      refine ⟨?_, faithful_of_reread_eq item h (array.inj hreread)⟩
      cases item with
      | variadic => cases hparens
      | _ => rfl
    · obtain ⟨hitem, hvariadic⟩ := bracketed_eq_array hreread
      exact ⟨hitem ▸ hvariadic, faithful_of_reread_eq item h hitem⟩
  | function params ret, h, hreread => by
    rw [writable, Bool.and_eq_true] at h
    obtain ⟨hparams, hret⟩ := function.inj hreread
    rw [faithful, Bool.and_eq_true]
    exact ⟨faithfulList_of_reread_eq params h.1 hparams, faithfulOption_of_reread_eq ret h.2 hret⟩
  | variadic inner, h, hreread => by
    rw [writable] at h
    rw [reread] at hreread
    obtain ⟨hinner, hloose⟩ := dotted_eq_variadic hreread
    rw [faithful, Bool.and_eq_true, decide_eq_true_eq]
    exact ⟨hinner ▸ hloose, faithful_of_reread_eq inner h hinner⟩
  | union members, h, hreread => by
    rw [writable, Bool.and_eq_true, decide_eq_true_eq] at h
    rw [reread] at hreread
    rw [faithful]
    exact faithfulMembers_of_reread_eq members h.2 (by rw [hreread, Ty.members])

theorem faithfulList_of_reread_eq : ∀ ts : List Ty, writableList ts = true →
    rereadList ts = ts → faithfulList ts = true
  | [], _, _ => rfl
  | t :: ts, h, hreread => by
    rw [writableList, Bool.and_eq_true] at h
    obtain ⟨ht, hts⟩ := List.cons.inj hreread
    rw [faithfulList, Bool.and_eq_true]
    exact ⟨faithful_of_reread_eq t h.1 ht, faithfulList_of_reread_eq ts h.2 hts⟩

theorem faithfulOption_of_reread_eq : ∀ t? : Option Ty, writableOption t? = true →
    rereadOption t? = t? → faithfulOption t? = true
  | none, _, _ => rfl
  | some t, h, hreread => faithful_of_reread_eq t h (Option.some.inj hreread)

theorem faithfulMembers_of_reread_eq : ∀ ms : List Ty, writableList ms = true →
    (rereadMembers ms).members = ms → faithfulMembers ms = true
  | [], _, _ => rfl
  | [t], h, hreread => by
    rw [writableList, Bool.and_eq_true] at h
    have hspells := spells_tokens t h.1
    rw [rereadMembers] at hreread
    have hloose : t.reread.looseness ≤ 2 := by
      refine Nat.le_of_not_lt fun hunion => ?_
      obtain ⟨us, hus⟩ := exists_eq_union hunion
      rw [hus] at hspells hreread
      obtain ⟨u, v, vs, rfl, -⟩ := hspells.exists_of_union
      simp [members] at hreread
    rw [members_of_looseness_le hloose] at hreread
    have ht : t.reread = t := List.head_eq_of_cons_eq hreread
    rw [faithfulMembers, Bool.and_eq_true, decide_eq_true_eq]
    exact ⟨ht ▸ hloose, faithful_of_reread_eq t h.1 ht⟩
  | t :: u :: ts, h, hreread => by
    rw [writableList, Bool.and_eq_true] at h
    have hspells := spells_tokens t h.1
    rw [rereadMembers] at hreread
    by_cases hloose : t.reread.looseness ≤ 1
    · rw [barred_of_looseness_le hloose] at hreread
      obtain ⟨ht, hus⟩ := List.cons.inj hreread
      rw [faithfulMembers, Bool.and_eq_true, Bool.and_eq_true, decide_eq_true_eq]
      exact ⟨⟨ht ▸ hloose, faithful_of_reread_eq t h.1 ht⟩,
        faithfulMembers_of_reread_eq (u :: ts) h.2 hus⟩
    · exfalso
      by_cases hunion : t.reread.looseness ≤ 2
      · -- The bar belongs to a return type.
        have hend : (t.reread.barred (rereadMembers (u :: ts))).looseness ≤ 2 :=
          looseness_atEnd_le hunion fun hle => absurd hle hloose
        rw [members_of_looseness_le hend] at hreread
        simp at hreread
      · -- The first member has become several.
        obtain ⟨us, hus⟩ := exists_eq_union (Nat.lt_of_not_le hunion)
        rw [hus] at hspells hreread
        obtain ⟨v, w, ws, rfl, -⟩ := hspells.exists_of_union
        have hv : v = t := List.head_eq_of_cons_eq hreread
        exact reread_ne_union_cons t h.1 _ (hv ▸ hus)

end

/-- **The types that are read back** are the faithful ones. -/
theorem reread_eq_iff (h : t.writable = true) : t.reread = t ↔ t.faithful = true :=
  ⟨faithful_of_reread_eq t h, reread_of_faithful t h⟩

/-! ## From the text to its tokens -/

open Lexer (Stops Yields isWordChar)

/-- The text of the type is read as its tokens, wherever it stands before a text that does not go on
with a word. -/
def Lexes (t : Ty) : Prop :=
  ∀ ⦃cs : List Char⦄ ⦃us : List Token⦄, Stops isWordChar cs → Yields cs us →
    Yields (t.text.toList ++ cs) (t.tokens ++ us)

section Lists

variable {sep : String} {mark : Symbol} {cs : List Char} {us : List Token}

theorem yields_textTail
    (hsep : ∀ {cs us}, Yields cs us → Yields (sep.toList ++ cs) (.symbol mark :: us))
    (hstops : ∀ cs, Stops isWordChar (sep.toList ++ cs)) (h : ∀ t ∈ ts, t.Lexes)
    (hcs : Stops isWordChar cs) (hus : Yields cs us) :
    Stops isWordChar ((textTail sep ts).toList ++ cs) ∧
      Yields ((textTail sep ts).toList ++ cs)
        ((ts.map tokens).flatMap (.symbol mark :: ·) ++ us) := by
  induction ts with
  | nil => exact ⟨hcs, hus⟩
  | cons t ts ih =>
    obtain ⟨ht, hts⟩ := List.forall_mem_cons.mp h
    obtain ⟨hstop, hyields⟩ := ih hts
    simp only [textTail, String.toList_append, List.append_assoc, List.map_cons, List.flatMap_cons,
      List.cons_append]
    exact ⟨hstops _, hsep (ht hstop hyields)⟩

theorem yields_textList
    (hsep : ∀ {cs us}, Yields cs us → Yields (sep.toList ++ cs) (.symbol mark :: us))
    (hstops : ∀ cs, Stops isWordChar (sep.toList ++ cs)) (h : ∀ t ∈ ts, t.Lexes)
    (hcs : Stops isWordChar cs) (hus : Yields cs us) :
    Yields ((textList sep ts).toList ++ cs) (separated mark (ts.map tokens) ++ us) := by
  cases ts with
  | nil => exact hus
  | cons t ts =>
    obtain ⟨ht, hts⟩ := List.forall_mem_cons.mp h
    obtain ⟨hstop, hyields⟩ := yields_textTail hsep hstops hts hcs hus
    simp only [textList, String.toList_append, List.append_assoc, List.map_cons, separated]
    exact ht hstop hyields

end Lists

theorem yields_comma {cs : List Char} {us : List Token} (h : Yields cs us) :
    Yields (", ".toList ++ cs) (.symbol .comma :: us) :=
  .spelling (t := .symbol .comma) trivial (fun _ _ => rfl) h.space

theorem yields_colon {cs : List Char} {us : List Token} (h : Yields cs us) :
    Yields (": ".toList ++ cs) (.symbol .colon :: us) :=
  .spelling (t := .symbol .colon) trivial (fun _ _ => rfl) h.space

theorem yields_bar {cs : List Char} {us : List Token} (h : Yields cs us) :
    Yields (" | ".toList ++ cs) (.symbol .pipe :: us) := by
  have hbar := Yields.spelling (t := .symbol .pipe) trivial (Lexer.stops_cons.mpr rfl) h.space
  exact hbar.space

theorem yields_brackets {cs : List Char} {us : List Token} (h : Yields cs us) :
    Yields ("[]".toList ++ cs) (.symbol .lbracket :: .symbol .rbracket :: us) := by
  refine .spelling (t := .symbol .lbracket) trivial (fun _ _ => rfl) ?_
  exact .spelling (t := .symbol .rbracket) trivial (fun _ _ => rfl) h

mutual

theorem lexes : ∀ t : Ty, t.writable = true → t.Lexes
  | native name, h, cs, us, hcs, hus => .spelling (t := .ident name) h hcs hus
  | array item, h, cs, us, hcs, hus => by
    rw [writable] at h
    have hbrackets := yields_brackets hus
    rw [tokens, text, List.append_assoc]
    split
    · rename_i hparens
      have hclose := Yields.spelling (t := .symbol .rparen) trivial (fun _ _ => rfl) hbrackets
      have hitem := lexes item h (Lexer.stops_cons.mpr rfl) hclose
      rw [hparens, Token.enclosed_true]
      simp only [String.toList_append, List.append_assoc, List.cons_append]
      exact .spelling (t := .symbol .lparen) trivial (fun _ _ => rfl) hitem
    · rename_i hparens
      rw [Bool.eq_false_iff.mpr hparens, Token.enclosed_false]
      simp only [String.toList_append, List.append_assoc]
      exact lexes item h (Lexer.stops_cons.mpr rfl) hbrackets
  | function params ret, h, cs, us, hcs, hus => by
    rw [writable, Bool.and_eq_true] at h
    have hret : Yields ((textRet ret).toList ++ cs) (behind .colon (tokensOption ret) ++ us) :=
      yields_textRet ret h.2 hcs hus
    have hclose := Yields.spelling (t := .symbol .rparen) trivial (fun _ _ => rfl) hret
    have hparams := yields_textList yields_comma (fun _ => Lexer.stops_cons.mpr rfl)
      (lexes_of_mem params h.1) (Lexer.stops_cons.mpr rfl) hclose
    have hopen := Yields.spelling (t := .symbol .lparen) trivial (fun _ _ => rfl) hparams
    rw [tokens, text, tokensList_eq]
    simp only [String.toList_append, List.append_assoc, List.cons_append]
    exact .spelling (t := .keyword .fn_) trivial (Lexer.stops_cons.mpr rfl) hopen
  | variadic inner, h, cs, us, hcs, hus => by
    rw [writable] at h
    rw [tokens, text, String.toList_append, List.append_assoc]
    exact .spelling (t := .symbol .ellipsis) trivial (fun _ _ => rfl) (lexes inner h hcs hus)
  | union members, h, cs, us, hcs, hus => by
    rw [writable, Bool.and_eq_true] at h
    rw [tokens, text, tokensList_eq]
    exact yields_textList yields_bar (fun _ => Lexer.stops_cons.mpr rfl)
      (lexes_of_mem members h.2) hcs hus

theorem lexes_of_mem : ∀ ts : List Ty, writableList ts = true → ∀ t ∈ ts, t.Lexes
  | [], _ => List.forall_mem_nil _
  | t :: ts, h => by
    rw [writableList, Bool.and_eq_true] at h
    exact List.forall_mem_cons.mpr ⟨lexes t h.1, lexes_of_mem ts h.2⟩

theorem yields_textRet : ∀ t? : Option Ty, writableOption t? = true →
    ∀ {cs us}, Stops isWordChar cs → Yields cs us →
      Yields ((textRet t?).toList ++ cs) (behind .colon (tokensOption t?) ++ us)
  | none, _, _, _, _, hus => hus
  | some t, h, cs, us, hcs, hus => by
    rw [textRet, String.toList_append, List.append_assoc]
    exact yields_colon (lexes t h hcs hus)

end

/-! ## Types from sources -/

mutual

/-- The places in an annotation do not matter to its type. -/
theorem ofTypeExpr_bare : ∀ e : TypeExpr, ofTypeExpr e.bare = ofTypeExpr e
  | .named _ _ => rfl
  | .array _ item => by rw [TypeExpr.bare, ofTypeExpr, ofTypeExpr, ofTypeExpr_bare item]
  | .function _ params ret => by
    rw [TypeExpr.bare, ofTypeExpr, ofTypeExpr, ofTypeExprs_bare params, ofTypeExprOption_bare ret]
  | .variadic _ inner => by rw [TypeExpr.bare, ofTypeExpr, ofTypeExpr, ofTypeExpr_bare inner]
  | .union _ members => by rw [TypeExpr.bare, ofTypeExpr, ofTypeExpr, ofTypeExprs_bare members]

theorem ofTypeExprs_bare : ∀ es : List TypeExpr,
    ofTypeExprs (TypeExpr.bareList es) = ofTypeExprs es
  | [] => rfl
  | e :: es => by
    rw [TypeExpr.bareList, ofTypeExprs, ofTypeExprs, ofTypeExpr_bare e, ofTypeExprs_bare es]

theorem ofTypeExprOption_bare : ∀ e? : Option TypeExpr,
    ofTypeExpr? (TypeExpr.bareOption e?) = ofTypeExpr? e?
  | none => rfl
  | some e => congrArg some (ofTypeExpr_bare e)

end

/-- The text of every type that can be written is read, and as `reread` says. -/
theorem ofSource_text_of_writable (h : t.writable = true) : ofSource t.text = .ok t.reread := by
  have hspells := spells_tokens t h
  have hwhole := hspells.reads.1.whole
  obtain ⟨ls, hls, htokens⟩ := lexes t h Lexer.stops_nil Yields.nil 0
  rw [List.append_nil] at hls htokens
  obtain ⟨⟨e, c, hc⟩, hparse, hbare, hrest⟩ :=
    @hwhole (.start ls) [.eof] htokens (by simp [Token.Avoids])
  have hend : TypeExpr.ofLexemes ls = .ok e := by
    rw [TypeExpr.ofLexemes, hparse]
    exact if_pos (Cursor.peek_of_tokens hrest)
  have htype : ofTypeExpr e = t.reread := by
    rw [← ofTypeExpr_bare e, hbare, ofTypeExpr_bare, hspells.ofTypeExpr_expr]
  rw [ofSource, TypeExpr.ofSource, Lexeme.ofSource, hls]
  show (TypeExpr.ofLexemes ls >>= fun e => pure (ofTypeExpr e)) = _
  rw [hend, ← htype]
  rfl

theorem writableList_eq_true {ts : List Ty} :
    writableList ts = true ↔ ∀ t ∈ ts, t.writable = true := by
  induction ts with
  | nil => simp [writableList]
  | cons t ts ih => simp [writableList, ih]

theorem composed_writable :
    TypeExpr.Composed (Token.isName · = true) fun e => (ofTypeExpr e).writable = true where
  named h := h
  array h := h
  function {_ params ret} hparams hret := by
    have hret' : writableOption (ofTypeExpr? ret) = true := by
      cases ret with
      | none => rfl
      | some r => exact hret r rfl
    rw [ofTypeExpr, writable, Bool.and_eq_true, ofTypeExprs_eq, writableList_eq_true]
    exact ⟨by simpa using hparams, hret'⟩
  variadic h := h
  union {_ members} hlength h := by
    rw [ofTypeExpr, writable, Bool.and_eq_true, ofTypeExprs_eq, writableList_eq_true]
    exact ⟨by simpa using hlength, by simpa using h⟩

/-- What is written in a source can be written. -/
theorem writable_of_ofSource {source : String} (h : ofSource source = .ok t) :
    t.writable = true := by
  obtain ⟨e, he, h⟩ := Except.bind_eq_ok.mp h
  obtain ⟨ls, hls, he⟩ := Except.bind_eq_ok.mp he
  cases h
  refine composed_writable.ofLexemes (fun l hl name hname => ?_) he
  exact Lexeme.isName_of_ofSource hls hl hname

/-- **Types as text.** The text of a type that was read from a source can be read again, and what is
read is the type itself if that is faithful, and only then. Two faithful types that were read from
sources have different texts. -/
theorem ofSource_text {source : String} (h : ofSource source = .ok t) :
    ofSource t.text = .ok t.reread ∧
      (ofSource t.text = .ok t ↔ t.faithful = true) ∧
      ∀ {source' : String} {u : Ty}, ofSource source' = .ok u → t.faithful = true →
        u.faithful = true → t.text = u.text → t = u := by
  have hwritable := writable_of_ofSource h
  have hread := ofSource_text_of_writable hwritable
  refine ⟨hread, ?_, ?_⟩
  · rw [hread, Except.ok.injEq]
    exact reread_eq_iff hwritable
  · intro source' u hu ht hfaithful htext
    have hwritable' := writable_of_ofSource hu
    have hread' := ofSource_text_of_writable hwritable'
    rw [← htext, hread, (reread_eq_iff hwritable).mpr ht,
      (reread_eq_iff hwritable').mpr hfaithful] at hread'
    exact Except.ok.inj hread'

/-- A type in which every kind of type stands inside of others. -/
def nested : Ty :=
  union [
    array (function [array (union [native "a", native "b"]), variadic (native "c")]
      (some (union [array (function [] none), native "d"]))),
    variadic (array (array (native "e"))),
    function [] (some (union [native "f", variadic (function [] (some (native "g")))]))]

theorem ofSource_text_nested :
    ofSource "((fn((a|b)[], (...c)): ((fn())[] | d))[] | (...e[][]) | fn(): (f | ...fn(): g))" =
        .ok nested ∧
      nested.faithful = true ∧ ofSource nested.text = .ok nested ∧
      ∀ {source : String} {u : Ty}, ofSource source = .ok u → u.faithful = true →
        nested.text = u.text → nested = u := by
  have h : ofSource
      "((fn((a|b)[], (...c)): ((fn())[] | d))[] | (...e[][]) | fn(): (f | ...fn(): g))" =
        .ok nested := by cbv
  have hfaithful : nested.faithful = true := by decide
  exact ⟨h, hfaithful, (ofSource_text h).2.1.mpr hfaithful,
    fun hu => (ofSource_text h).2.2 hu hfaithful⟩

/-- Two types that are not read back: the parentheses in their sources are missing in their texts,
which are those of other types. -/
theorem misread_text :
    (ofSource "(...number)[]" = .ok (array (variadic number)) ∧
      (array (variadic number)).text = "...number[]" ∧
      ofSource "...number[]" = .ok (variadic (array number)) ∧
      (variadic (array number)).text = "...number[]") ∧
    (ofSource "(fn(): number) | string" = .ok (union [function [] (some number), string]) ∧
      (union [function [] (some number), string]).text = "fn(): number | string" ∧
      ofSource "fn(): number | string" = .ok (function [] (some (union [number, string]))) ∧
      (function [] (some (union [number, string]))).text = "fn(): number | string") := by
  refine ⟨⟨?_, ?_, ?_, ?_⟩, ⟨?_, ?_, ?_, ?_⟩⟩ <;> cbv

end Ty

end RuleScript
