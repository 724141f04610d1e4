import Mathlib.Logic.Function.Iterate
import RuleScript.Proofs.Syntax.Layout

/-!
# Progress of reading

The tokens of a text end with the end of the text, which is marked once. Going on from one token to
the next comes to a halt there: the last token is never left. Whoever goes on in a loop as long as
there is something to read must therefore read something each time, and must not read the end.

All rules of the grammar do so, wherever they start and whatever stands there. So reading a program
ends, and it ends at the end of the text.

## Main definitions

* `Cursor.advance`: going on by one token
* `Cursor.Ended`: the last token, and no other, is the end of the text
* `Parse.Progresses`: what was read is at least one token, and not the end of the text

## Main results

* `Program.reading_progresses`: all rules of the grammar make progress, and a program is read up to
  the end of the text
-/

namespace RuleScript

open Cursor (Lays)
open Parse (LaysOut)

namespace Cursor

/-- Goes on by one token. The last token is not left. -/
def advance : Cursor → Cursor
  | ⟨_, l :: l' :: rest⟩ => ⟨l.span, l' :: rest⟩
  | c => c

/-- The last token in front of the cursor is the end of the text, and no other is. -/
def Ended (c : Cursor) : Prop :=
  ∃ body place, c.rest = body ++ [⟨.eof, place⟩] ∧ ∀ l ∈ body, l.token ≠ .eof

variable {c c₁ c₂ : Cursor}

theorem Next.unique (h₁ : c.Next c₁) (h₂ : c.Next c₂) : c₁ = c₂ := by
  cases h₁
  cases h₂
  rfl

/-- A token that is not the end of the text has another one behind it. -/
theorem Ended.next (hc : c.Ended) (hnext : c.Next c₁) : c₁ = c.advance ∧ c₁.Ended := by
  obtain ⟨body, place, hrest, hbody⟩ := hc
  cases hnext with
  | @token last l rest hl =>
    cases body with
    | nil =>
      cases hrest
      exact absurd rfl hl
    | cons l' body =>
      cases hrest
      have hended : Ended ⟨l.span, body ++ [⟨.eof, place⟩]⟩ :=
        ⟨body, place, rfl, fun l' hl' => hbody l' (List.mem_cons_of_mem _ hl')⟩
      exact ⟨by cases body <;> rfl, hended⟩

/-- What passes over tokens goes on by as many, and the end of the text stays in front of it. -/
theorem Ended.passes (hc : c.Ended) (h : c.Passes c₁) :
    c₁.Ended ∧ ∃ k, c.size = k + c₁.size ∧ c₁ = advance^[k] c := by
  induction h with
  | refl => exact ⟨hc, 0, (Nat.zero_add _).symm, rfl⟩
  | tail _ hnext ih =>
    obtain ⟨hended, k, hsize, hk⟩ := ih
    obtain ⟨hnext', hended'⟩ := hended.next hnext
    refine ⟨hended', k + 1, ?_, ?_⟩
    · rw [hsize, hnext.size_eq, Nat.add_right_comm, Nat.add_assoc]
    · rw [Function.iterate_succ_apply', ← hk, hnext']

theorem Ended.advance (hc : c.Ended) : c.advance.Ended := by
  obtain ⟨last, rest⟩ := c
  obtain ⟨body, place, rfl, hbody⟩ := hc
  rcases body with _ | ⟨l, body⟩
  · exact ⟨[], place, rfl, List.forall_mem_nil _⟩
  · have hl : l.token ≠ .eof := hbody l List.mem_cons_self
    have hended : Ended ⟨last, l :: body ++ [⟨.eof, place⟩]⟩ := ⟨l :: body, place, rfl, hbody⟩
    obtain ⟨hnext, hended'⟩ := hended.next (.token hl)
    exact hnext ▸ hended'

theorem Ended.size_pos (hc : c.Ended) : 0 < c.size := by
  obtain ⟨body, place, hrest, -⟩ := hc
  simp [size, hrest]

/-- Where the end of the text is next, nothing else is left. -/
theorem Ended.size_eq_one (hc : c.Ended) (heof : c.peek = .eof) : c.size = 1 := by
  obtain ⟨last, rest⟩ := c
  obtain ⟨body, place, rfl, hbody⟩ := hc
  cases body with
  | nil => rfl
  | cons l body => exact absurd heof (hbody l List.mem_cons_self)

end Cursor

namespace Parse

variable {α : Type} {n : Nat} {c c₀ : Cursor} {r : Parse α n} {view : α → List Outline}

/-- What was read is at least one token, and the end of the text is not among it. -/
def Progresses (c : Cursor) (r : Parse α n) : Prop :=
  ∀ p, r = .ok p → ∃ k, 0 < k ∧ k < c.size ∧ p.next = Cursor.advance^[k] c

theorem progresses_of_passes (hc : c.Ended) (hn : n ≤ c.size)
    (h : ∀ p, r = .ok p → c.Passes p.next) : Progresses c r := by
  intro p hp
  obtain ⟨hended, k, hsize, hk⟩ := hc.passes (h p hp)
  have hshorter := p.shorter
  have hpos := hended.size_pos
  exact ⟨k, by omega, by omega, hk⟩

theorem LaysOut.progresses (hc : c.Ended) (h : LaysOut view c r) (hn : n ≤ c.size) :
    Progresses c r :=
  progresses_of_passes hc hn fun p hp => (h.ok p hp).1

/-- The same behind a first word, if what is read is laid out from that word on. -/
theorem LaysOut.progresses_behind (hc : c.Ended) (h : LaysOut view c₀ r) (hnext : c₀.Next c)
    (hn : n ≤ c.size) : Progresses c r := by
  refine progresses_of_passes hc hn fun p hp => ?_
  have hpass := (h.ok p hp).1
  have hshorter := p.shorter
  have hsize := hnext.size_eq
  obtain ⟨c', hnext', hpass'⟩ := hpass.exists_next (by omega)
  rwa [hnext.unique hnext']

end Parse

open Parse (Progresses)

/-- All rules of the grammar make progress at a place. A rule that goes on with something that was
read before is followed from where that starts. -/
structure Cursor.RulesProgress (c : Cursor) : Prop where
  item : Progresses c (Item.parse c)
  function : Progresses c (FunctionDecl.parse c.last c)
  event : Progresses c (EventDecl.parse c.last c)
  typeAlias : Progresses c (AliasDecl.parse c.last c)
  generics : Progresses c (GenericParam.parseList c)
  param : Progresses c (Param.parse c)
  params : Progresses c (c.parenthesised Param.parse)
  names : Progresses c (c.parenthesised fun c' => do return (← c'.ident).map (·.1))
  type : Progresses c (TypeExpr.parse c)
  typeAtom : Progresses c (TypeExpr.parseAtom c)
  typeStem : Progresses c (TypeExpr.parseStem c)
  types : ∀ n close (hn : c.size < n),
    Progresses c (c.listUntil n close (fun c' _ => TypeExpr.parse c') hn)
  block : Progresses c (Stmt.parseBlock c)
  body : Progresses c (Stmt.parseBody c)
  stmt : Progresses c (Stmt.parse c)
  declare : ∀ constant, Progresses c (Stmt.parseDeclare c.last constant c)
  branch : Progresses c (Stmt.parseBranch c.last c)
  simple : Progresses c (Stmt.parseSimple c)
  expr : Progresses c (Expr.parse c)
  levels : ∀ level, Progresses c (Expr.parseLevels level c)
  operators : ∀ level p, Expr.parseLevels level c = .ok p →
    Progresses c (Expr.parseOperators level p.value p.next)
  unary : Progresses c (Expr.parseUnary c)
  primary : Progresses c (Expr.parsePrimary c)
  suffixes : ∀ p, Expr.parsePrimary c = .ok p → Progresses c (Expr.parsePostfix p.value p.next)
  exprs : ∀ n close (hn : c.size < n),
    Progresses c (c.listUntil n close (fun c' _ => Expr.parse c') hn)

/-- Every place is behind some first word. -/
theorem Cursor.exists_word (c : Cursor) : ∃ c₀ : Cursor, c₀.Next c ∧ c.last = c₀.span :=
  ⟨⟨c.last, ⟨.keyword .function_, c.last⟩ :: c.rest⟩, .token (by simp), rfl⟩

theorem Cursor.Ended.rulesProgress {c : Cursor} (hc : c.Ended) : c.RulesProgress := by
  -- Some rules start behind a first word that was read before, so the place is given one.
  obtain ⟨c₀, hnext, hword⟩ := c.exists_word
  have hbehind : c₀.Lays [] c := (Lays.refl c₀).next hnext
  have hle := Nat.le_refl c.size
  exact {
    item := (Item.laysOut_parse c).progresses hc hle
    function := (FunctionDecl.laysOut_parse hword hbehind).progresses_behind hc hnext hle
    event := (EventDecl.laysOut_parse hword hbehind).progresses_behind hc hnext hle
    typeAlias := (AliasDecl.laysOut_parse hword hbehind).progresses_behind hc hnext hle
    generics := (GenericParam.laysOut_parseList c).progresses hc hle
    param := (Param.laysOut_parse c).progresses hc hle
    params := (Cursor.laysOut_parenthesised (·.map Param.outline) rfl (fun _ _ => rfl)
      Param.laysOut_parse c).progresses hc hle
    names := (Cursor.laysOut_parenthesised (fun _ => []) rfl (fun _ _ => rfl)
      Cursor.laysOut_name c).progresses hc hle
    type := (TypeExpr.laysOut_parse c).progresses hc hle
    typeAtom := (TypeExpr.laysOut_parseAtom c).progresses hc hle
    typeStem := (TypeExpr.laysOut_parseStem c).progresses hc hle
    types := fun n close hn => (Cursor.laysOut_listUntil TypeExpr.outlineList rfl (fun _ _ => rfl)
      (fun c' _ => TypeExpr.laysOut_parse c') c hn).progresses hc hle
    block := (Stmt.laysOut_parseBlock c).progresses hc hle
    body := (Stmt.laysOut_parseBody c).progresses hc hle
    stmt := (Stmt.laysOut_parse c).progresses hc hle
    declare := fun constant =>
      (Stmt.laysOut_parseDeclare constant hword hbehind).progresses_behind hc hnext hle
    branch := (Stmt.laysOut_parseBranch _ c hword hbehind).progresses_behind hc hnext hle
    simple := (Stmt.laysOut_parseSimple c).progresses hc hle
    expr := (Expr.laysOut_parse c).progresses hc hle
    levels := fun level => (Expr.laysOut_parseLevels level c).progresses hc hle
    operators := fun level p hp =>
      (Expr.laysOut_parseOperators level p.value p.next
        ((Expr.laysOut_parseLevels level c).ok p hp)).progresses hc p.shorter
    unary := (Expr.laysOut_parseUnary c).progresses hc hle
    primary := (Expr.laysOut_parsePrimary c).progresses hc hle
    suffixes := fun p hp =>
      (Expr.laysOut_parsePostfix p.value p.next
        ((Expr.laysOut_parsePrimary c).ok p hp)).progresses hc p.shorter
    exprs := fun n close hn => (Cursor.laysOut_listUntil Expr.outlineList rfl (fun _ _ => rfl)
      (fun c' _ => Expr.laysOut_parse c') c hn).progresses hc hle }

namespace Program

/-- **Reading makes progress and ends.** If the last of some tokens, and no other, is the end of the
text, then from every place on all rules of the grammar that succeed go on by at least one token and
not past the end of the text. A program is then read, or an error is found; and if it is read, it is
read up to the end of the text, with all the tokens before it passed over. -/
theorem reading_progresses (tokens : List Lexeme) (hended : (Cursor.start tokens).Ended) :
    (∀ k, (Cursor.advance^[k] (.start tokens)).RulesProgress) ∧
    ((∃ e, ofLexemes tokens = .error e) ∨
      ∃ program stop, ofLexemes tokens = .ok program ∧
        parseItemsTo (.start tokens) = .ok (program.items, stop) ∧
        stop = Cursor.advance^[tokens.length - 1] (.start tokens) ∧
        stop.peek = .eof ∧ stop.size = 1) := by
  constructor
  · intro k
    have hplace : (Cursor.advance^[k] (.start tokens)).Ended :=
      Function.Iterate.rec _ hended (fun _ => Cursor.Ended.advance) k
    exact hplace.rulesProgress
  · rw [ofLexemes, parseItems_eq]
    cases hitems : parseItemsTo (.start tokens) with
    | error e => exact .inl ⟨e, rfl⟩
    | ok read =>
      obtain ⟨items, stop⟩ := read
      obtain ⟨hlays, heof⟩ := lays_of_parseItemsTo _ hitems
      obtain ⟨hstop, k, hsize, hk⟩ := hended.passes hlays.1
      have hone := hstop.size_eq_one heof
      have hlength : tokens.length = k + stop.size := hsize
      refine .inr ⟨⟨items⟩, stop, rfl, rfl, ?_, heof, hone⟩
      rw [hk, hlength, hone, Nat.add_sub_cancel]

/-- The tokens of one alias, and the end of the text. -/
def aliasTokens : List Lexeme :=
  [.keyword .type_, .ident "team", .symbol .eq, .ident "number", .eof].map (⟨·, .zero⟩)

theorem reading_progresses_aliasTokens :
    (Cursor.start aliasTokens).Ended ∧
      (∀ k, (Cursor.advance^[k] (.start aliasTokens)).RulesProgress) ∧
      ∃ program stop, ofLexemes aliasTokens = .ok program ∧
        parseItemsTo (.start aliasTokens) = .ok (program.items, stop) ∧
        stop = Cursor.advance^[4] (.start aliasTokens) ∧ stop.peek = .eof ∧ stop.size = 1 := by
  have hended : (Cursor.start aliasTokens).Ended :=
    ⟨aliasTokens.dropLast, .zero, rfl, by decide⟩
  have hok : (ofLexemes aliasTokens).isOk = true := by cbv
  obtain ⟨hrules, ⟨e, he⟩ | hread⟩ := reading_progresses aliasTokens hended
  · rw [he] at hok
    cases hok
  · exact ⟨hended, hrules, hread⟩

end Program

end RuleScript
