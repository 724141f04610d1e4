import RuleScript.Proofs.Lowering.Inversion
import RuleScript.Proofs.Syntax.Passing

/-!
# What the grammar lays out

The rules of the grammar are followed one by one: what a rule reads is laid out among the tokens
that it passes over, and where it fails the error is at the place of a token or of something that
was read. Parentheses are passed over and belong to no node, so an outline may start behind the
first token of what is read and end before its last one.

A rule that is given something read before it, such as a first operand, is followed from the cursor
in front of that.

## Main results

* `TypeExpr.laysOut_parse`, `Expr.laysOut_parse`, `Stmt.laysOut_parse`, `Item.laysOut_parse`:
  reading lays out what it reads
* `Program.lays_of_parseItemsTo`: so does reading a program, up to the end of the text
-/

namespace RuleScript

open Cursor (Lays)
open Parse (LaysOut)

variable {c c₀ : Cursor}

/-- A check fails at one of its steps. -/
theorem Except.bind_eq_error {α β : Type} {x : Except Error α} {f : α → Except Error β}
    {e : Error} : (x >>= f) = .error e ↔ x = .error e ∨ ∃ a, x = .ok a ∧ f a = .error e := by
  cases x with
  | ok a =>
    change f a = .error e ↔ _
    simp
  | error e' =>
    change Except.error e' = .error e ↔ _
    simp

/-! ## Annotations -/

namespace TypeExpr

theorem lays_brackets {ty : TypeExpr} {last : Span} {rest : List Lexeme}
    (h : c.Lays [ty.outline] ⟨last, rest⟩) :
    c.Lays [(brackets ty last rest).value.outline] (brackets ty last rest).next := by
  unfold brackets
  split
  case h_1 start stop rest =>
    have hclose : c.Lays [ty.outline] ⟨start, ⟨.symbol .rbracket, stop⟩ :: rest⟩ :=
      h.token (by simp)
    have harray : c.Lays [(array (ty.span.merge stop) ty).outline] ⟨stop, rest⟩ :=
      (hclose.token (by simp)).fromPart hclose.size_le ty.span_outline
    have hrest := lays_brackets harray
    exact hrest
  case h_2 => exact h
termination_by rest.length

theorem lays_ofMembers {first : TypeExpr} {others : List TypeExpr}
    (h : c₀.Lays (first.outline :: outlineList others) c) :
    c₀.Lays [(ofMembers first others).outline] c := by
  cases others with
  | nil => exact h
  | cons t ts =>
    have hunion := h.union
    simp only [outlineList_eq, List.foldl_map, span_outline] at hunion
    simpa only [ofMembers, outline, outlineList_eq, List.map_cons] using hunion

mutual

theorem laysOut_parse (c : Cursor) : LaysOut (fun t => [t.outline]) c (parse c) := by
  rw [parse]
  refine .bind (.refl c) (laysOut_parseAtom c) fun first c₁ h₁ hc₁ => ?_
  exact .bind hc₁ (laysOut_parseMembers c₁) fun others c₂ _ hc₂ => .of_ok (lays_ofMembers hc₂)
termination_by (c.size, 2)

theorem laysOut_parseMembers (c : Cursor) : LaysOut outlineList c (parseMembers c) := by
  rw [parseMembers]
  split
  · exact .of_ok (.refl c)
  case h_2 c₁ h₁ heat =>
    refine .bind ((Lays.refl c).eat? heat (by simp)) (laysOut_parseAtom c₁)
      fun member c₂ h₂ hc₂ => ?_
    exact .bind hc₂ (laysOut_parseMembers c₂) fun others c₃ _ hc₃ => .of_ok hc₃
termination_by (c.size, 0)

theorem laysOut_parseAtom (c : Cursor) : LaysOut (fun t => [t.outline]) c (parseAtom c) := by
  rw [parseAtom]
  exact .bind (.refl c) (laysOut_parseStem c) fun ty c₁ _ hc₁ => .of_ok (lays_brackets hc₁)
termination_by (c.size, 1)

theorem laysOut_parseStem (c : Cursor) : LaysOut (fun t => [t.outline]) c (parseStem c) := by
  unfold parseStem
  split
  case h_1 last start rest =>
    refine .bind ((Lays.refl _).token (by simp)) (laysOut_parseAtom ⟨start, rest⟩)
      fun inner c₁ h₁ hc₁ => .of_ok ?_
    exact hc₁.toPart (Nat.lt_succ_of_lt h₁) inner.span_outline
  case h_2 last start rest =>
    refine .take ((Lays.refl _).token (by simp)) (Cursor.takes_expect _ (by simp))
      fun _ c₁ h₁ _ _ hc₁ => ?_
    refine .bind hc₁ (Cursor.laysOut_listUntil outlineList rfl (fun _ _ => rfl)
      (fun c _ => laysOut_parse c) c₁ h₁) fun params c₂ h₂ hc₂ => ?_
    dsimp only
    split
    · exact .node (Nat.le_refl _) hc₂ (by simp [outline, outlineOption, Cursor.span])
    case h_2 c₃ h₃ heat =>
      exact .bind (hc₂.eat? heat (by simp)) (laysOut_parse c₃) fun ret c₄ _ hc₄ =>
        .node (Nat.le_refl _) hc₄ rfl
  case h_3 => exact .of_ok (.leaf (by simp))
  case h_4 last start rest =>
    refine .bind ((Lays.refl _).token (by simp)) (laysOut_parse ⟨start, rest⟩)
      fun inner c₁ _ hc₁ => ?_
    exact .take hc₁ (c₁.takes_expect (by simp)) fun _ c₂ _ _ _ hc₂ => .of_ok hc₂
  case h_5 => exact Cursor.laysOut_fail
termination_by (c.size, 0)
decreasing_by all_goals grind [Cursor.size_mk]

end

end TypeExpr

/-! ## Expressions -/

namespace Expr

theorem laysOut_list {n : Nat} {close : Symbol}
    {item : (c : Cursor) → c.size < n → Parse Expr c.size}
    (hitem : ∀ c h, LaysOut (fun e => [e.outline]) c (item c h)) (c : Cursor) (hn : c.size < n) :
    LaysOut outlineList c (c.listUntil n close item hn) :=
  Cursor.laysOut_listUntil outlineList rfl (fun _ _ => rfl) hitem c hn

theorem lays_join {op : BinOp} (left : Expr) {right : Expr}
    (h : c₀.Lays [left.outline, right.outline] c) : c₀.Lays [(join op left right).outline] c :=
  h.join left.span_outline right.span_outline

mutual

theorem laysOut_parseLevels (levels : Nat) (c : Cursor) :
    LaysOut (fun e => [e.outline]) c (parseLevels levels c) := by
  match levels with
  | 0 =>
    rw [parseLevels]
    exact laysOut_parseUnary c
  | level + 1 =>
    rw [parseLevels]
    refine .bind (.refl c) (laysOut_parseLevels level c) fun left c₁ h₁ hc₁ => ?_
    exact .weaken _ (laysOut_parseOperators level left c₁ hc₁)
termination_by (c.size, levels + 2)

theorem laysOut_parseOperators {c₀ : Cursor} (level : Nat) (left : Expr) (c : Cursor)
    (hc : c₀.Lays [left.outline] c) :
    LaysOut (fun e => [e.outline]) c₀ (parseOperators level left c) := by
  rw [parseOperators]
  split
  · exact .of_ok hc
  case h_2 op c₁ h₁ hop =>
    refine .bind (hc.next (Cursor.next_of_operator? hop)) (laysOut_parseLevels level c₁)
      fun right c₂ h₂ hc₂ => ?_
    exact .weaken _ (laysOut_parseOperators level _ c₂ (lays_join _ hc₂))
termination_by (c.size, 0)

theorem laysOut_parseUnary (c : Cursor) : LaysOut (fun e => [e.outline]) c (parseUnary c) := by
  unfold parseUnary
  split
  case h_1 last start rest | h_2 last start rest =>
    refine .bind ((Lays.refl _).token (by simp)) (laysOut_parseUnary ⟨start, rest⟩)
      fun operand c₁ h₁ hc₁ => .of_ok ?_
    exact hc₁.toPart (Nat.lt_succ_of_lt h₁) operand.span_outline
  case h_3 last start rest =>
    -- The zero that is subtracted from stands where the sign does.
    refine .bind (.leaf (by simp)) (laysOut_parseUnary ⟨start, rest⟩)
      fun operand c₁ h₁ hc₁ => .of_ok ?_
    exact lays_join (number start 0.0) hc₁
  case h_4 =>
    refine .bind (.refl _) (laysOut_parsePrimary _) fun e c₁ _ hc₁ => ?_
    exact .weaken _ (laysOut_parsePostfix e c₁ hc₁)
termination_by (c.size, 1)
decreasing_by all_goals grind [Cursor.size_mk]

theorem laysOut_parsePostfix {c₀ : Cursor} (e : Expr) (c : Cursor)
    (hc : c₀.Lays [e.outline] c) :
    LaysOut (fun e => [e.outline]) c₀ (parsePostfix e c) := by
  have hsize := hc.size_le
  unfold parsePostfix
  split
  case h_1 last start rest =>
    refine .bind (hc.token (by simp)) (laysOut_parseLevels _ ⟨start, rest⟩) fun i c₁ h₁ hc₁ => ?_
    refine .take hc₁ (c₁.takes_expect (by simp)) fun stop c₂ h₂ hstop hlast hc₂ => ?_
    have hindex : c₀.Lays [(index (e.span.merge stop) e i).outline] c₂ := by
      rw [show stop = c₂.last from hstop.trans hlast.symm]
      exact hc₂.fromPart (by simp at *; omega) e.span_outline
    exact .weaken _ (laysOut_parsePostfix _ c₂ hindex)
  case h_2 last span method span₁ start rest =>
    have hmethod : c₀.Lays [e.outline] ⟨span, _ :: _ :: rest⟩ := hc.token (by simp)
    have hopen : c₀.Lays [e.outline] ⟨span₁, _ :: rest⟩ := hmethod.token (by simp)
    refine .bind (hopen.token (by simp)) (laysOut_list
      (fun c _ => laysOut_parseLevels _ c) ⟨start, rest⟩ _) fun args c₁ h₁ hc₁ => ?_
    have hcall : c₀.Lays [(call (e.span.merge c₁.last) method (e :: args)).outline] c₁ :=
      hc₁.fromPart (by simp at *; omega) e.span_outline
    exact .weaken _ (laysOut_parsePostfix _ c₁ hcall)
  case h_3 => exact .of_ok hc
  case h_4 | h_5 =>
    exact .of_error fun source horderly => (horderly.passes hc.1).marks_span
  case h_6 => exact .of_ok hc
termination_by (c.size, 0)
decreasing_by all_goals grind [Cursor.size_mk]

theorem laysOut_parsePrimary (c : Cursor) :
    LaysOut (fun e => [e.outline]) c (parsePrimary c) := by
  unfold parsePrimary
  split
  case h_1 | h_2 | h_3 | h_4 => exact .of_ok (.leaf (by simp))
  case h_5 last name span start rest =>
    have hopen : Lays ⟨last, ⟨.ident name, span⟩ :: ⟨.symbol .lparen, start⟩ :: rest⟩ []
        ⟨span, ⟨.symbol .lparen, start⟩ :: rest⟩ := (Lays.refl _).token (by simp)
    refine .bind (hopen.token (by simp)) (laysOut_list
      (fun c _ => laysOut_parseLevels _ c) ⟨start, rest⟩ _) fun args c₁ h₁ hc₁ => ?_
    exact .node (Nat.le_refl _) hc₁ rfl
  case h_6 => exact .of_ok (.leaf (by simp))
  case h_7 last start rest =>
    refine .bind ((Lays.refl _).token (by simp)) (laysOut_parseLevels _ ⟨start, rest⟩)
      fun e c₁ _ hc₁ => ?_
    exact .take hc₁ (c₁.takes_expect (by simp)) fun _ c₂ _ _ _ hc₂ => .of_ok hc₂
  case h_8 last start rest =>
    refine .bind ((Lays.refl _).token (by simp)) (laysOut_list
      (fun c _ => laysOut_parseLevels _ c) ⟨start, rest⟩ _) fun items c₁ _ hc₁ => ?_
    exact .node (Nat.le_refl _) hc₁ rfl
  case h_9 last start rest =>
    refine .bind ((Lays.refl _).token (by simp)) (TypeExpr.laysOut_parse ⟨start, rest⟩)
      fun item c₁ h₁ hc₁ => ?_
    refine .take hc₁ (c₁.takes_expect (by simp)) fun _ c₂ h₂ _ _ hc₂ => ?_
    refine .take hc₂ (c₂.takes_expect (by simp)) fun _ c₃ h₃ _ _ hc₃ => ?_
    refine .bind hc₃ (laysOut_list (fun c _ => laysOut_parseLevels _ c) c₃ _)
      fun items c₄ _ hc₄ => ?_
    exact .node (Nat.le_refl _) hc₄ rfl
  case h_10 => exact Cursor.laysOut_fail
termination_by (c.size, 0)
decreasing_by all_goals grind [Cursor.size_mk]

end

theorem laysOut_parse (c : Cursor) : LaysOut (fun e => [e.outline]) c (parse c) :=
  laysOut_parseLevels _ c

end Expr

/-! ## Statements -/

namespace Stmt

theorem laysOut_optional {α : Type} {view : α → List Outline} {mark : Symbol}
    {read : (c : Cursor) → Parse α c.size} (views : Option α → List Outline)
    (hnone : views none = []) (hsome : ∀ a, views (some a) = view a)
    (hread : ∀ c, LaysOut view c (read c)) (c : Cursor) :
    LaysOut views c (optional mark read c) := by
  unfold optional
  split
  · exact .of_ok (hnone ▸ Lays.refl c)
  case h_2 c₁ _ heat =>
    exact .bind ((Lays.refl c).eat? heat (by simp)) (hread c₁)
      fun a c₂ _ hc₂ => .of_ok (hsome a ▸ hc₂)

theorem laysOut_optionalType {mark : Symbol} (c : Cursor) :
    LaysOut TypeExpr.outlineOption c (optional mark TypeExpr.parse c) :=
  laysOut_optional TypeExpr.outlineOption rfl (fun _ => rfl) TypeExpr.laysOut_parse c

theorem laysOut_parseDeclare {start : Span} (constant : Bool) (hstart : start = c₀.span)
    (hc : c₀.Lays [] c) : LaysOut (fun s => [s.outline]) c₀ (parseDeclare start constant c) := by
  subst hstart
  refine .take hc c.takes_ident fun named c₁ _ _ _ hc₁ => ?_
  refine .bind hc₁ (laysOut_optionalType c₁) fun ty c₂ _ hc₂ => ?_
  exact .bind hc₂ (laysOut_optional Expr.outlineOption rfl (fun _ => rfl)
      Expr.laysOut_parse c₂)
    fun value c₃ _ hc₃ => .node hc.size_le hc₃ rfl

theorem laysOut_parseReturn {start : Span} (hstart : start = c₀.span) (hc : c₀.Lays [] c)
    (hlt : c.size < c₀.size) : LaysOut (fun s => [s.outline]) c₀ (parseReturn start c) := by
  subst hstart
  unfold parseReturn
  split
  · exact .node hlt hc rfl
  · exact .bind hc (Expr.laysOut_parse c) fun value c₁ _ hc₁ => .node hlt hc₁ rfl

theorem laysOut_parseAssign {target : Expr} (op : Option BinOp)
    (hc : c₀.Lays [target.outline] c) :
    LaysOut (fun s => [s.outline]) c₀ (parseAssign c₀.span target op c) := by
  unfold parseAssign
  split
  case h_1 span name =>
    refine .bind hc (Expr.laysOut_parse c) fun rhs c₁ _ hc₁ => ?_
    have hvalue : c₀.Lays [(assigned span name rhs op).outline] c₁ := by
      cases op with
      -- The target itself is a node only if the operator reads it.
      | none => exact hc₁.sublist (List.sublist_cons_self _ _)
      | some op => exact Expr.lays_join (.ident span name) hc₁
    exact .node hc.size_le hvalue rfl
  case h_2 =>
    refine .of_error fun source horderly => ?_
    rw [← Expr.span_outline]
    exact hc.marks horderly

theorem ne_eof_of_assignment? {t : Token} {op : Option BinOp} (h : assignment? t = some op) :
    t ≠ .eof := by
  rintro rfl
  cases h

theorem laysOut_parseBehind (target : Expr) (c : Cursor) (hc : c₀.Lays [target.outline] c)
    (hlt : c.size < c₀.size) :
    LaysOut (fun s => [s.outline]) c₀ (parseBehind c₀.span target c) := by
  have hmarks : ∀ source, c₀.Orderly source → target.span.Marks source := fun source horderly => by
    rw [← Expr.span_outline]
    exact hc.marks horderly
  unfold parseBehind
  split
  · refine .take (hc.token (by simp)) (Cursor.takes_ident _) fun _ c₁ _ _ _ hc₁ => ?_
    refine .take hc₁ (c₁.takes_expect (by simp)) fun _ c₂ _ _ _ hc₂ => ?_
    exact .bind hc₂ (Expr.laysOut_parse c₂) fun value c₃ _ hc₃ => .node hlt hc₃ rfl
  · split
    case h_1 hop => exact .weaken _ (laysOut_parseAssign _ (hc.token (ne_eof_of_assignment? hop)))
    case h_2 => exact .node hlt hc.of_node rfl
    case h_3 => exact .of_error hmarks
  · split
    · exact .node hlt hc.of_node rfl
    · exact .of_error hmarks

theorem laysOut_parseSimple (c : Cursor) :
    LaysOut (fun s => [s.outline]) c (parseSimple c) := by
  refine .bind (.refl c) (Expr.laysOut_parse c) fun target c₁ h₁ hc₁ => ?_
  exact .weaken _ (laysOut_parseBehind target c₁ hc₁ h₁)

mutual

theorem laysOut_parseBlock (c : Cursor) : LaysOut outlineBody c (parseBlock c) := by
  rw [parseBlock]
  refine .take (.refl c) (c.takes_expect (by simp)) fun _ c₁ _ _ _ hc₁ => ?_
  exact .bind hc₁ (laysOut_parseBody c₁) fun body c₂ _ hc₂ => .of_ok hc₂
termination_by (c.size, 1)

theorem laysOut_parseBody (c : Cursor) : LaysOut outlineBody c (parseBody c) := by
  have hsize := c.size_skip_le
  rw [parseBody]
  split
  · exact .take (Lays.refl c).skip (Cursor.takes_expect _ (by simp))
      fun _ c₁ _ _ _ hc₁ => .of_ok hc₁
  · refine .bind (Lays.refl c).skip (laysOut_parse c.skip) fun s c₁ _ hc₁ => ?_
    exact .bind hc₁ (laysOut_parseBody c₁) fun body c₂ _ hc₂ => .of_ok hc₂
termination_by (c.size, 3)
decreasing_by all_goals grind

theorem laysOut_parse (c : Cursor) : LaysOut (fun s => [s.outline]) c (parse c) := by
  unfold parse
  split
  case h_1 | h_2 =>
    exact .weaken _ (laysOut_parseDeclare _ rfl ((Lays.refl _).token (by simp)))
  case h_3 last start rest =>
    exact .weaken _ (laysOut_parseBranch start ⟨start, rest⟩ rfl ((Lays.refl _).token (by simp)))
  case h_4 last start rest =>
    refine .bind ((Lays.refl _).token (by simp)) (Expr.laysOut_parse ⟨start, rest⟩)
      fun condition c₁ h₁ hc₁ => ?_
    exact .bind hc₁ (laysOut_parseBlock c₁) fun body c₂ _ hc₂ => .node (Nat.le_refl _) hc₂ rfl
  case h_5 last start rest =>
    refine .take ((Lays.refl _).token (by simp)) (Cursor.takes_ident ⟨start, rest⟩)
      fun _ c₁ h₁ _ _ hc₁ => ?_
    refine .take hc₁ (c₁.takes_expect (by simp)) fun _ c₂ h₂ _ _ hc₂ => ?_
    refine .bind hc₂ (Expr.laysOut_parse c₂) fun first c₃ h₃ hc₃ => ?_
    refine .take hc₃ (c₃.takes_expect (by simp)) fun _ c₄ h₄ _ _ hc₄ => ?_
    refine .bind hc₄ (Expr.laysOut_parse c₄) fun limit c₅ h₅ hc₅ => ?_
    exact .bind hc₅ (laysOut_parseBlock c₅) fun body c₆ _ hc₆ => .node (Nat.le_refl _) hc₆ rfl
  case h_6 last start rest =>
    exact .weaken _ (laysOut_parseReturn rfl ((Lays.refl _).token (by simp))
      (Cursor.length_lt_succ rest))
  case h_7 | h_8 => exact .of_ok (.leaf (by simp))
  case h_9 last start rest =>
    exact .bind (.refl _) (laysOut_parseBlock _) fun body c₁ _ hc₁ => .node (Nat.le_refl _) hc₁ rfl
  case h_10 => exact laysOut_parseSimple _
termination_by (c.size, 2)
decreasing_by all_goals grind [Cursor.size_mk]

theorem laysOut_parseBranch {c₀ : Cursor} (start : Span) (c : Cursor) (hstart : start = c₀.span)
    (hc : c₀.Lays [] c) : LaysOut (fun s => [s.outline]) c₀ (parseBranch start c) := by
  subst hstart
  rw [parseBranch]
  refine .bind hc (Expr.laysOut_parse c) fun condition c₁ _ hc₁ => ?_
  refine .bind hc₁ (laysOut_parseBlock c₁) fun body c₂ _ hc₂ => ?_
  dsimp only
  split
  · exact .node hc.size_le hc₂ rfl
  case h_2 c₃ _ helse =>
    have hc₃ := hc₂.eat? helse (by simp)
    split
    case h_1 start' c₄ _ hif =>
      obtain ⟨hnext, hstart', -⟩ := Cursor.next_of_eat? hif (by simp)
      refine .bind hc₃ (laysOut_parseBranch start' c₄ hstart' ((Lays.refl c₃).next hnext))
        fun s c₅ _ hc₅ => .node hc.size_le hc₅ rfl
    · exact .bind hc₃ (laysOut_parseBlock c₃) fun otherwise c₄ _ hc₄ => .node hc.size_le hc₄ rfl
termination_by (c.size, 0)

end

end Stmt

/-! ## Declarations -/

theorem GenericParam.laysOut_parseList (c : Cursor) :
    LaysOut (·.map GenericParam.outline) c (parseList c) := by
  rw [parseList]
  refine .take (.refl c) c.takes_ident fun named c₁ h₁ hspan _ hc₁ => ?_
  obtain ⟨name, span⟩ := named
  refine .bind hc₁ (Stmt.laysOut_optionalType c₁) fun bound c₂ h₂ hc₂ => ?_
  have hg : c.Lays [GenericParam.outline ⟨name, bound, span.merge c₂.last⟩] c₂ := by
    rw [show span = c.span from hspan]
    exact hc₂.whole (by omega)
  dsimp only
  split
  case h_1 c₃ h₃ hcomma =>
    exact .bind (hg.eat? hcomma (by simp)) (laysOut_parseList c₃) fun gs c₄ _ hc₄ => .of_ok hc₄
  · exact .take hg (c₂.takes_expect (by simp)) fun _ c₃ _ _ _ hc₃ => .of_ok hc₃
termination_by c.size

theorem GenericParam.laysOut_parseOptional (c : Cursor) :
    LaysOut (·.map GenericParam.outline) c (parseOptional c) := by
  unfold parseOptional
  split
  · exact .of_ok (.refl c)
  case h_2 c₁ _ heat =>
    exact .bind ((Lays.refl c).eat? heat (by simp)) (laysOut_parseList c₁)
      fun gs c₂ _ hc₂ => .of_ok hc₂

theorem Param.laysOut_parse (c : Cursor) : LaysOut (fun p => [p.outline]) c (parse c) := by
  refine .take (.refl c) c.takes_ident fun named c₁ h₁ hspan _ hc₁ => ?_
  obtain ⟨name, span⟩ := named
  refine .take hc₁ (c₁.takes_expect (by simp)) fun _ c₂ h₂ _ _ hc₂ => ?_
  refine .bind hc₂ (TypeExpr.laysOut_parse c₂) fun ty c₃ h₃ hc₃ => .of_ok ?_
  show c.Lays [.node (span.merge ty.span) [ty.outline]] c₃
  rw [show span = c.span from hspan]
  exact hc₃.toPart (by omega) ty.span_outline

theorem FunctionDecl.laysOut_parse {start : Span} (hstart : start = c₀.span)
    (hc : c₀.Lays [] c) : LaysOut (fun d => [d.outline]) c₀ (parse start c) := by
  subst hstart
  refine .take hc c.takes_ident fun _ c₁ _ _ _ hc₁ => ?_
  refine .bind hc₁ (GenericParam.laysOut_parseOptional c₁) fun generics c₂ _ hc₂ => ?_
  refine .bind hc₂ (Cursor.laysOut_parenthesised (·.map Param.outline) rfl (fun _ _ => rfl)
      Param.laysOut_parse c₂)
    fun params c₃ _ hc₃ => ?_
  refine .bind hc₃ (Stmt.laysOut_optionalType c₃) fun ret c₄ _ hc₄ => ?_
  exact .bind hc₄ (Stmt.laysOut_parseBlock c₄) fun body c₅ _ hc₅ => .node hc.size_le hc₅ rfl

/-- The name of an argument is no node. -/
theorem Cursor.laysOut_name (c : Cursor) :
    LaysOut (fun _ => []) c (do return (← c.ident).map (·.1) : Parse String c.size) :=
  .take (.refl c) c.takes_ident fun _ _ _ _ _ hc₁ => .of_ok hc₁

theorem EventDecl.laysOut_parse {start : Span} (hstart : start = c₀.span) (hc : c₀.Lays [] c) :
    LaysOut (fun d => [d.outline]) c₀ (parse start c) := by
  subst hstart
  refine .take hc c.takes_ident fun _ c₁ _ _ _ hc₁ => ?_
  refine .bind hc₁ (Cursor.laysOut_parenthesised (fun _ => []) rfl (fun _ _ => rfl)
      Cursor.laysOut_name c₁)
    fun args c₂ _ hc₂ => ?_
  exact .bind hc₂ (Stmt.laysOut_parseBlock c₂) fun body c₃ _ hc₃ => .node hc.size_le hc₃ rfl

theorem AliasDecl.laysOut_parse {start : Span} (hstart : start = c₀.span) (hc : c₀.Lays [] c) :
    LaysOut (fun d => [d.outline]) c₀ (parse start c) := by
  subst hstart
  have hsize := hc.size_le
  refine .take hc c.takes_ident fun _ c₁ h₁ _ _ hc₁ => ?_
  refine .take hc₁ (c₁.takes_expect (by simp)) fun _ c₂ h₂ _ _ hc₂ => ?_
  refine .bind hc₂ (TypeExpr.laysOut_parse c₂) fun ty c₃ h₃ hc₃ => .of_ok ?_
  exact hc₃.toPart (by omega) ty.span_outline

theorem Item.laysOut_parse (c : Cursor) : LaysOut (fun i => [i.outline]) c (parse c) := by
  unfold parse
  split
  · exact .bind (.refl _) (FunctionDecl.laysOut_parse rfl ((Lays.refl _).token (by simp)))
      fun decl c₁ _ hc₁ => .of_ok hc₁
  · exact .bind (.refl _) (EventDecl.laysOut_parse rfl ((Lays.refl _).token (by simp)))
      fun decl c₁ _ hc₁ => .of_ok hc₁
  · exact .bind (.refl _) (AliasDecl.laysOut_parse rfl ((Lays.refl _).token (by simp)))
      fun decl c₁ _ hc₁ => .of_ok hc₁
  · exact Cursor.laysOut_fail

/-! ## Programs -/

namespace Program

/-- Reads declarations up to the end of the text, and says where that is. -/
def parseItemsTo (c : Cursor) : Except Error (List Item × Cursor) := do
  have _ := c.size_skip_le
  if c.skip.peek = .eof then return ([], c.skip)
  let ⟨item, c₁, _⟩ ← Item.parse c.skip
  let (items, stop) ← parseItemsTo c₁
  return (item :: items, stop)
termination_by c.size

/-- It is the same reading, with the place where it ends. -/
theorem parseItems_eq (c : Cursor) : parseItems c = (·.1) <$> parseItemsTo c := by
  have hsize := c.size_skip_le
  rw [parseItems, parseItemsTo]
  split
  · rfl
  · cases hitem : Item.parse c.skip with
    | error e => rfl
    | ok p =>
      obtain ⟨item, c₁, h₁⟩ := p
      show (do return item :: (← parseItems c₁)) = _ <$> (do
        let (items, stop) ← parseItemsTo c₁
        return (item :: items, stop))
      rw [parseItems_eq c₁]
      cases parseItemsTo c₁ <;> rfl
termination_by c.size

/-- **Reading a program lays out its declarations**, up to the end of the text. -/
theorem lays_of_parseItemsTo {items : List Item} {stop : Cursor} (c : Cursor)
    (h : parseItemsTo c = .ok (items, stop)) :
    c.Lays (items.map Item.outline) stop ∧ stop.peek = .eof := by
  have hsize := c.size_skip_le
  have hskip := (Lays.refl c).skip
  rw [parseItemsTo] at h
  split at h
  case isTrue heof =>
    cases h
    exact ⟨hskip, heof⟩
  case isFalse =>
    obtain ⟨⟨item, c₁, h₁⟩, hitem, h⟩ := Except.bind_eq_ok.mp h
    obtain ⟨⟨rest, stop'⟩, hrest, h⟩ := Except.bind_eq_ok.mp h
    cases h
    obtain ⟨hlays, heof⟩ := lays_of_parseItemsTo c₁ hrest
    exact ⟨(hskip.trans ((Item.laysOut_parse c.skip).ok _ hitem)).trans hlays, heof⟩
termination_by c.size

/-- Where a program cannot be read, the error is at a place of the text. -/
theorem marks_of_parseItems {source : String} {e : Error} (c : Cursor)
    (h : parseItems c = .error e) (horderly : c.Orderly source) : e.span.Marks source := by
  have hsize := c.size_skip_le
  have hc := horderly.passes c.passes_skip
  have hread := Item.laysOut_parse c.skip
  rw [parseItems] at h
  split at h
  case isTrue => cases h
  case isFalse =>
    rcases Except.bind_eq_error.mp h with hitem | ⟨⟨item, c₁, h₁⟩, hitem, h⟩
    · exact hread.error e hitem source hc
    · rcases Except.bind_eq_error.mp h with hrest | ⟨rest, hrest, h⟩
      · exact marks_of_parseItems c₁ hrest (hc.passes (hread.ok _ hitem).1)
      · cases h
termination_by c.size

end Program

end RuleScript
