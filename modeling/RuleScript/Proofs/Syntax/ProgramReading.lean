import RuleScript.Proofs.Syntax.ExprReading
import RuleScript.Syntax.Parser

/-!
# Programs are read back from their tokens

The tokens of a program say all that is in it but the places of its nodes: reading them gives the
program again. Statements and declarations have words of their own in front, so that their rules
need nothing but the rules of their parts; a statement ends where its semicolon stands.

## Main results

* `Stmt.reads_tokens`: a statement is read back from its tokens
* `Program.ofLexemes_tokens`: a program is read back from its tokens, wherever these stand
-/

namespace RuleScript

open Token (enclosed separated behind braced Avoids)
open Parse (Reads)

variable {c : Cursor} {rest : List Token}

theorem Cursor.tokens_skip (c : Cursor) :
    c.skip.tokens = c.tokens.dropWhile (· = .symbol .semicolon) := by
  obtain ⟨last, ls⟩ := c
  unfold skip
  fun_induction skipTerminators last ls with
  | case1 last span ls ih => exact ih
  | case2 last ls h =>
    cases ls with
    | nil => rfl
    | cons l ls =>
      obtain ⟨t, span⟩ := l
      have ht : t ≠ .symbol .semicolon := fun ht => h span ls (ht ▸ rfl)
      exact (List.dropWhile_cons_of_neg (by simpa using ht)).symm

/-- Semicolons are passed over up to a token that is none. -/
theorem Cursor.tokens_skip_of_tokens {t : Token} (ht : t ≠ .symbol .semicolon)
    (h : c.tokens = t :: rest ∨ c.tokens = .symbol .semicolon :: t :: rest) :
    c.skip.tokens = t :: rest := by
  rcases h with h | h <;> simp [tokens_skip, h, ht]

/-! ## Statements -/

namespace Stmt

/-- What stands behind a mark is read, if there is any. -/
theorem reads_optional {α β : Type} {mark : Symbol} {read : (c : Cursor) → Parse α c.size}
    {view : α → β} {write : α → List Token} {a? : Option α}
    (hread : ∀ a, a? = some a → ∀ c, c.tokens = write a ++ rest →
      Reads (view · = view a) rest (read c))
    (hrest : a? = none → Avoids [mark] rest)
    (hc : c.tokens = behind mark (a?.map write) ++ rest) :
    Reads (·.map view = a?.map view) rest (optional mark read c) := by
  unfold optional
  cases a? with
  | none =>
    have hc : c.tokens = rest := hc
    rw [Cursor.eat?_symbol_eq_none (hc ▸ hrest rfl) List.mem_cons_self]
    exact .ok rfl hc
  | some a =>
    obtain ⟨⟨_, c₁, h₁⟩, hmark, hc₁⟩ := Cursor.exists_eat? hc
    rw [hmark]
    exact .bind (hread a rfl c₁ hc₁) fun a' c₂ _ ha hc₂ => .ok (congrArg some ha) hc₂

/-- An annotation that may be missing. -/
theorem reads_optionalType {ty : Option TypeExpr} (hty : ty.all TypeExpr.paired = true)
    (hrest : Avoids [.lbracket, .colon, .pipe] rest)
    (hc : c.tokens = behind .colon (ty.map TypeExpr.tokens) ++ rest) :
    Reads (·.map TypeExpr.bare = ty.map TypeExpr.bare) rest
      (optional .colon TypeExpr.parse c) := by
  refine reads_optional ?_ (fun _ => hrest.mono (by simp)) hc
  rintro t rfl c hc
  exact TypeExpr.readsWhole_tokens hty hc hrest

/-- Whole expressions, where nothing follows that could go on with one. -/
theorem reads_expr {e : Expr} (he : e.paired = true) (hc : c.tokens = e.tokens ++ rest)
    (hrest : Expr.Closes BinOp.levels rest) : Reads (·.bare = e.bare) rest (Expr.parse c) :=
  Expr.readsLevel_tokens he hc hrest

theorem reads_parseDeclare (span start : Span) (name : String) {ty : Option TypeExpr}
    {value : Option Expr} (constant : Bool) (hty : ty.all TypeExpr.paired = true)
    (hvalue : value.all Expr.paired = true)
    (hc : c.tokens = .ident name :: behind .colon (ty.map TypeExpr.tokens)
      ++ behind .eq (value.map Expr.tokens) ++ .symbol .semicolon :: rest) :
    Reads (·.bare = (declare span name ty value constant).bare) (.symbol .semicolon :: rest)
      (parseDeclare start constant c) := by
  rw [List.append_assoc] at hc
  unfold parseDeclare
  refine .bind (Cursor.reads_ident hc) fun named c₁ _ hname hc₁ => ?_
  refine .bind (reads_optionalType hty ?_ hc₁) fun ty' c₂ _ hty' hc₂ => ?_
  · cases value <;> simp [Avoids, behind]
  have hread : Reads (·.map Expr.bare = value.map Expr.bare) (.symbol .semicolon :: rest)
      (optional .eq Expr.parse c₂) := by
    refine reads_optional ?_ (fun _ => by simp [Avoids]) hc₂
    rintro e rfl c hc
    exact reads_expr hvalue hc (Expr.closes_symbol (by decide) rfl)
  refine .bind hread fun value' c₃ _ hvalue' hc₃ => .ok ?_ hc₃
  simp only [bare, hname, hty', hvalue']

theorem exists_of_bare_ident {e : Expr} {span : Span} {name : String}
    (h : e.bare = (Expr.ident span name).bare) : ∃ span', e = .ident span' name := by
  cases e <;> simp [Expr.bare] at h
  exact ⟨_, by rw [h]⟩

theorem exists_of_bare_call {e : Expr} {span : Span} {name : String} {args : List Expr}
    (h : e.bare = (Expr.call span name args).bare) :
    ∃ span' args', e = .call span' name args' ∧ args'.map Expr.bare = args.map Expr.bare := by
  cases e <;> simp [Expr.bare, Expr.bareList_eq] at h
  exact ⟨_, _, by rw [h.1], h.2⟩

/-- A statement that starts like an expression has no word of its own. -/
theorem parse_of_opens (h : c.peek.opensExpr = true) : parse c = parseSimple c := by
  unfold parse
  split
  case h_10 => rfl
  all_goals cases h

/-- A statement that starts with an expression, with what is read behind that. -/
theorem reads_of_target {ts : List Token} {target : Expr} {V : Stmt → Prop} {rest' : List Token}
    (htarget : Expr.ReadsLevel BinOp.levels ts target) (hrest : Expr.Closes BinOp.levels rest)
    (hc : c.tokens = ts ++ rest)
    (hV : ∀ start target' c', target'.bare = target.bare → c'.tokens = rest →
      Reads V rest' (parseBehind start target' c')) :
    Reads V rest' (parse c) := by
  have hread := htarget hc hrest
  rw [parse_of_opens (Expr.opens_of_reads hread), parseSimple]
  exact .bind hread fun target' c₁ _ htarget' hc₁ => .weaken _ (hV c.span target' c₁ htarget' hc₁)

theorem reads_assign (span : Span) (name : String) {value : Expr} (hvalue : value.paired = true)
    (hc : c.tokens = .ident name :: .symbol .eq :: value.tokens ++ .symbol .semicolon :: rest) :
    Reads (·.bare = (assign span name value).bare) (.symbol .semicolon :: rest) (parse c) := by
  have htarget : Expr.ReadsLevel BinOp.levels [.ident name] (.ident .zero name) :=
    Expr.readsLevel_tokens (e := .ident .zero name) rfl
  refine reads_of_target htarget (Expr.closes_symbol (by decide) rfl) hc
    fun start target' c' hbare hc' => ?_
  obtain ⟨span', rfl⟩ := exists_of_bare_ident hbare
  obtain ⟨last, mark, ls, rfl, hls⟩ := Cursor.exists_of_tokens_cons hc'
  refine .weaken (m := ls.length) _ ?_
  refine .bind (reads_expr hvalue (hls mark) (Expr.closes_symbol (by decide) rfl))
    fun value' c₁ _ hvalue' hc₁ => .ok ?_ hc₁
  simp only [bare, assigned, hvalue']

theorem reads_assignField (span : Span) {object : Expr} (field : String) {value : Expr}
    (hobject : object.paired = true) (hvalue : value.paired = true)
    (hc : c.tokens = object.within 0 ++ .symbol .dot :: .ident field :: .symbol .eq :: value.tokens
      ++ .symbol .semicolon :: rest) :
    Reads (·.bare = (assignField span object field value).bare) (.symbol .semicolon :: rest)
      (parse c) := by
  have htarget := Expr.readsLevel_within hobject (Nat.zero_le _)
  rw [List.append_assoc] at hc
  refine reads_of_target htarget (Expr.closes_field field) hc
    fun start target' c' hbare hc' => ?_
  obtain ⟨last, mark, ls, rfl, hls⟩ := Cursor.exists_of_tokens_cons hc'
  rw [parseBehind]
  refine .bind (Cursor.reads_ident (hls mark)) fun named c₁ _ hfield hc₁ => ?_
  refine .bind (Cursor.reads_expect hc₁) fun _ c₂ _ _ hc₂ => ?_
  refine .bind (reads_expr hvalue hc₂ (Expr.closes_symbol (by decide) rfl))
    fun value' c₃ _ hvalue' hc₃ => .ok ?_ hc₃
  simp only [bare, hbare, hfield, hvalue']

theorem reads_call (span : Span) (name : String) {args : List Expr}
    (hargs : args.all Expr.paired = true)
    (hc : c.tokens = .ident name :: .symbol .lparen :: separated .comma (args.map Expr.tokens)
      ++ [.symbol .rparen] ++ .symbol .semicolon :: rest) :
    Reads (·.bare = (call span name args).bare) (.symbol .semicolon :: rest) (parse c) := by
  have hcall : (Expr.call span name args).paired = true := by
    rw [Expr.paired, Expr.pairedList_iff]
    simpa using hargs
  have htarget := Expr.readsLevel_tokens hcall
  rw [Expr.tokens, Expr.tokensList_eq] at htarget
  refine reads_of_target htarget (Expr.closes_symbol (by decide) rfl) hc
    fun start target' c' hbare hc' => ?_
  obtain ⟨span', args', rfl, hargs'⟩ := exists_of_bare_call hbare
  obtain ⟨last, mark, ls, rfl, hls⟩ := Cursor.exists_of_tokens_cons hc'
  exact ⟨_, rfl, by simp only [bare, hargs'], hc'⟩

/-! ### Bodies -/

/-- The token that a statement starts with. -/
theorem starts_tokens (s : Stmt) (h : s.paired = true) :
    ∃ first ts, s.tokens = first :: ts ∧
      first ∉ [.symbol .semicolon, .symbol .rbrace, .eof] := by
  cases s with
  | assignField span object field value =>
    rw [paired, Bool.and_eq_true] at h
    obtain ⟨first, ts, hts, hopens⟩ := (Expr.readsLevel_within h.1 (Nat.zero_le _)).opens
    rw [tokens, hts]
    refine ⟨first, _, rfl, ?_⟩
    simp only [List.mem_cons, List.not_mem_nil, or_false]
    rintro (rfl | rfl | rfl) <;> cases hopens
  | branch span condition body otherwise => cases otherwise <;> exact ⟨_, _, rfl, by simp⟩
  | ret span value => cases value <;> exact ⟨_, _, rfl, by simp⟩
  | _ => exact ⟨_, _, rfl, by simp⟩

/-- A body starts with no semicolon. -/
theorem starts_tokensBody (body : List Stmt) (h : pairedBody body = true) (rest : List Token) :
    ∃ first ts, tokensBody body ++ .symbol .rbrace :: rest = first :: ts ∧
      first ≠ .symbol .semicolon := by
  cases body with
  | nil => exact ⟨_, _, rfl, by simp⟩
  | cons s body =>
    rw [pairedBody, Bool.and_eq_true] at h
    obtain ⟨first, ts, hts, hfirst⟩ := starts_tokens s h.1
    refine ⟨first, _, by rw [tokensBody, hts]; rfl, ?_⟩
    rintro rfl
    simp at hfirst

/-- The semicolon behind a statement is passed over with those before the next. -/
theorem tokens_skip_body {body : List Stmt} (h : pairedBody body = true)
    (hc : c.tokens = tokensBody body ++ .symbol .rbrace :: rest ∨
      c.tokens = .symbol .semicolon :: (tokensBody body ++ .symbol .rbrace :: rest)) :
    c.skip.tokens = tokensBody body ++ .symbol .rbrace :: rest := by
  obtain ⟨first, ts, hts, hfirst⟩ := starts_tokensBody body h rest
  rw [hts] at hc ⊢
  exact Cursor.tokens_skip_of_tokens hfirst hc

/-- The statements between braces are read from their tokens, whatever follows. -/
def ReadsBlock (body : List Stmt) : Prop :=
  ∀ ⦃c rest⦄, c.tokens = braced (tokensBody body) ++ rest →
    Reads (bareBody · = bareBody body) rest (parseBlock c)

theorem readsBlock {body : List Stmt} (h : pairedBody body = true)
    (hbody : ∀ (rest : List Token) (c : Cursor),
      c.skip.tokens = tokensBody body ++ .symbol .rbrace :: rest →
      Reads (bareBody · = bareBody body) rest (parseBody c)) : ReadsBlock body := by
  intro c rest hc
  rw [braced, List.append_assoc] at hc
  rw [parseBlock]
  refine .bind (Cursor.reads_expect hc) fun _ c₁ _ _ hc₁ => ?_
  exact .bind (hbody rest c₁ (tokens_skip_body h (.inl hc₁))) fun _ _ _ hv hc₂ => .ok hv hc₂

/-- A branch without another way out. -/
theorem reads_branch_none (span : Span) {condition : Expr} {body : List Stmt}
    (hcondition : condition.paired = true) (hbody : ReadsBlock body)
    (hc : c.tokens = (branch span condition body none).tokens ++ .symbol .semicolon :: rest) :
    Reads (·.bare = (branch span condition body none).bare) (.symbol .semicolon :: rest)
      (parse c) := by
  rw [tokens, List.append_assoc] at hc
  obtain ⟨last, start, ls, rfl, hls⟩ := Cursor.exists_of_tokens_cons hc
  rw [parse]
  refine .weaken _ ?_
  rw [parseBranch]
  refine .bind (reads_expr hcondition (hls start) (Expr.closes_symbol (by decide) rfl))
    fun condition' c₁ _ hcondition' hc₁ => ?_
  refine .bind (hbody hc₁) fun body' c₂ _ hbody' hc₂ => ?_
  simp only [Cursor.eat?_eq_none (c := c₂) (t := .keyword .else_) (by simp [hc₂])]
  exact .ok (by simp only [bare, hcondition', hbody']) hc₂

/-- A branch with another way out: behind `else` stands a brace, so that no second `if` is read
there. -/
theorem reads_branch_some (span : Span) {condition : Expr} {body otherwise : List Stmt}
    (hcondition : condition.paired = true) (hbody : ReadsBlock body)
    (hotherwise : ReadsBlock otherwise)
    (hc : c.tokens = (branch span condition body (some otherwise)).tokens ++ rest) :
    Reads (·.bare = (branch span condition body (some otherwise)).bare) rest (parse c) := by
  simp only [tokens, List.append_assoc, List.cons_append] at hc
  obtain ⟨last, start, ls, rfl, hls⟩ := Cursor.exists_of_tokens_cons hc
  rw [parse]
  refine .weaken _ ?_
  rw [parseBranch]
  refine .bind (reads_expr hcondition (hls start) (Expr.closes_symbol (by decide) rfl))
    fun condition' c₁ _ hcondition' hc₁ => ?_
  refine .bind (hbody hc₁) fun body' c₂ _ hbody' hc₂ => ?_
  obtain ⟨⟨_, c₃, h₃⟩, helse, hc₃⟩ := Cursor.exists_eat? hc₂
  simp only [helse]
  simp only [Cursor.eat?_eq_none (c := c₃) (t := .keyword .if_) (by simp [hc₃, braced])]
  refine .bind (hotherwise hc₃) fun otherwise' c₄ _ hotherwise' hc₄ => ?_
  exact .ok (by simp only [bare, hcondition', hbody', hotherwise']) hc₄

theorem reads_parseReturn (span start : Span) {value : Expr} (hvalue : value.paired = true)
    (hc : c.tokens = value.tokens ++ .symbol .semicolon :: rest) :
    Reads (·.bare = (ret span (some value)).bare) (.symbol .semicolon :: rest)
      (parseReturn start c) := by
  have hread := reads_expr hvalue hc (Expr.closes_symbol (by decide) rfl)
  have hopens := Expr.opens_of_reads hread
  have hpeek : ¬(c.peek = .symbol .semicolon ∨ c.peek = .symbol .rbrace) := by
    rintro (h | h) <;> rw [h] at hopens <;> cases hopens
  rw [parseReturn, if_neg hpeek]
  exact .bind hread fun value' c₁ _ hvalue' hc₁ => .ok (by simp [bare, hvalue']) hc₁

mutual

/-- **Statements.** A statement is read back from its tokens, up to the semicolon behind it. -/
theorem reads_tokens (s : Stmt) (h : s.paired = true) (c : Cursor) (rest : List Token)
    (hc : c.tokens = s.tokens ++ .symbol .semicolon :: rest) :
    Reads (·.bare = s.bare) (.symbol .semicolon :: rest) (parse c) := by
  match s with
  | block span body =>
    rw [paired] at h
    rw [tokens] at hc
    have hblock := readsBlock h (reads_tokensBody body h) hc
    obtain ⟨last, start, ls, rfl, -⟩ := Cursor.exists_of_tokens_cons hc
    rw [parse]
    exact .bind hblock fun body' c₁ _ hbody hc₁ => .ok (by rw [bare, hbody, bare]) hc₁
  | declare span name ty value constant =>
    rw [paired, Bool.and_eq_true] at h
    rw [tokens] at hc
    obtain ⟨last, start, ls, rfl, hls⟩ := Cursor.exists_of_tokens_cons hc
    have hread := reads_parseDeclare span start name constant h.1 h.2 (hls start)
    cases constant with
    | false =>
      show Reads _ _ (parse ⟨last, ⟨.keyword .let_, start⟩ :: ls⟩)
      rw [parse]
      exact .weaken _ hread
    | true =>
      show Reads _ _ (parse ⟨last, ⟨.keyword .const_, start⟩ :: ls⟩)
      rw [parse]
      exact .weaken _ hread
  | assign span name value =>
    rw [paired] at h
    rw [tokens] at hc
    exact reads_assign span name h hc
  | assignField span object field value =>
    rw [paired, Bool.and_eq_true] at h
    rw [tokens] at hc
    exact reads_assignField span field h.1 h.2 hc
  | branch span condition body none =>
    rw [paired, Bool.and_eq_true] at h
    exact reads_branch_none span h.1 (readsBlock h.2 (reads_tokensBody body h.2)) hc
  | branch span condition body (some otherwise) =>
    rw [paired, Bool.and_eq_true, Bool.and_eq_true] at h
    exact reads_branch_some span h.1 (readsBlock h.2.1 (reads_tokensBody body h.2.1))
      (readsBlock h.2.2 (reads_tokensBody otherwise h.2.2)) hc
  | loop span condition body =>
    rw [paired, Bool.and_eq_true] at h
    rw [tokens, List.append_assoc] at hc
    obtain ⟨last, start, ls, rfl, hls⟩ := Cursor.exists_of_tokens_cons hc
    rw [parse]
    refine .bind (reads_expr h.1 (hls start) (Expr.closes_symbol (by decide) rfl))
      fun condition' c₁ _ hcondition hc₁ => ?_
    refine .bind (readsBlock h.2 (reads_tokensBody body h.2) hc₁) fun body' c₂ _ hbody hc₂ => ?_
    exact .ok (by simp only [bare, hcondition, hbody]) hc₂
  | count span marker first limit body =>
    rw [paired, Bool.and_eq_true, Bool.and_eq_true] at h
    rw [tokens] at hc
    simp only [List.append_assoc, List.cons_append] at hc
    obtain ⟨last, start, ls, rfl, hls⟩ := Cursor.exists_of_tokens_cons hc
    rw [parse]
    refine .bind (Cursor.reads_ident (hls start)) fun named c₁ _ hmarker hc₁ => ?_
    refine .bind (Cursor.reads_expect hc₁) fun _ c₂ _ _ hc₂ => ?_
    refine .bind (reads_expr h.1 hc₂ (Expr.closes_symbol (by decide) rfl))
      fun first' c₃ _ hfirst hc₃ => ?_
    refine .bind (Cursor.reads_expect hc₃) fun _ c₄ _ _ hc₄ => ?_
    refine .bind (reads_expr h.2.1 hc₄ (Expr.closes_symbol (by decide) rfl))
      fun limit' c₅ _ hlimit hc₅ => ?_
    refine .bind (readsBlock h.2.2 (reads_tokensBody body h.2.2) hc₅)
      fun body' c₆ _ hbody hc₆ => ?_
    exact .ok (by simp only [bare, hmarker, hfirst, hlimit, hbody]) hc₆
  -- The semicolon behind it is what shows that nothing is returned.
  | ret span none =>
    rw [tokens] at hc
    obtain ⟨last, start, ls, rfl, hls⟩ := Cursor.exists_of_tokens_cons hc
    rw [parse, parseReturn, if_pos (.inl (Cursor.peek_of_tokens (hls start)))]
    exact .ok rfl (hls start)
  | ret span (some value) =>
    rw [paired, Option.all_some] at h
    rw [tokens] at hc
    obtain ⟨last, start, ls, rfl, hls⟩ := Cursor.exists_of_tokens_cons hc
    rw [parse]
    exact .weaken _ (reads_parseReturn span start h (hls start))
  | stop span | next span =>
    rw [tokens] at hc
    obtain ⟨last, start, ls, rfl, hls⟩ := Cursor.exists_of_tokens_cons hc
    rw [parse]
    exact .ok rfl (hls start)
  | call span name args =>
    rw [paired] at h
    rw [tokens] at hc
    exact reads_call span name h hc

theorem reads_tokensBody (body : List Stmt) (h : pairedBody body = true) (rest : List Token)
    (c : Cursor) (hc : c.skip.tokens = tokensBody body ++ .symbol .rbrace :: rest) :
    Reads (bareBody · = bareBody body) rest (parseBody c) := by
  match body with
  | [] =>
    rw [parseBody, if_pos (.inl (Cursor.peek_of_tokens hc))]
    exact .bind (Cursor.reads_expect hc) fun _ c₁ _ _ hc₁ => .ok rfl hc₁
  | s :: body =>
    rw [pairedBody, Bool.and_eq_true] at h
    rw [tokensBody, List.append_assoc] at hc
    obtain ⟨first, ts, hts, hfirst⟩ := starts_tokens s h.1
    simp only [List.mem_cons, List.not_mem_nil, or_false, not_or] at hfirst
    have hpeek : c.skip.peek = first := Cursor.peek_of_tokens (by rw [hc, hts]; rfl)
    rw [parseBody, if_neg (by simp [hpeek, hfirst])]
    refine .bind (reads_tokens s h.1 c.skip _ hc) fun s' c₁ _ hs hc₁ => ?_
    refine .bind (reads_tokensBody body h.2 rest c₁ (tokens_skip_body h.2 (.inr hc₁)))
      fun body' c₂ _ hbody hc₂ => ?_
    exact .ok (by simp only [bareBody, hs, hbody]) hc₂

end

end Stmt

/-! ## Declarations -/

theorem Stmt.readsBlock_tokens {body : List Stmt} (h : pairedBody body = true) : ReadsBlock body :=
  readsBlock h (reads_tokensBody body h)

theorem GenericParam.reads_parseList {gs : List GenericParam} (hne : gs ≠ [])
    (h : ∀ g ∈ gs, g.bound.all TypeExpr.paired = true)
    (hc : c.tokens = separated .comma (gs.map tokens) ++ .symbol .gt :: rest) :
    Reads (·.map bare = gs.map bare) rest (parseList c) := by
  induction gs generalizing c with
  | nil => exact absurd rfl hne
  | cons g gs ih =>
    obtain ⟨hg, hgs⟩ := List.forall_mem_cons.mp h
    rw [parseList]
    cases gs with
    | nil =>
      rw [List.map_singleton, Token.separated_singleton, tokens] at hc
      refine .bind (Cursor.reads_ident hc) fun named c₁ _ hname hc₁ => ?_
      refine .bind (Stmt.reads_optionalType hg (by simp [Avoids]) hc₁)
        fun bound c₂ _ hbound hc₂ => ?_
      simp only [Cursor.eat?_eq_none (c := c₂) (t := .symbol .comma) (by simp [hc₂])]
      refine .bind (Cursor.reads_expect hc₂) fun _ c₃ _ _ hc₃ => .ok ?_ hc₃
      simp only [List.map_cons, List.map_nil, bare, hname, hbound]
    | cons g' gs =>
      rw [List.map_cons, List.map_cons, Token.separated_cons_cons, List.append_assoc, tokens] at hc
      refine .bind (Cursor.reads_ident hc) fun named c₁ _ hname hc₁ => ?_
      refine .bind (Stmt.reads_optionalType hg (by simp [Avoids]) hc₁)
        fun bound c₂ _ hbound hc₂ => ?_
      obtain ⟨⟨_, c₃, h₃⟩, hcomma, hc₃⟩ := Cursor.exists_eat? hc₂
      simp only [hcomma]
      refine .bind (ih (by simp) hgs hc₃) fun gs' c₄ _ hgs' hc₄ => .ok ?_ hc₄
      rw [List.map_cons, hgs', List.map_cons (l := g' :: gs)]
      simp only [bare, hname, hbound]

theorem GenericParam.reads_parseOptional {gs : List GenericParam}
    (h : ∀ g ∈ gs, g.bound.all TypeExpr.paired = true)
    (hc : c.tokens = tokensList gs ++ .symbol .lparen :: rest) :
    Reads (·.map bare = gs.map bare) (.symbol .lparen :: rest) (parseOptional c) := by
  unfold parseOptional
  cases gs with
  | nil =>
    have hc : c.tokens = .symbol .lparen :: rest := hc
    rw [Cursor.eat?_eq_none (by simp [hc])]
    exact .ok rfl hc
  | cons g gs =>
    rw [tokensList.eq_2 _ (List.cons_ne_nil g gs), List.append_assoc] at hc
    obtain ⟨⟨_, c₁, h₁⟩, hopen, hc₁⟩ := Cursor.exists_eat? hc
    rw [hopen]
    exact .weaken _ (reads_parseList (List.cons_ne_nil g gs) h hc₁)

theorem Param.reads_parse {p : Param} (h : p.ty.paired = true)
    (hrest : Avoids [.lbracket, .colon, .pipe] rest) (hc : c.tokens = p.tokens ++ rest) :
    Reads (·.bare = p.bare) rest (parse c) := by
  rw [tokens] at hc
  unfold parse
  refine .bind (Cursor.reads_ident hc) fun named c₁ _ hname hc₁ => ?_
  refine .bind (Cursor.reads_expect hc₁) fun _ c₂ _ _ hc₂ => ?_
  refine .bind (TypeExpr.readsWhole_tokens h hc₂ hrest) fun ty c₃ _ hty hc₃ => .ok ?_ hc₃
  simp only [bare, hname, hty]

/-- A list in parentheses is read if its items are, each of which starts with a name. -/
theorem Cursor.reads_parenthesised {α β : Type} {item : (c : Cursor) → Parse α c.size}
    (view : α → β) {write : α → List Token} {as : List α}
    (hstart : ∀ a ∈ as, ∃ name ts, write a = .ident name :: ts)
    (hitem : ∀ a ∈ as, ∀ c s rest, s = .comma ∨ s = .rparen →
      c.tokens = write a ++ .symbol s :: rest →
        Reads (view · = view a) (.symbol s :: rest) (item c))
    (hc : c.tokens =
      .symbol .lparen :: separated .comma (as.map write) ++ .symbol .rparen :: rest) :
    Reads (·.map view = as.map view) rest (c.parenthesised item) := by
  unfold parenthesised
  refine .bind (reads_expect hc) fun _ c₁ h₁ _ hc₁ => ?_
  refine .weaken _ (reads_listUntil (by decide) (fun a ha => ?_) ?_ h₁ hc₁)
  · obtain ⟨name, ts, hts⟩ := hstart a ha
    exact ⟨_, ts, hts, by simp, by simp⟩
  · exact fun a ha c _ s rest => hitem a ha c s rest

theorem FunctionDecl.reads_parse {d : FunctionDecl} (start : Span) (h : d.paired = true)
    (hc : .keyword .function_ :: c.tokens = d.tokens ++ rest) :
    Reads (·.bare = d.bare) rest (parse start c) := by
  simp only [paired, Bool.and_eq_true, List.all_eq_true] at h
  obtain ⟨⟨⟨hgenerics, hparams⟩, hret⟩, hbody⟩ := h
  simp only [tokens, List.append_assoc, List.cons_append, List.cons.injEq, true_and] at hc
  unfold parse
  refine .bind (Cursor.reads_ident hc) fun named c₁ _ hname hc₁ => ?_
  refine .bind (GenericParam.reads_parseOptional hgenerics hc₁) fun gs c₂ _ hgs hc₂ => ?_
  refine .bind (Cursor.reads_parenthesised Param.bare (fun p _ => ⟨_, _, rfl⟩) ?_ hc₂)
    fun ps c₃ _ hps hc₃ => ?_
  · rintro p hp c s rest (rfl | rfl) hc <;>
      exact Param.reads_parse (hparams p hp) (by simp [Avoids]) hc
  refine .bind (Stmt.reads_optionalType hret (by simp [Avoids, braced]) hc₃)
    fun ret c₄ _ hret' hc₄ => ?_
  refine .bind (Stmt.readsBlock_tokens hbody hc₄) fun body c₅ _ hbody' hc₅ => .ok ?_ hc₅
  simp only [bare, hname, hgs, hps, hret', hbody']

theorem EventDecl.reads_parse {d : EventDecl} (start : Span) (h : Stmt.pairedBody d.body = true)
    (hc : .keyword .event_ :: c.tokens = d.tokens ++ rest) :
    Reads (·.bare = d.bare) rest (parse start c) := by
  simp only [tokens, List.append_assoc, List.cons_append, List.cons.injEq, true_and] at hc
  unfold parse
  refine .bind (Cursor.reads_ident hc) fun named c₁ _ hname hc₁ => ?_
  refine .bind (Cursor.reads_parenthesised id (fun _ _ => ⟨_, _, rfl⟩) ?_ hc₁)
    fun args c₂ _ hargs hc₂ => ?_
  · intro name _ c s rest _ hc
    exact .bind (Cursor.reads_ident hc) fun _ _ _ hname hc₁ => .ok hname hc₁
  refine .bind (Stmt.readsBlock_tokens h hc₂) fun body c₃ _ hbody hc₃ => .ok ?_ hc₃
  rw [List.map_id, List.map_id] at hargs
  simp only [bare, hname, hargs, hbody]

theorem AliasDecl.reads_parse {d : AliasDecl} (start : Span) (h : d.ty.paired = true)
    (hrest : Avoids [.lbracket, .colon, .pipe] rest)
    (hc : .keyword .type_ :: c.tokens = d.tokens ++ rest) :
    Reads (·.bare = d.bare) rest (parse start c) := by
  simp only [tokens, List.cons_append, List.cons.injEq, true_and] at hc
  unfold parse
  refine .bind (Cursor.reads_ident hc) fun named c₁ _ hname hc₁ => ?_
  refine .bind (Cursor.reads_expect hc₁) fun _ c₂ _ _ hc₂ => ?_
  refine .bind (TypeExpr.readsWhole_tokens h hc₂ hrest) fun ty c₃ _ hty hc₃ => .ok ?_ hc₃
  simp only [bare, hname, hty]

/-- The word that a declaration starts with. -/
theorem Item.starts_tokens (i : Item) :
    ∃ word ts, i.tokens = .keyword word :: ts := by
  cases i <;> exact ⟨_, _, rfl⟩

theorem Item.reads_parse (i : Item) (h : i.paired = true)
    (hrest : Avoids [.lbracket, .colon, .pipe] rest) (hc : c.tokens = i.tokens ++ rest) :
    Reads (·.bare = i.bare) rest (parse c) := by
  cases i with
  | function d =>
    obtain ⟨last, start, ls, rfl, hls⟩ := Cursor.exists_of_tokens_cons hc
    refine .bind (FunctionDecl.reads_parse start (c := ⟨start, ls⟩) h hc) fun d' c₁ _ hd hc₁ => ?_
    exact .ok (congrArg function hd) hc₁
  | event d =>
    obtain ⟨last, start, ls, rfl, hls⟩ := Cursor.exists_of_tokens_cons hc
    refine .bind (EventDecl.reads_parse start (c := ⟨start, ls⟩) h hc) fun d' c₁ _ hd hc₁ => ?_
    exact .ok (congrArg event hd) hc₁
  | typeAlias d =>
    obtain ⟨last, start, ls, rfl, hls⟩ := Cursor.exists_of_tokens_cons hc
    refine .bind (AliasDecl.reads_parse start (c := ⟨start, ls⟩) h hrest hc)
      fun d' c₁ _ hd hc₁ => ?_
    exact .ok (congrArg typeAlias hd) hc₁

/-! ## Programs -/

namespace Program

/-- Some declarations start with a word, and so does what follows them. -/
theorem starts_items (items : List Item) :
    ∃ first ts, items.flatMap Item.tokens ++ [.eof] = first :: ts ∧ ∀ s, first ≠ .symbol s := by
  cases items with
  | nil => exact ⟨_, _, rfl, by simp⟩
  | cons i items =>
    obtain ⟨word, ts, hts⟩ := i.starts_tokens
    exact ⟨_, _, by rw [List.flatMap_cons, hts]; rfl, by simp⟩

theorem tokens_skip_items {items : List Item}
    (hc : c.tokens = items.flatMap Item.tokens ++ [.eof]) :
    c.skip.tokens = items.flatMap Item.tokens ++ [.eof] := by
  obtain ⟨first, ts, hts, hfirst⟩ := starts_items items
  rw [hts] at hc ⊢
  exact Cursor.tokens_skip_of_tokens (hfirst _) (.inl hc)

theorem parseItems_tokens {items : List Item} (h : ∀ i ∈ items, i.paired = true)
    (hc : c.tokens = items.flatMap Item.tokens ++ [.eof]) :
    ∃ items', parseItems c = .ok items' ∧ items'.map Item.bare = items.map Item.bare := by
  induction items generalizing c with
  | nil =>
    refine ⟨[], ?_, rfl⟩
    rw [parseItems, if_pos (Cursor.peek_of_tokens (tokens_skip_items hc))]
    rfl
  | cons i items ih =>
    obtain ⟨hi, hitems⟩ := List.forall_mem_cons.mp h
    have hskip := tokens_skip_items hc
    rw [List.flatMap_cons, List.append_assoc] at hskip
    obtain ⟨word, ts, hts⟩ := i.starts_tokens
    have hpeek : c.skip.peek = .keyword word := Cursor.peek_of_tokens (by rw [hskip, hts]; rfl)
    have hrest : Avoids [.lbracket, .colon, .pipe] (items.flatMap Item.tokens ++ [.eof]) := by
      obtain ⟨first, ts, hts, hfirst⟩ := starts_items items
      intro s _
      simpa [hts] using hfirst s
    obtain ⟨⟨i', c₁, h₁⟩, hparse, hbare, hc₁⟩ := Item.reads_parse i hi hrest hskip
    obtain ⟨items', hparseItems, hbareItems⟩ := ih hitems hc₁
    refine ⟨i' :: items', ?_, by rw [List.map_cons, hbare, hbareItems, List.map_cons]⟩
    rw [parseItems, if_neg (by simp [hpeek]), hparse]
    change (parseItems c₁ >>= fun is => pure (i' :: is)) = _
    rw [hparseItems]
    rfl

/-- **Every program can be written and read back.** The tokens of a program, wherever they stand in
a text, are read as that program but for its places. -/
theorem ofLexemes_tokens (p : Program) (hp : p.paired = true) (lexemes : List Lexeme)
    (h : lexemes.map Lexeme.token = p.tokens ++ [.eof]) :
    ∃ q, ofLexemes lexemes = .ok q ∧ q.bare = p.bare := by
  obtain ⟨items, hparse, hbare⟩ :=
    parseItems_tokens (c := .start lexemes) (List.all_eq_true.mp hp) h
  refine ⟨⟨items⟩, ?_, congrArg Program.mk hbare⟩
  rw [ofLexemes, hparse]
  rfl

/-- A program in which parentheses decide how the types and the operands are read. -/
def nested : Program :=
  let name (s : String) : TypeExpr := .named .zero s
  let var (s : String) : Expr := .ident .zero s
  let test : TypeExpr := .function .zero [name "T"] (some (name "boolean"))
  ⟨[.typeAlias ⟨"Many", .union .zero [test, .array .zero (.variadic .zero (name "Many"))], .zero⟩,
    .function ⟨"pick",
      [⟨"T", some (.union .zero [name "A", .union .zero [test, name "B"]]), .zero⟩],
      [⟨"x", .variadic .zero test, .zero⟩, ⟨"y", .array .zero test, .zero⟩], some (name "T"),
      [.branch .zero (.not .zero (.join .and (var "x") (var "y")))
        [.ret .zero none]
        (some [.branch .zero (var "y") [] (some [.stop .zero])]),
       .assignField .zero (.join .sub (var "x") (.join .sub (var "y") (var "z"))) "f"
        (.join .mul (.join .add (var "x") (var "y")) (var "z")),
       .ret .zero (some (.index .zero (.array .zero (some test) [var "x"]) (var "y")))], .zero⟩,
    .event ⟨"start", ["a", "b"],
      [.count .zero "i" (var "a") (.join .or (var "a") (var "b"))
        [.declare .zero "c" none (some (.typeOf .zero (.typeOf .zero (var "i")))) true,
         .call .zero "pick" [.join .lt (.join .lt (var "a") (var "b")) (var "c")]]], .zero⟩]⟩

theorem ofLexemes_tokens_nested :
    nested.paired = true ∧
      ∃ q, ofLexemes ((nested.tokens ++ [Token.eof]).map (⟨·, .zero⟩)) = .ok q ∧
        q.bare = nested.bare :=
  ⟨by decide, ofLexemes_tokens nested (by decide) _ (by simp [Function.comp_def])⟩

end Program

end RuleScript
