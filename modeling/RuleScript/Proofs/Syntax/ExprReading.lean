import RuleScript.Proofs.Syntax.TypeReading
import RuleScript.Syntax.ExprParser

/-!
# Expressions are read back from their tokens

As for annotations, each rule of the grammar becomes a rule about tokens. The rules that read
something and then look for more of it, indices behind an operand and operators behind a first
operand, are read from the inside out: what is known of the object of an index or of a left operand
is that reading comes down to looking for more behind it. So the operators of one level associate to
the left.

## Main definitions

* `Expr.Closes`: what follows cannot go on with an expression of a level
* `Expr.ReadsSuffixed`, `Expr.ReadsChain`, `Expr.ReadsLevel`: the tokens of an expression are read
  as what an index, an operator of a level or none may follow

## Main results

* `Expr.readsLevel_tokens`: an expression is read back from its tokens
* `Expr.ReadsLevel.opens`: the tokens that an expression can start with
-/

namespace RuleScript

open Token (enclosed separated Avoids)
open Parse (Reads)

/-- The tokens that an expression can start with. -/
def Token.opensExpr : Token → Bool
  | number _ | string _ | ident _ => true
  | keyword word => word ∈ [.true_, .false_, .typeOf]
  | symbol mark => mark ∈ [.lparen, .lbracket, .lt, .bang, .minus]
  | eof => false

namespace Cursor

variable {c : Cursor} {level : Nat} {rest : List Token}

theorem operator?_eq_none (h : ∀ s ts, c.tokens = .symbol s :: ts → ∀ op, s.operator? = some op →
    level < op.level) : c.operator? level = none := by
  unfold operator?
  split
  case h_1 last s span ls =>
    split
    case h_1 op hop => exact if_neg (Nat.ne_of_gt (h s _ rfl op hop))
    case h_2 => rfl
  case h_2 => rfl

theorem exists_operator? {op : BinOp} (h : c.tokens = .symbol op.symbol :: rest) :
    ∃ c₁ h₁, c.operator? op.level = some ⟨op, c₁, h₁⟩ ∧ c₁.tokens = rest := by
  obtain ⟨last, span, ls, rfl, hls⟩ := exists_of_tokens_cons h
  refine ⟨⟨span, ls⟩, length_lt_succ ls, ?_, hls _⟩
  simp [operator?]

end Cursor

namespace Expr

variable {c : Cursor} {e : Expr} {ts rest : List Token} {level : Nat}

/-! ## What may follow an expression -/

/-- What follows cannot go on with an expression whose operators are of the levels below `level`. A
point goes on with it unless a field is assigned. -/
structure Closes (level : Nat) (rest : List Token) : Prop where
  avoids : Avoids [.lparen, .lbracket] rest
  point : ∀ ts, rest = .symbol .dot :: ts → ∃ field ts', ts = .ident field :: .symbol .eq :: ts'
  operator : ∀ s ts, rest = .symbol s :: ts → ∀ op, s.operator? = some op → level ≤ op.level

theorem Closes.anti {level' : Nat} (h : Closes level rest) (hle : level' ≤ level) :
    Closes level' rest :=
  ⟨h.avoids, h.point, fun s ts hs op hop => Nat.le_trans hle (h.operator s ts hs op hop)⟩

/-- Most symbols end an expression. -/
theorem closes_symbol {s : Symbol} (hs : s ∉ [.lparen, .lbracket, .dot])
    (hop : s.operator? = none) : Closes level (.symbol s :: rest) := by
  simp only [List.mem_cons, List.not_mem_nil, or_false, not_or] at hs
  refine ⟨by simp [Avoids, hs], ?_, ?_⟩
  · rintro ts ⟨⟩
    exact absurd rfl hs.2.2
  · rintro _ ts ⟨⟩ op hsome
    rw [hop] at hsome
    cases hsome

/-- A field that is assigned ends the expression before it. -/
theorem closes_field (field : String) :
    Closes level (.symbol .dot :: .ident field :: .symbol .eq :: rest) := by
  refine ⟨by simp [Avoids], ?_, ?_⟩
  · rintro ts ⟨⟩
    exact ⟨field, rest, rfl⟩
  · rintro s ts ⟨⟩ op hop
    cases hop

/-- A looser operator ends an operand. -/
theorem closes_operator {op : BinOp} (h : level ≤ op.level) :
    Closes level (.symbol op.symbol :: rest) := by
  refine ⟨?_, ?_, ?_⟩
  · cases op <;> simp [Avoids, BinOp.symbol]
  · cases op <;> simp [BinOp.symbol]
  · rintro s ts ⟨⟩ op' hop
    rw [BinOp.operator?_symbol] at hop
    cases hop
    exact h

/-- No index and no call is read behind an expression that is closed. -/
theorem Closes.reads_parsePostfix (h : Closes level c.tokens) :
    Reads (· = e) c.tokens (parsePostfix e c) := by
  unfold parsePostfix
  split
  case h_1 => exact absurd rfl (h.avoids .lbracket (by simp))
  case h_2 =>
    obtain ⟨field, ts', hts⟩ := h.point _ rfl
    simp at hts
  case h_3 => exact .ok rfl rfl
  case h_4 hassigned =>
    obtain ⟨field, ts', hts⟩ := h.point _ rfl
    obtain ⟨⟨_, span⟩, ls, rfl, rfl, -⟩ := List.map_eq_cons_iff.mp (List.cons.inj hts).2
    exact (hassigned span ls rfl).elim
  case h_5 hmember =>
    obtain ⟨field, ts', hts⟩ := h.point _ rfl
    obtain ⟨⟨_, span⟩, ls, rfl, rfl, -⟩ := List.map_eq_cons_iff.mp hts
    exact (hmember field span ls rfl).elim
  case h_6 => exact .ok rfl rfl

/-- No operator is read behind an expression that is closed. -/
theorem Closes.reads_parseOperators (h : Closes (level + 1) c.tokens) :
    Reads (· = e) c.tokens (parseOperators level e c) := by
  rw [parseOperators, Cursor.operator?_eq_none h.operator]
  exact .ok rfl rfl

/-! ## Rules -/

/-- Reading the tokens comes down to reading indices and calls behind the expression. -/
def ReadsSuffixed (ts : List Token) (e : Expr) : Prop :=
  ∀ ⦃c rest⦄, c.tokens = ts ++ rest → Avoids [.lparen] rest → ∀ ⦃V rest'⦄,
    (∀ e' c', e'.bare = e.bare → c'.tokens = rest → Reads V rest' (parsePostfix e' c')) →
    Reads V rest' (parseUnary c)

/-- Reading the tokens comes down to reading operators of a level behind the expression. -/
def ReadsChain (level : Nat) (ts : List Token) (e : Expr) : Prop :=
  ∀ ⦃c rest⦄, c.tokens = ts ++ rest → Closes level rest → ∀ ⦃V rest'⦄,
    (∀ e' c', e'.bare = e.bare → c'.tokens = rest → Reads V rest' (parseOperators level e' c')) →
    Reads V rest' (parseLevels (level + 1) c)

/-- The tokens are read as an expression of the levels below `level`, if nothing follows that could
go on with one. -/
def ReadsLevel (level : Nat) (ts : List Token) (e : Expr) : Prop :=
  ∀ ⦃c rest⦄, c.tokens = ts ++ rest → Closes level rest →
    Reads (·.bare = e.bare) rest (parseLevels level c)

theorem ReadsSuffixed.readsLevel (h : ReadsSuffixed ts e) : ReadsLevel 0 ts e := by
  intro c rest hc hrest
  rw [parseLevels]
  refine h hc (hrest.avoids.mono (by simp)) fun e' c' he hc' => ?_
  subst hc'
  obtain ⟨p, hp, hvalue, hnext⟩ := hrest.reads_parsePostfix (e := e')
  exact ⟨p, hp, hvalue ▸ he, hnext⟩

theorem ReadsLevel.readsChain (h : ReadsLevel level ts e) : ReadsChain level ts e := by
  intro c rest hc hrest V rest' hV
  rw [parseLevels]
  refine .bind (h hc hrest) fun e' c₁ _ he hc₁ => ?_
  exact .weaken _ (hV e' c₁ he hc₁)

theorem ReadsChain.readsLevel (h : ReadsChain level ts e) : ReadsLevel (level + 1) ts e := by
  intro c rest hc hrest
  refine h hc (hrest.anti (Nat.le_succ _)) fun e' c' he hc' => ?_
  subst hc'
  obtain ⟨p, hp, hvalue, hnext⟩ := hrest.reads_parseOperators (e := e')
  exact ⟨p, hp, hvalue ▸ he, hnext⟩

/-- What is read as a primary expression is read with the indices and calls behind it. -/
theorem ReadsSuffixed.of_parsePrimary
    (hfirst : ∃ first ts', ts = first :: ts' ∧
      first ∉ [.symbol .bang, .keyword .typeOf, .symbol .minus])
    (h : ∀ ⦃c rest⦄, c.tokens = ts ++ rest → Avoids [.lparen] rest →
      Reads (·.bare = e.bare) rest (parsePrimary c)) : ReadsSuffixed ts e := by
  obtain ⟨first, ts', rfl, hfirst⟩ := hfirst
  intro c rest hc hrest V rest' hV
  have hread := h hc hrest
  unfold parseUnary
  split
  case h_1 | h_2 | h_3 =>
    obtain ⟨rfl, -⟩ := List.cons.inj hc
    simp at hfirst
  case h_4 =>
    refine .bind hread fun e' c₁ _ he hc₁ => ?_
    exact .weaken _ (hV e' c₁ he hc₁)

theorem ReadsLevel.enclosed (h : ReadsLevel BinOp.levels ts e) :
    ReadsSuffixed (enclosed true ts) e := by
  refine .of_parsePrimary ⟨_, _, rfl, by simp⟩ fun c rest hc _ => ?_
  rw [Token.enclosed_true, List.cons_append, List.append_assoc] at hc
  obtain ⟨last, start, ls, rfl, hls⟩ := Cursor.exists_of_tokens_cons hc
  rw [parsePrimary]
  refine .bind (h (hls start) (closes_symbol (by decide) rfl)) fun e' c₁ _ he hc₁ => ?_
  exact .bind (Cursor.reads_expect hc₁) fun _ c₂ _ _ hc₂ => .ok he hc₂

theorem readsSuffixed_number (span : Span) (x : Float) :
    ReadsSuffixed [.number x] (number span x) := by
  refine .of_parsePrimary ⟨_, _, rfl, by simp⟩ fun c rest hc _ => ?_
  obtain ⟨last, start, ls, rfl, hls⟩ := Cursor.exists_of_tokens_cons hc
  rw [parsePrimary]
  exact .ok rfl (hls start)

theorem readsSuffixed_string (span : Span) (s : String) :
    ReadsSuffixed [.string s] (string span s) := by
  refine .of_parsePrimary ⟨_, _, rfl, by simp⟩ fun c rest hc _ => ?_
  obtain ⟨last, start, ls, rfl, hls⟩ := Cursor.exists_of_tokens_cons hc
  rw [parsePrimary]
  exact .ok rfl (hls start)

theorem readsSuffixed_boolean (span : Span) (b : Bool) :
    ReadsSuffixed [.keyword (if b then .true_ else .false_)] (boolean span b) := by
  cases b
  case true | false =>
    refine .of_parsePrimary ⟨_, _, rfl, by simp⟩ fun c rest hc _ => ?_
    obtain ⟨last, start, ls, rfl, hls⟩ := Cursor.exists_of_tokens_cons hc
    exact ⟨_, parsePrimary.eq_def _, rfl, hls start⟩

theorem readsSuffixed_ident (span : Span) (name : String) :
    ReadsSuffixed [.ident name] (ident span name) := by
  refine .of_parsePrimary ⟨_, _, rfl, by simp⟩ fun c rest hc hrest => ?_
  obtain ⟨last, start, ls, rfl, hls⟩ := Cursor.exists_of_tokens_cons hc
  rw [parsePrimary]
  · exact .ok rfl (hls start)
  · rintro start' ls' rfl
    have hcall : rest.head? = some (.symbol .lparen) := congrArg List.head? (hls start).symm
    exact hrest .lparen List.mem_cons_self hcall

/-- What is read as an expression starts with one of the tokens for it. -/
theorem opens_of_reads {V : Expr → Prop} (h : Reads V rest (parseLevels level c)) :
    c.peek.opensExpr = true := by
  induction level generalizing V rest with
  | zero =>
    obtain ⟨p, hp, -⟩ := h
    rw [parseLevels] at hp
    unfold parseUnary at hp
    split at hp
    case h_1 | h_2 | h_3 => rfl
    case h_4 =>
      unfold parsePrimary at hp
      split at hp
      case h_10 => cases hp
      all_goals rfl
  | succ level ih =>
    obtain ⟨p, hp, -⟩ := h
    rw [parseLevels] at hp
    cases hleft : parseLevels level c with
    | error err =>
      rw [hleft] at hp
      cases hp
    | ok left => exact ih (V := fun _ => True) ⟨left, hleft, trivial, rfl⟩

theorem ReadsLevel.opens (h : ReadsLevel level ts e) :
    ∃ first ts', ts = first :: ts' ∧ first.opensExpr = true := by
  have hopens := opens_of_reads
    (@h ⟨.zero, (ts ++ [Token.symbol .rparen]).map (⟨·, .zero⟩)⟩ [.symbol .rparen]
      (by simp [Cursor.tokens, Function.comp_def]) (closes_symbol (by decide) rfl))
  cases ts with
  | nil => simp [Cursor.peek, Token.opensExpr] at hopens
  | cons first ts' => exact ⟨first, ts', rfl, hopens⟩

/-- Expressions with commas between them up to a closing parenthesis or bracket. -/
theorem reads_items {es : List Expr} (hes : ∀ e ∈ es, ReadsLevel BinOp.levels e.tokens e)
    {close : Symbol} (hclose : close ∈ [.rparen, .rbracket]) {n : Nat} (hn : c.size < n)
    (hc : c.tokens = separated .comma (es.map tokens) ++ .symbol close :: rest) :
    Reads (·.map bare = es.map bare) rest
      (c.listUntil n close (fun c' _ => parseLevels BinOp.levels c') hn) := by
  have hcases : close = .rparen ∨ close = .rbracket := by simpa using hclose
  refine Cursor.reads_listUntil ?_ (fun e he => ?_) (fun e he c h s rest hs hc => ?_) hn hc
  · rcases hcases with rfl | rfl <;> decide
  · obtain ⟨first, ts, hts, hopens⟩ := (hes e he).opens
    refine ⟨first, ts, hts, ?_, ?_⟩
    · rintro rfl
      rcases hcases with rfl | rfl <;> cases hopens
    · rintro rfl
      cases hopens
  · have hcloses : s ∉ [.lparen, .lbracket, .dot] ∧ s.operator? = none := by
      rcases hs with rfl | rfl
      · decide
      · rcases hcases with rfl | rfl <;> decide
    exact hes e he hc (closes_symbol hcloses.1 hcloses.2)

theorem readsSuffixed_call (span : Span) (name : String) {args : List Expr}
    (hargs : ∀ e ∈ args, ReadsLevel BinOp.levels e.tokens e) :
    ReadsSuffixed (.ident name :: .symbol .lparen :: separated .comma (args.map tokens)
      ++ [.symbol .rparen]) (call span name args) := by
  refine .of_parsePrimary ⟨_, _, rfl, by simp⟩ fun c rest hc hrest => ?_
  rw [List.append_assoc] at hc
  obtain ⟨last, start, ls, rfl, hls⟩ := Cursor.exists_of_tokens_cons hc
  obtain ⟨_, start', ls', hopen, hls'⟩ := Cursor.exists_of_tokens_cons (hls .zero)
  cases hopen
  rw [parsePrimary]
  refine .bind (reads_items hargs (by simp) _ (hls' start')) fun args' c₁ _ hargs hc₁ => ?_
  exact .ok (by simp only [bare, bareList_eq, hargs]) hc₁

theorem readsSuffixed_array (span : Span) {items : List Expr}
    (hitems : ∀ e ∈ items, ReadsLevel BinOp.levels e.tokens e) :
    ReadsSuffixed (.symbol .lbracket :: separated .comma (items.map tokens)
      ++ [.symbol .rbracket]) (array span none items) := by
  refine .of_parsePrimary ⟨_, _, rfl, by simp⟩ fun c rest hc hrest => ?_
  rw [List.append_assoc] at hc
  obtain ⟨last, start, ls, rfl, hls⟩ := Cursor.exists_of_tokens_cons hc
  rw [parsePrimary]
  refine .bind (reads_items hitems (by simp) _ (hls start)) fun items' c₁ _ hitems hc₁ => ?_
  exact .ok (by simp only [bare, bareList_eq, hitems, Option.map_none]) hc₁

theorem readsSuffixed_typedArray (span : Span) {item : TypeExpr} {items : List Expr}
    (hitem : TypeExpr.ReadsWhole item.tokens item)
    (hitems : ∀ e ∈ items, ReadsLevel BinOp.levels e.tokens e) :
    ReadsSuffixed (.symbol .lt :: item.tokens ++ .symbol .gt :: .symbol .lbracket
      :: separated .comma (items.map tokens) ++ [.symbol .rbracket])
      (array span (some item) items) := by
  refine .of_parsePrimary ⟨_, _, rfl, by simp⟩ fun c rest hc hrest => ?_
  simp only [List.append_assoc, List.cons_append, List.nil_append] at hc
  obtain ⟨last, start, ls, rfl, hls⟩ := Cursor.exists_of_tokens_cons hc
  rw [parsePrimary]
  refine .bind (hitem (hls start) (by simp [Avoids])) fun item' c₁ _ hitem hc₁ => ?_
  refine .bind (Cursor.reads_expect hc₁) fun _ c₂ _ _ hc₂ => ?_
  refine .bind (Cursor.reads_expect hc₂) fun _ c₃ _ _ hc₃ => ?_
  refine .bind (reads_items hitems (by simp) _ hc₃) fun items' c₄ _ hitems hc₄ => ?_
  exact .ok (by simp only [bare, bareList_eq, hitems, hitem, Option.map_some]) hc₄

theorem readsSuffixed_index (span : Span) {ts' : List Token} {i : Expr} (h : ReadsSuffixed ts e)
    (hi : ReadsLevel BinOp.levels ts' i) :
    ReadsSuffixed (ts ++ .symbol .lbracket :: ts' ++ [.symbol .rbracket]) (index span e i) := by
  intro c rest hc hrest V rest' hV
  simp only [List.append_assoc, List.cons_append, List.nil_append] at hc
  refine h hc (by simp [Avoids]) fun e' c' he hc' => ?_
  obtain ⟨last, start, ls, rfl, hls⟩ := Cursor.exists_of_tokens_cons hc'
  rw [parsePostfix]
  refine .bind (hi (hls start) (closes_symbol (by decide) rfl)) fun i' c₁ _ hi' hc₁ => ?_
  refine .bind (Cursor.reads_expect hc₁) fun stop c₂ _ _ hc₂ => ?_
  refine .weaken _ (hV _ c₂ ?_ hc₂)
  rw [bare, he, hi', bare]

theorem readsLevel_not (span : Span) (h : ReadsLevel 0 ts e) :
    ReadsLevel 0 (.symbol .bang :: ts) (not span e) := by
  intro c rest hc hrest
  obtain ⟨last, start, ls, rfl, hls⟩ := Cursor.exists_of_tokens_cons hc
  have hoperand := h (hls start) hrest
  rw [parseLevels] at hoperand ⊢
  rw [parseUnary]
  exact .bind hoperand fun e' c₁ _ he hc₁ => .ok (by rw [bare, he, bare]) hc₁

theorem readsLevel_typeOf (span : Span) (h : ReadsLevel 0 ts e) :
    ReadsLevel 0 (.keyword .typeOf :: ts) (typeOf span e) := by
  intro c rest hc hrest
  obtain ⟨last, start, ls, rfl, hls⟩ := Cursor.exists_of_tokens_cons hc
  have hoperand := h (hls start) hrest
  rw [parseLevels] at hoperand ⊢
  rw [parseUnary]
  exact .bind hoperand fun e' c₁ _ he hc₁ => .ok (by rw [bare, he, bare]) hc₁

/-- One more operator of a level: the left operand is what has been read so far. -/
theorem readsChain_binary (span : Span) (op : BinOp) {ts' : List Token} {right : Expr}
    (h : ReadsChain op.level ts e) (hright : ReadsLevel op.level ts' right) :
    ReadsChain op.level (ts ++ .symbol op.symbol :: ts') (binary span op e right) := by
  intro c rest hc hrest V rest' hV
  rw [List.append_assoc, List.cons_append] at hc
  refine h hc (closes_operator (Nat.le_refl _)) fun left c' hleft hc' => ?_
  obtain ⟨c₁, h₁, hop, hc₁⟩ := Cursor.exists_operator? hc'
  rw [parseOperators, hop]
  refine .bind (hright hc₁ hrest) fun right' c₂ _ hright' hc₂ => ?_
  refine .weaken _ (hV _ c₂ ?_ hc₂)
  rw [join, bare, hleft, hright', bare]

/-! ## Expressions within their limits -/

/-- The tokens are read as an expression of some looseness. -/
def ReadsWithin : Nat → List Token → Expr → Prop
  | 0 => ReadsSuffixed
  | 1 => ReadsLevel 0
  | level + 2 => ReadsChain level

theorem ReadsWithin.mono {m n : Nat} (h : ReadsWithin m ts e) (hmn : m ≤ n) :
    ReadsWithin n ts e := by
  induction hmn with
  | refl => exact h
  | @step n _ ih =>
    match n, ih with
    | 0, ih => exact ReadsSuffixed.readsLevel ih
    | 1, ih => exact ReadsLevel.readsChain ih
    | _ + 2, ih => exact (ReadsChain.readsLevel ih).readsChain

theorem ReadsWithin.readsLevel {limit : Nat} (h : ReadsWithin (limit + 1) ts e) :
    ReadsLevel limit ts e := by
  match limit, h with
  | 0, h => exact h
  | _ + 1, h => exact ReadsChain.readsLevel h

/-- Within a limit an expression is read as one of that looseness. -/
theorem reads_within (limit : Nat) (h : ReadsWithin e.looseness e.tokens e) :
    ReadsWithin limit (e.within limit) e := by
  unfold within
  by_cases hlimit : limit < e.looseness
  · rw [decide_eq_true hlimit]
    have hwhole := (h.mono (Nat.le_of_lt_succ e.looseness_lt)).readsLevel
    exact ReadsWithin.mono (m := 0) hwhole.enclosed (Nat.zero_le _)
  · rw [decide_eq_false hlimit]
    exact h.mono (Nat.le_of_not_lt hlimit)

theorem readsLevel_of_reads (h : ReadsWithin e.looseness e.tokens e) :
    ReadsLevel BinOp.levels e.tokens e :=
  (h.mono (Nat.le_of_lt_succ e.looseness_lt)).readsLevel

theorem reads_tokens (e : Expr) (h : e.paired = true) : ReadsWithin e.looseness e.tokens e := by
  match e with
  | number span x =>
    rw [tokens]
    exact readsSuffixed_number span x
  | string span s =>
    rw [tokens]
    exact readsSuffixed_string span s
  | boolean span b =>
    rw [tokens]
    exact readsSuffixed_boolean span b
  | ident span name =>
    rw [tokens]
    exact readsSuffixed_ident span name
  | array span none items =>
    rw [paired, Bool.and_eq_true] at h
    rw [tokens, tokensList_eq]
    exact readsSuffixed_array span fun e he =>
      readsLevel_of_reads (reads_tokens e (pairedList_iff.mp h.2 e he))
  | array span (some item) items =>
    rw [paired, Bool.and_eq_true] at h
    rw [tokens, tokensList_eq]
    exact readsSuffixed_typedArray span (TypeExpr.readsWhole_tokens h.1) fun e he =>
      readsLevel_of_reads (reads_tokens e (pairedList_iff.mp h.2 e he))
  | binary span op left right =>
    rw [paired, Bool.and_eq_true] at h
    rw [tokens]
    -- Operators group to the left: a right operand of the same level stands in parentheses.
    have hleft := reads_within (op.level + 2) (reads_tokens left h.1)
    have hright := reads_within (op.level + 1) (reads_tokens right h.2)
    exact readsChain_binary span op hleft hright.readsLevel
  | not span operand =>
    rw [paired] at h
    rw [tokens]
    exact readsLevel_not span (reads_within 1 (reads_tokens operand h))
  | typeOf span operand =>
    rw [paired] at h
    rw [tokens]
    exact readsLevel_typeOf span (reads_within 1 (reads_tokens operand h))
  | index span object i =>
    rw [paired, Bool.and_eq_true] at h
    rw [tokens]
    have hobject := reads_within 0 (reads_tokens object h.1)
    exact readsSuffixed_index span hobject (readsLevel_of_reads (reads_tokens i h.2))
  | call span name args =>
    rw [paired] at h
    rw [tokens, tokensList_eq]
    exact readsSuffixed_call span name fun e he =>
      readsLevel_of_reads (reads_tokens e (pairedList_iff.mp h e he))
termination_by sizeOf e

/-- **Expressions.** An expression is read back from its tokens. -/
theorem readsLevel_tokens (h : e.paired = true) : ReadsLevel BinOp.levels e.tokens e :=
  readsLevel_of_reads (reads_tokens e h)

/-- An expression is also read back where it stands in parentheses. -/
theorem readsLevel_within {limit : Nat} (h : e.paired = true) (hlimit : limit ≤ BinOp.levels + 1) :
    ReadsLevel BinOp.levels (e.within limit) e :=
  ((reads_within _ (reads_tokens e h)).mono hlimit).readsLevel

end Expr

end RuleScript
