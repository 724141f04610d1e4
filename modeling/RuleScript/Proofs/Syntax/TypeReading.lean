import RuleScript.Proofs.Syntax.Writing
import RuleScript.Syntax.TypeParser

/-!
# Annotations are read back from their tokens

Each rule of the grammar is given as a rule about tokens: if the parts of a phrase are read from
their tokens, then the phrase is read from its own. A rule holds whatever follows the phrase, as
long as that could not go on with it: a bracket would make an array of the phrase, a colon a return
type and a bar a union.

An array is read from the inside out, so what is known of its item is not that the item is read, but
that reading comes down to reading the brackets behind the item.

## Main definitions

* `Parse.Reads`: something is read, and some tokens are left
* `TypeExpr.ReadsStem`, `TypeExpr.ReadsAtom`, `TypeExpr.ReadsWhole`: the tokens of an annotation are
  read as what a bracket, a bar or nothing may follow

## Main results

* `TypeExpr.readsWhole_tokens`: an annotation is read back from its tokens
-/

namespace RuleScript

open Token (enclosed separated behind)

/-! ## Reading from tokens -/

/-- The tokens in front of a cursor. -/
def Cursor.tokens (c : Cursor) : List Token := c.rest.map Lexeme.token

/-- None of some symbols is the first token. -/
def Token.Avoids (marks : List Symbol) (ts : List Token) : Prop :=
  ∀ s ∈ marks, ts.head? ≠ some (.symbol s)

open Token (Avoids)

theorem Token.Avoids.mono {marks marks' : List Symbol} {ts : List Token} (h : Avoids marks ts)
    (hsub : marks' ⊆ marks) : Avoids marks' ts :=
  fun s hs => h s (hsub hs)

namespace Parse

variable {α β : Type} {m n : Nat} {V : α → Prop} {W : β → Prop} {rest rest' : List Token}

/-- Something with a property is read, and some tokens are left. -/
def Reads (V : α → Prop) (rest : List Token) (r : Parse α n) : Prop :=
  ∃ p, r = .ok p ∧ V p.value ∧ p.next.tokens = rest

theorem Reads.ok {p : Parsed α n} (hv : V p.value) (hc : p.next.tokens = rest) :
    Reads V rest (.ok p) :=
  ⟨p, rfl, hv, hc⟩

/-- One rule after another. -/
theorem Reads.bind {x : Parse α m} {f : Parsed α m → Parse β n} (hx : Reads V rest x)
    (hf : ∀ a c h, V a → c.tokens = rest → Reads W rest' (f ⟨a, c, h⟩)) :
    Reads W rest' (x >>= f) := by
  obtain ⟨⟨a, c, h⟩, rfl, ha, hc⟩ := hx
  exact hf a c h ha hc

/-- The same, read from further back. -/
theorem Reads.weaken {x : Parse α m} (h : m ≤ n) (hx : Reads V rest x) :
    Reads V rest (do return (← x).weaken h) :=
  .bind hx fun _ _ _ hv hc => .ok hv hc

end Parse

open Parse (Reads)

namespace Cursor

variable {c : Cursor} {t : Token} {rest : List Token}

theorem exists_of_tokens_cons (h : c.tokens = t :: rest) :
    ∃ last span ls, c = ⟨last, ⟨t, span⟩ :: ls⟩ ∧ ∀ last', (Cursor.mk last' ls).tokens = rest := by
  obtain ⟨last, ls⟩ := c
  obtain ⟨⟨t, span⟩, ls, rfl, rfl, hrest⟩ := List.map_eq_cons_iff.mp h
  exact ⟨last, span, ls, rfl, fun _ => hrest⟩

theorem peek_of_tokens (h : c.tokens = t :: rest) : c.peek = t := by
  obtain ⟨last, span, ls, rfl, -⟩ := exists_of_tokens_cons h
  rfl

theorem exists_eat? (h : c.tokens = t :: rest) :
    ∃ p, c.eat? t = some p ∧ p.next.tokens = rest := by
  obtain ⟨last, span, ls, rfl, hls⟩ := exists_of_tokens_cons h
  exact ⟨_, if_pos rfl, hls _⟩

theorem eat?_eq_none (h : c.tokens.head? ≠ some t) : c.eat? t = none := by
  obtain ⟨last, _ | ⟨l, ls⟩⟩ := c
  · rfl
  · exact if_neg fun hl => h (congrArg some hl)

theorem eat?_symbol_eq_none {marks : List Symbol} {s : Symbol} (h : Avoids marks c.tokens)
    (hs : s ∈ marks) : c.eat? (.symbol s) = none :=
  eat?_eq_none (h s hs)

theorem reads_expect (h : c.tokens = t :: rest) :
    Reads (fun _ => True) rest (c.expect t) := by
  obtain ⟨p, hp, hnext⟩ := exists_eat? h
  exact ⟨p, by rw [expect, hp], trivial, hnext⟩

theorem reads_ident {name : String} (h : c.tokens = .ident name :: rest) :
    Reads (·.1 = name) rest c.ident := by
  obtain ⟨last, span, ls, rfl, hls⟩ := exists_of_tokens_cons h
  exact ⟨_, rfl, rfl, hls _⟩

/-- A list is read if its items are, each of which starts with another token than the closing
one. -/
theorem reads_listUntil {ι α β : Type} {n : Nat} {close : Symbol}
    {item : (c : Cursor) → c.size < n → Parse α c.size} {view : α → β} {write : ι → List Token}
    {value : ι → β} {is : List ι} (hclose : close ≠ .comma)
    (hstart : ∀ i ∈ is, ∃ t ts, write i = t :: ts ∧ t ≠ .symbol close ∧ t ≠ .eof)
    (hitem : ∀ i ∈ is, ∀ c h s rest, s = .comma ∨ s = close →
      c.tokens = write i ++ .symbol s :: rest →
        Reads (view · = value i) (.symbol s :: rest) (item c h))
    (hn : c.size < n) (h : c.tokens = separated .comma (is.map write) ++ .symbol close :: rest) :
    Reads (·.map view = is.map value) rest (c.listUntil n close item hn) := by
  induction is generalizing c with
  | nil =>
    rw [listUntil, if_pos (.inl (peek_of_tokens h))]
    exact .bind (reads_expect h) fun _ c₁ _ _ hc₁ => .ok rfl hc₁
  | cons i is ih =>
    obtain ⟨⟨t, ts, hwrite, ht, heof⟩, hstart⟩ := List.forall_mem_cons.mp hstart
    obtain ⟨hfirst, hitem⟩ := List.forall_mem_cons.mp hitem
    have hpeek : c.peek = t := by
      rw [List.map_cons, separated, hwrite] at h
      exact peek_of_tokens h
    rw [listUntil, if_neg (by simp [hpeek, ht, heof])]
    cases is with
    | nil =>
      rw [List.map_singleton, Token.separated_singleton] at h
      refine .bind (hfirst c hn close rest (.inr rfl) h) fun a c₁ _ ha hc₁ => ?_
      have hcomma : c₁.eat? (.symbol .comma) = none :=
        eat?_eq_none (by simpa [hc₁] using hclose)
      simp only [hcomma]
      exact .bind (reads_expect hc₁) fun _ c₂ _ _ hc₂ => .ok (by simp [ha]) hc₂
    | cons j is =>
      rw [List.map_cons, List.map_cons, Token.separated_cons_cons, List.append_assoc,
        List.cons_append] at h
      refine .bind (hfirst c hn .comma _ (.inl rfl) h) fun a c₁ h₁ ha hc₁ => ?_
      obtain ⟨⟨_, c₂, h₂⟩, hcomma, hc₂⟩ := exists_eat? hc₁
      simp only [hcomma]
      refine .bind (ih hstart hitem (by omega) hc₂) fun as c₃ _ has hc₃ => ?_
      exact .ok (by simp [ha, has]) hc₃

end Cursor

/-! ## The rules of annotations -/

namespace TypeExpr

variable {c : Cursor} {t u : TypeExpr} {ts us rest : List Token} {marks : List Symbol}

theorem brackets_of_avoids (t : TypeExpr) {last : Span} {ls : List Lexeme}
    (h : Avoids [.lbracket] (Cursor.mk last ls).tokens) :
    (brackets t last ls).value = t ∧ (brackets t last ls).next = ⟨last, ls⟩ := by
  unfold brackets
  split
  · exact absurd rfl (h .lbracket List.mem_cons_self)
  · exact ⟨rfl, rfl⟩

/-- Reading the tokens comes down to reading brackets behind the annotation. -/
def ReadsStem (ts : List Token) (t : TypeExpr) : Prop :=
  ∀ ⦃c rest⦄, c.tokens = ts ++ rest → Avoids [.colon] rest → ∀ ⦃V rest'⦄,
    (∀ u last ls, u.bare = t.bare → (Cursor.mk last ls).tokens = rest →
      V (brackets u last ls).value ∧ (brackets u last ls).next.tokens = rest') →
    Reads V rest' (parseAtom c)

/-- The tokens are read as an annotation, if no bracket, colon or other given mark follows. -/
def ReadsAtom (marks : List Symbol) (ts : List Token) (t : TypeExpr) : Prop :=
  ∀ ⦃c rest⦄, c.tokens = ts ++ rest → Avoids (.lbracket :: .colon :: marks) rest →
    Reads (·.bare = t.bare) rest (parseAtom c)

/-- The tokens are read as an annotation, if nothing follows that could go on with one. -/
def ReadsWhole (ts : List Token) (t : TypeExpr) : Prop :=
  ∀ ⦃c rest⦄, c.tokens = ts ++ rest → Avoids [.lbracket, .colon, .pipe] rest →
    Reads (·.bare = t.bare) rest (parse c)

/-- What is read as a stem is read with the brackets behind it. -/
theorem ReadsStem.of_parseStem
    (h : ∀ ⦃c rest⦄, c.tokens = ts ++ rest → Avoids [.colon] rest →
      Reads (·.bare = t.bare) rest (parseStem c)) : ReadsStem ts t := by
  intro c rest hc hrest V rest' hV
  rw [parseAtom]
  refine .bind (h hc hrest) fun u c₁ _ hu hc₁ => ?_
  obtain ⟨hvalue, hnext⟩ := hV u c₁.last c₁.rest hu hc₁
  exact .ok hvalue hnext

/-- What is read as a stem is read as an atom where no bracket follows. -/
theorem ReadsAtom.of_parseStem
    (h : ∀ ⦃c rest⦄, c.tokens = ts ++ rest → Avoids (.lbracket :: .colon :: marks) rest →
      Reads (·.bare = t.bare) rest (parseStem c)) : ReadsAtom marks ts t := by
  intro c rest hc hrest
  rw [parseAtom]
  refine .bind (h hc hrest) fun u c₁ _ hu hc₁ => ?_
  have hbrackets : Avoids [.lbracket] (Cursor.mk c₁.last c₁.rest).tokens :=
    hc₁ ▸ hrest.mono (by simp)
  obtain ⟨hvalue, hnext⟩ := brackets_of_avoids u hbrackets
  exact .ok ((congrArg bare hvalue).trans hu) ((congrArg Cursor.tokens hnext).trans hc₁)

theorem ReadsStem.atom (h : ReadsStem ts t) : ReadsAtom [] ts t := by
  intro c rest hc hrest
  refine h hc (hrest.mono (by simp)) fun u last ls hu hls => ?_
  obtain ⟨hvalue, hnext⟩ := brackets_of_avoids u (hls ▸ hrest.mono (by simp))
  exact ⟨by rw [hvalue, hu], by rw [hnext, hls]⟩

theorem ReadsAtom.mono {marks' : List Symbol} (h : ReadsAtom marks ts t) (hsub : marks ⊆ marks') :
    ReadsAtom marks' ts t := by
  intro c rest hc hrest
  refine h hc (hrest.mono ?_)
  exact List.cons_subset_cons _ (List.cons_subset_cons _ hsub)

/-- Nothing is added to a union where no bar follows. -/
theorem reads_parseMembers_nil (h : Avoids [.pipe] c.tokens) :
    Reads (· = []) c.tokens (parseMembers c) := by
  rw [parseMembers, Cursor.eat?_symbol_eq_none h List.mem_cons_self]
  exact .ok rfl rfl

/-- An annotation that is no union. -/
theorem ReadsAtom.whole (h : ReadsAtom [.pipe] ts t) : ReadsWhole ts t := by
  intro c rest hc hrest
  rw [parse]
  refine .bind (h hc hrest) fun u c₁ _ hu hc₁ => ?_
  subst hc₁
  refine .bind (reads_parseMembers_nil (hrest.mono (by simp))) fun others c₂ _ hothers hc₂ => ?_
  exact .ok (by rw [hothers, ofMembers, hu]) hc₂

/-- Parentheses hold together whatever stands in them. -/
theorem ReadsWhole.enclosed (h : ReadsWhole ts t) : ReadsStem (enclosed true ts) t := by
  refine .of_parseStem fun c rest hc _ => ?_
  rw [Token.enclosed_true, List.cons_append, List.append_assoc] at hc
  obtain ⟨last, span, ls, rfl, hls⟩ := Cursor.exists_of_tokens_cons hc
  rw [parseStem]
  refine .bind (h (hls span) (by simp [Avoids])) fun u c₁ _ hu hc₁ => ?_
  exact .bind (Cursor.reads_expect hc₁) fun _ c₂ _ _ hc₂ => .ok hu hc₂

theorem readsStem_named (span : Span) (name : String) :
    ReadsStem [.ident name] (named span name) := by
  refine .of_parseStem fun c rest hc _ => ?_
  obtain ⟨last, span', ls, rfl, hls⟩ := Cursor.exists_of_tokens_cons hc
  rw [parseStem]
  exact .ok rfl (hls _)

theorem readsStem_array (span : Span) (h : ReadsStem ts t) :
    ReadsStem (ts ++ [.symbol .lbracket, .symbol .rbracket]) (array span t) := by
  intro c rest hc hrest V rest' hV
  rw [List.append_assoc] at hc
  refine h hc (by simp [Avoids]) fun u last ls hu hls => ?_
  obtain ⟨_, _, ls₁, hopen, hls₁⟩ := Cursor.exists_of_tokens_cons hls
  obtain ⟨_, stop, ls₂, hclose, hls₂⟩ := Cursor.exists_of_tokens_cons (hls₁ .zero)
  cases hopen
  cases hclose
  rw [brackets]
  exact hV _ stop ls₂ (by rw [bare, hu, bare]) (hls₂ stop)

theorem readsAtom_variadic (span : Span) (h : ReadsAtom marks ts t) :
    ReadsAtom marks (.symbol .ellipsis :: ts) (variadic span t) := by
  refine .of_parseStem fun c rest hc hrest => ?_
  obtain ⟨last, start, ls, rfl, hls⟩ := Cursor.exists_of_tokens_cons hc
  rw [parseStem]
  exact .bind (h (hls start) hrest) fun u c₁ _ hu hc₁ => .ok (by rw [bare, hu, bare]) hc₁

/-- No annotation starts with the end of a list or of the text. -/
theorem ReadsWhole.starts (h : ReadsWhole ts t) :
    ∃ first ts', ts = first :: ts' ∧ first ≠ .symbol .rparen ∧ first ≠ .eof := by
  cases ts with
  | nil =>
    obtain ⟨p, hp, -⟩ := @h ⟨.zero, [⟨.eof, .zero⟩]⟩ [.eof] rfl (by simp [Avoids])
    rw [parse, parseAtom, parseStem.eq_def] at hp
    cases hp
  | cons first ts' =>
    refine ⟨first, ts', rfl, ?_⟩
    obtain ⟨p, hp, -⟩ := @h ⟨.zero, (first :: ts').map (⟨·, .zero⟩)⟩ []
      (by simp [Cursor.tokens, Function.comp_def]) (by simp [Avoids])
    rw [parse, parseAtom, parseStem.eq_def] at hp
    constructor <;> rintro rfl <;> cases hp

section Functions

variable {ι : Type} {write : ι → List Token} {view : ι → TypeExpr} {params : List ι}

/-- Annotations with commas between them up to a closing parenthesis. -/
theorem reads_params (hparams : ∀ p ∈ params, ReadsWhole (write p) (view p)) {n : Nat}
    (hn : c.size < n)
    (hc : c.tokens = separated .comma (params.map write) ++ .symbol .rparen :: rest) :
    Reads (·.map bare = (params.map view).map bare) rest
      (c.listUntil n .rparen (fun c' _ => parse c') hn) := by
  rw [List.map_map]
  refine Cursor.reads_listUntil (by decide) (fun p hp => (hparams p hp).starts) ?_ hn hc
  rintro p hp c h s rest (rfl | rfl) hc <;> exact hparams p hp hc (by simp [Avoids])

theorem readsStem_function (span : Span) (hparams : ∀ p ∈ params, ReadsWhole (write p) (view p)) :
    ReadsStem (.keyword .fn_ :: .symbol .lparen :: separated .comma (params.map write)
      ++ [.symbol .rparen]) (function span (params.map view) none) := by
  refine .of_parseStem fun c rest hc hrest => ?_
  rw [List.append_assoc, List.singleton_append] at hc
  obtain ⟨last, start, ls, rfl, hls⟩ := Cursor.exists_of_tokens_cons hc
  rw [parseStem]
  refine .bind (Cursor.reads_expect (hls start)) fun _ c₁ h₁ _ hc₁ => ?_
  refine .bind (reads_params hparams h₁ hc₁) fun ps c₂ h₂ hps hc₂ => ?_
  simp only [Cursor.eat?_symbol_eq_none (hc₂ ▸ hrest) List.mem_cons_self]
  exact .ok (by simp only [bare, bareList_eq, hps, bareOption]) hc₂

theorem readsAtom_function (span : Span) (hparams : ∀ p ∈ params, ReadsWhole (write p) (view p))
    (hret : ReadsWhole ts t) :
    ReadsAtom [.pipe] (.keyword .fn_ :: .symbol .lparen :: separated .comma (params.map write)
      ++ .symbol .rparen :: .symbol .colon :: ts) (function span (params.map view) (some t)) := by
  refine .of_parseStem fun c rest hc hrest => ?_
  rw [List.append_assoc] at hc
  obtain ⟨last, start, ls, rfl, hls⟩ := Cursor.exists_of_tokens_cons hc
  rw [parseStem]
  refine .bind (Cursor.reads_expect (hls start)) fun _ c₁ h₁ _ hc₁ => ?_
  refine .bind (reads_params hparams h₁ hc₁) fun ps c₂ h₂ hps hc₂ => ?_
  obtain ⟨⟨_, c₃, h₃⟩, hcolon, hc₃⟩ := Cursor.exists_eat? hc₂
  simp only [hcolon]
  refine .bind (hret hc₃ hrest) fun ret c₄ h₄ hret hc₄ => ?_
  exact .ok (by simp only [bare, bareList_eq, hps, bareOption, hret]) hc₄

end Functions

/-- The tokens of the members of a union: only the last may end in a return type, which would take a
bar behind it for its own. -/
inductive ReadsMembers : List (List Token) → List TypeExpr → Prop
  | last (ts : List Token) (t : TypeExpr) : ReadsAtom [.pipe] ts t → ReadsMembers [ts] [t]
  | cons (ts : List Token) (t : TypeExpr) (tss : List (List Token)) (members : List TypeExpr) :
    ReadsAtom [] ts t → ReadsMembers tss members → ReadsMembers (ts :: tss) (t :: members)

namespace ReadsMembers

variable {tss : List (List Token)} {members : List TypeExpr}

/-- What follows a member is a bar. -/
theorem avoids (h : ReadsMembers tss members) :
    Avoids [.lbracket, .colon] (tss.flatMap (.symbol .pipe :: ·) ++ rest) := by
  cases h <;> simp [Avoids]

theorem reads (h : ReadsMembers tss members)
    (hc : c.tokens = tss.flatMap (.symbol .pipe :: ·) ++ rest)
    (hrest : Avoids [.lbracket, .colon, .pipe] rest) :
    Reads (·.map bare = members.map bare) rest (parseMembers c) := by
  induction h generalizing c with
  | last ts t hlast =>
    rw [List.flatMap_singleton] at hc
    obtain ⟨⟨_, c₁, h₁⟩, hbar, hc₁⟩ := Cursor.exists_eat? hc
    rw [parseMembers, hbar]
    refine .bind (hlast hc₁ hrest) fun u c₂ h₂ hu hc₂ => ?_
    subst hc₂
    refine .bind (reads_parseMembers_nil (hrest.mono (by simp))) fun others c₃ _ hothers hc₃ => ?_
    exact .ok (by simp [hu, hothers]) hc₃
  | cons ts t tss members hfirst hothers ih =>
    rw [List.flatMap_cons, List.append_assoc] at hc
    obtain ⟨⟨_, c₁, h₁⟩, hbar, hc₁⟩ := Cursor.exists_eat? hc
    rw [parseMembers, hbar]
    refine .bind (hfirst hc₁ hothers.avoids) fun u c₂ h₂ hu hc₂ => ?_
    refine .bind (ih hc₂) fun others c₃ _ hothers hc₃ => ?_
    exact .ok (by simp [hu, hothers]) hc₃

end ReadsMembers

theorem bare_ofMembers {first : TypeExpr} {others : List TypeExpr} (h : others ≠ []) :
    (ofMembers first others).bare = union .zero (first.bare :: others.map bare) := by
  rw [ofMembers.eq_2 first others h, bare, bareList_eq, List.map_cons]

theorem readsWhole_union {tss : List (List Token)} {members : List TypeExpr} (span : Span)
    (hfirst : ReadsAtom [] ts t) (hothers : ReadsMembers tss members) :
    ReadsWhole (separated .pipe (ts :: tss)) (union span (t :: members)) := by
  intro c rest hc hrest
  rw [separated, List.append_assoc] at hc
  rw [parse]
  refine .bind (hfirst hc hothers.avoids) fun u c₁ _ hu hc₁ => ?_
  refine .bind (hothers.reads hc₁ hrest) fun others c₂ _ hbare hc₂ => .ok ?_ hc₂
  have hne : others ≠ [] := by
    rintro rfl
    cases hothers <;> cases hbare
  rw [bare_ofMembers hne, hu, hbare, bare, bareList_eq, List.map_cons]

/-! ## Annotations within their limits -/

/-- The tokens are read as an annotation of some looseness. -/
def ReadsWithin : Nat → List Token → TypeExpr → Prop
  | 0 => ReadsStem
  | 1 => ReadsAtom []
  | _ + 2 => ReadsWhole

theorem ReadsWithin.whole {n : Nat} (h : ReadsWithin n ts t) : ReadsWhole ts t := by
  match n, h with
  | 0, h => exact (h.atom.mono (by simp)).whole
  | 1, h => exact (ReadsAtom.mono h (by simp)).whole
  | _ + 2, h => exact h

theorem ReadsWithin.mono {m n : Nat} (h : ReadsWithin m ts t) (hmn : m ≤ n) :
    ReadsWithin n ts t := by
  match n with
  | 0 => exact Nat.le_zero.mp hmn ▸ h
  | 1 =>
    obtain rfl | rfl := Nat.le_one_iff_eq_zero_or_eq_one.mp hmn
    · exact ReadsStem.atom h
    · exact h
  | _ + 2 => exact h.whole

/-- Within a limit an annotation is read as one of that looseness. -/
theorem reads_within (limit : Nat) (h : ReadsWithin t.looseness t.tokens t) :
    ReadsWithin limit (t.within limit) t := by
  unfold within
  by_cases hlimit : limit < t.looseness
  · rw [decide_eq_true hlimit]
    exact ReadsWithin.mono (m := 0) h.whole.enclosed (Nat.zero_le _)
  · rw [decide_eq_false hlimit]
    exact h.mono (Nat.le_of_not_lt hlimit)

/-- Members within their limit, of which there is at least one. -/
theorem readsMembers_within {members : List TypeExpr} (hne : members ≠ [])
    (h : ∀ t ∈ members, ReadsWithin 1 (t.within 1) t) :
    ReadsMembers (members.map (within 1)) members := by
  induction members with
  | nil => exact absurd rfl hne
  | cons t ts ih =>
    obtain ⟨ht, hts⟩ := List.forall_mem_cons.mp h
    cases ts with
    | nil => exact .last _ _ (ReadsAtom.mono ht (by simp))
    | cons u us => exact .cons _ _ _ _ ht (ih (by simp) hts)

mutual

theorem reads_tokens (t : TypeExpr) (h : t.paired = true) :
    ReadsWithin t.looseness t.tokens t := by
  match t with
  | named span name =>
    rw [tokens]
    exact readsStem_named span name
  | array span item =>
    rw [paired] at h
    rw [tokens]
    exact readsStem_array span (reads_within 0 (reads_tokens item h))
  | function span params none =>
    rw [paired, Bool.and_eq_true] at h
    have hparams : ∀ p ∈ params, ReadsWhole (p.within 2) (id p) := fun p hp =>
      reads_within 2 (reads_tokens_of_mem params h.1 p hp)
    have hreads := readsStem_function span hparams
    rw [List.map_id] at hreads
    rw [tokens, tokensWithin_eq]
    exact hreads
  | function span params (some ret) =>
    rw [paired, Bool.and_eq_true] at h
    have hparams : ∀ p ∈ params, ReadsWhole (p.within 2) (id p) := fun p hp =>
      reads_within 2 (reads_tokens_of_mem params h.1 p hp)
    have hreads := readsAtom_function span hparams (reads_tokens ret h.2).whole
    rw [List.map_id] at hreads
    rw [tokens, tokensWithin_eq]
    exact hreads.whole
  | variadic span inner =>
    rw [paired] at h
    rw [tokens]
    exact readsAtom_variadic span (reads_within 1 (reads_tokens inner h))
  | union span [] => simp [paired] at h
  | union span [_] => simp [paired] at h
  | union span (first :: second :: others) =>
    rw [paired, Bool.and_eq_true] at h
    -- A member that ends in a result would take in those behind it, so it is in parentheses.
    have hmembers := fun t ht =>
      reads_within 1 (reads_tokens_of_mem (first :: second :: others) h.2 t ht)
    obtain ⟨hfirst, hothers⟩ := List.forall_mem_cons.mp hmembers
    rw [tokens, tokensWithin_eq]
    exact readsWhole_union span hfirst (readsMembers_within (by simp) hothers)

theorem reads_tokens_of_mem (ts : List TypeExpr) (h : pairedList ts = true) :
    ∀ t ∈ ts, ReadsWithin t.looseness t.tokens t := by
  match ts with
  | [] => exact List.forall_mem_nil _
  | t :: ts =>
    rw [pairedList, Bool.and_eq_true] at h
    exact List.forall_mem_cons.mpr ⟨reads_tokens t h.1, reads_tokens_of_mem ts h.2⟩

end

/-- **Annotations.** An annotation is read back from its tokens. -/
theorem readsWhole_tokens {t : TypeExpr} (h : t.paired = true) : ReadsWhole t.tokens t :=
  (reads_tokens t h).whole

end TypeExpr

end RuleScript
