import Mathlib.Logic.Relation
import RuleScript.Proofs.Syntax.Outline
import RuleScript.Syntax.Parser

/-!
# What reading passes over

Reading leads from one cursor to another. It passes over the tokens between them, none of which is
the end of the text, and it lays out the outlines of what it reads: they stand among these tokens,
one behind the other. An outline is closed around those of its parts with a span that is merged from
spans at hand: of the first token, of the last one, or of a part.

## Main definitions

* `Cursor.Passes`: some tokens are passed over, none of which is the end of the text
* `Cursor.Orderly`: the tokens mark parts of a text one behind the other
* `Cursor.Lays`: outlines stand among the tokens that are passed over
* `Parse.LaysOut`: what is read is laid out, and an error is at a place of the text

## Main results

* `Parse.LaysOut.bind`: one rule of the grammar after another
* `Cursor.Lays.whole`, `Cursor.Lays.join`, ...: closing an outline around its parts
-/

namespace RuleScript

open Outline (Row)

namespace Cursor

/-! ## Passing over tokens -/

/-- A token is passed over that is not the end of the text. -/
inductive Next : Cursor → Cursor → Prop
  | token {last : Span} {l : Lexeme} {rest : List Lexeme} : l.token ≠ .eof →
    Next ⟨last, l :: rest⟩ ⟨l.span, rest⟩

/-- Some tokens are passed over, none of which is the end of the text. -/
def Passes : Cursor → Cursor → Prop := Relation.ReflTransGen Next

variable {c c₁ c₂ : Cursor} {source : String}

theorem Next.size_eq (h : c.Next c₁) : c.size = c₁.size + 1 := by
  cases h
  rfl

theorem Passes.size_le (h : c.Passes c₁) : c₁.size ≤ c.size := by
  induction h with
  | refl => exact Nat.le_refl _
  | tail _ hnext ih =>
    rw [hnext.size_eq] at ih
    exact Nat.le_of_succ_le ih

/-- If any token is passed over, then the first one is. -/
theorem Passes.exists_next (h : c.Passes c₁) (hlt : c₁.size < c.size) :
    ∃ c', c.Next c' ∧ c'.Passes c₁ := by
  rcases h.cases_head with rfl | h
  · exact absurd hlt (Nat.lt_irrefl _)
  · exact h

/-! ## Places along the way -/

/-- The places of the token before the cursor and of those in front of it. -/
def places (c : Cursor) : List Span := c.last :: c.rest.map Lexeme.span

/-- The tokens mark parts of a text one behind the other. -/
structure Orderly (source : String) (c : Cursor) : Prop where
  marks : ∀ s ∈ c.places, s.Marks source
  ordered : c.places.Pairwise fun a b => a.stop ≤ b.start

/-- Where the next token starts. If there is none, this is where the last one ends. -/
def front (c : Cursor) : Nat :=
  match c.rest with
  | [] => c.last.stop
  | l :: _ => l.span.start

theorem Next.span_start (h : c.Next c₁) : c.span.start = c.front := by
  cases h
  rfl

theorem Orderly.next (h : c.Orderly source) (hnext : c.Next c₁) : c₁.Orderly source := by
  cases hnext
  exact ⟨fun s hs => h.marks s (List.mem_cons_of_mem _ hs), (List.pairwise_cons.mp h.ordered).2⟩

theorem Orderly.passes (h : c.Orderly source) (hpass : c.Passes c₁) : c₁.Orderly source := by
  induction hpass with
  | refl => exact h
  | tail _ hnext ih => exact ih.next hnext

theorem Orderly.marks_last (h : c.Orderly source) : c.last.Marks source :=
  h.marks _ List.mem_cons_self

theorem Orderly.marks_span (h : c.Orderly source) : c.span.Marks source := by
  obtain ⟨last, _ | ⟨l, rest⟩⟩ := c
  · exact Span.marks_zero source
  · exact h.marks _ (List.mem_cons_of_mem _ List.mem_cons_self)

theorem Orderly.stop_le_front (h : c.Orderly source) : c.last.stop ≤ c.front := by
  obtain ⟨last, _ | ⟨l, rest⟩⟩ := c
  · exact Nat.le_refl _
  · exact (List.pairwise_cons.mp h.ordered).1 _ List.mem_cons_self

/-- A token ends before the next one starts. -/
theorem Orderly.front_le_next (h : c.Orderly source) (hnext : c.Next c₁) :
    c.front ≤ c₁.last.start ∧ c.last.stop ≤ c₁.last.stop ∧ c.front ≤ c₁.front := by
  have h₁ := h.next hnext
  have hle := h.stop_le_front
  cases hnext
  have hstop := h₁.marks_last.start_le_stop
  exact ⟨Nat.le_refl _, hle.trans hstop, hstop.trans h₁.stop_le_front⟩

theorem Orderly.front_le (h : c.Orderly source) (hpass : c.Passes c₁) :
    c.last.stop ≤ c₁.last.stop ∧ c.front ≤ c₁.front := by
  induction hpass with
  | refl => exact ⟨Nat.le_refl _, Nat.le_refl _⟩
  | tail hpass hnext ih =>
    have hle := (h.passes hpass).front_le_next hnext
    exact ⟨ih.1.trans hle.2.1, ih.2.trans hle.2.2⟩

/-- The first of the tokens that were passed over. -/
theorem Orderly.within_span (h : c.Orderly source) (hpass : c.Passes c₁) (hlt : c₁.size < c.size) :
    c.span.Within source c.front c₁.last.stop := by
  obtain ⟨c', hnext, hpass⟩ := hpass.exists_next hlt
  refine ⟨h.marks_span, hnext.span_start.ge, ?_⟩
  have hle := ((h.next hnext).front_le hpass).1
  cases hnext
  exact hle

/-- The last of the tokens that were passed over. -/
theorem Orderly.within_last (h : c.Orderly source) (hpass : c.Passes c₁) (hlt : c₁.size < c.size) :
    c₁.last.Within source c.front c₁.last.stop := by
  refine ⟨(h.passes hpass).marks_last, ?_, Nat.le_refl _⟩
  rcases hpass.cases_tail with rfl | ⟨c', hpass, hnext⟩
  · exact absurd hlt (Nat.lt_irrefl _)
  · exact (h.front_le hpass).2.trans ((h.passes hpass).front_le_next hnext).1

/-! ## What is laid out along the way -/

/-- Some tokens are passed over, and the outlines stand among them, whatever the text is. -/
def Lays (c : Cursor) (os : List Outline) (c₁ : Cursor) : Prop :=
  c.Passes c₁ ∧ ∀ source, c.Orderly source → Row source c.front c₁.last.stop os

namespace Lays

variable {os os' parts : List Outline} {o o₁ o₂ : Outline} {a b : Span} {t : Token}

theorem refl (c : Cursor) : c.Lays [] c := ⟨.refl, fun _ _ => .nil⟩

theorem trans (h : c.Lays os c₁) (h' : c₁.Lays os' c₂) : c.Lays (os ++ os') c₂ := by
  refine ⟨h.1.trans h'.1, fun source hc => ?_⟩
  have hc₁ := hc.passes h.1
  exact (h.2 source hc).append (h'.2 source hc₁) (hc.front_le h.1).2 hc₁.stop_le_front
    (hc₁.front_le h'.1).1

theorem next (h : c.Lays os c₁) (hnext : c₁.Next c₂) : c.Lays os c₂ := by
  have htoken : c₁.Lays [] c₂ := ⟨.single hnext, fun _ _ => .nil⟩
  have htrans := h.trans htoken
  rwa [List.append_nil] at htrans

/-- A token that nothing is made of. -/
theorem token {last : Span} {l : Lexeme} {rest : List Lexeme} (h : c.Lays os ⟨last, l :: rest⟩)
    (hl : l.token ≠ .eof) : c.Lays os ⟨l.span, rest⟩ :=
  h.next (.token hl)

theorem size_le (h : c.Lays os c₁) : c₁.size ≤ c.size := h.1.size_le

theorem sublist (h : c.Lays os' c₁) (hos : os.Sublist os') : c.Lays os c₁ :=
  ⟨h.1, fun source hc => (h.2 source hc).sublist hos⟩

/-- What was laid out marks a part of the text. -/
theorem marks (h : c.Lays [o] c₁) (hc : c.Orderly source) : o.span.Marks source :=
  ((h.2 source hc).within o List.mem_cons_self).marks

/-- The nodes in a node are laid out where it is. -/
theorem of_node (h : c.Lays [.node a parts] c₁) : c.Lays parts c₁ :=
  ⟨h.1, fun source hc => (h.2 source hc).of_node⟩

/-- A token that is a node of its own. -/
theorem leaf {last : Span} {l : Lexeme} {rest : List Lexeme} (hl : l.token ≠ .eof) :
    Lays ⟨last, l :: rest⟩ [.node l.span []] ⟨l.span, rest⟩ := by
  have hpass : Passes ⟨last, l :: rest⟩ ⟨l.span, rest⟩ := .single (.token hl)
  exact ⟨hpass, fun source hc => Row.nil.node (hc.within_span hpass (length_lt_succ rest))
    (List.forall_mem_nil _)⟩

/-! ### Closing an outline -/

/-- From the first token to the last one. -/
theorem whole (h : c.Lays parts c₁) (hlt : c₁.size < c.size) :
    c.Lays [.node (c.span.merge c₁.last) parts] c₁ := by
  refine ⟨h.1, fun source hc => ?_⟩
  have hrow := h.2 source hc
  obtain ⟨c', hnext, -⟩ := h.1.exists_next hlt
  refine hrow.node ((hc.within_span h.1 hlt).merge (hc.within_last h.1 hlt)) fun o ho => ?_
  exact Span.covers_merge (hnext.span_start ▸ (hrow.within o ho).lo_le) (hrow.within o ho).le_hi

/-- From the first token to the end of a part. -/
theorem toPart (h : c.Lays [o] c₁) (hlt : c₁.size < c.size) (ho : o.span = b) :
    c.Lays [.node (c.span.merge b) [o]] c₁ := by
  subst ho
  refine ⟨h.1, fun source hc => ?_⟩
  have hrow := h.2 source hc
  have hspan := hc.within_span h.1 hlt
  have hpart := hrow.within o List.mem_cons_self
  obtain ⟨c', hnext, -⟩ := h.1.exists_next hlt
  exact hrow.node (hspan.merge hpart) (List.forall_mem_singleton.mpr
    (Span.covers_merge (hnext.span_start ▸ hpart.lo_le) (Nat.le_refl _)))

/-- From the start of the first part to the last token. -/
theorem fromPart (h : c.Lays (o :: os) c₁) (hlt : c₁.size < c.size) (ho : o.span = a) :
    c.Lays [.node (a.merge c₁.last) (o :: os)] c₁ := by
  subst ho
  refine ⟨h.1, fun source hc => ?_⟩
  have hrow := h.2 source hc
  have hpart := hrow.within o List.mem_cons_self
  exact hrow.node (hpart.merge (hc.within_last h.1 hlt)) fun o' ho' =>
    Span.covers_merge (hrow.start_le o' ho') (hrow.within o' ho').le_hi

/-- From the start of the first part to the end of the second. -/
theorem join (h : c.Lays [o₁, o₂] c₁) (h₁ : o₁.span = a) (h₂ : o₂.span = b) :
    c.Lays [.node (a.merge b) [o₁, o₂]] c₁ := by
  subst h₁ h₂
  refine ⟨h.1, fun source hc => ?_⟩
  have hrow := h.2 source hc
  have hfirst := hrow.within o₁ List.mem_cons_self
  have hsecond := hrow.within o₂ (List.mem_cons_of_mem _ List.mem_cons_self)
  have hle := (List.pairwise_cons.mp hrow.ordered).1 o₂ List.mem_cons_self
  refine hrow.node (hfirst.merge hsecond) (List.forall_mem_cons.mpr ⟨?_, ?_⟩)
  · exact Span.covers_merge (Nat.le_refl _) (hle.trans hsecond.marks.start_le_stop)
  · exact List.forall_mem_singleton.mpr
      (Span.covers_merge (hfirst.marks.start_le_stop.trans hle) (Nat.le_refl _))

/-- The least span that covers all parts. -/
theorem union (h : c.Lays (o :: os) c₁) :
    c.Lays [.node (os.foldl (fun s o => s.merge o.span) o.span) (o :: os)] c₁ := by
  refine ⟨h.1, fun source hc => ?_⟩
  have hrow := h.2 source hc
  obtain ⟨hwithin, hfirst, hothers⟩ := (hrow.sublist (List.sublist_cons_self o os)).foldl_merge
    (hrow.within o List.mem_cons_self)
  exact hrow.node hwithin (List.forall_mem_cons.mpr ⟨hfirst, hothers⟩)

end Lays

end Cursor

/-! ## What reading lays out -/

namespace Parse

open Cursor (Lays Orderly)

variable {α β : Type} {m n : Nat} {view : α → List Outline} {view' : β → List Outline}
  {c c₁ : Cursor} {os parts : List Outline} {place : α → Span} {o : Outline}

/-- What is read from a cursor on is laid out, and an error is at a place of the text. -/
structure LaysOut (view : α → List Outline) (c : Cursor) (r : Parse α n) : Prop where
  ok : ∀ p, r = .ok p → c.Lays (view p.value) p.next
  error : ∀ e, r = .error e → ∀ source, c.Orderly source → e.span.Marks source

/-- One token is read, and its place is known. -/
structure Takes (place : α → Span) (c : Cursor) (r : Parse α n) : Prop where
  ok : ∀ p, r = .ok p → c.Next p.next ∧ place p.value = c.span ∧ p.next.last = c.span
  error : ∀ e, r = .error e → ∀ source, c.Orderly source → e.span.Marks source

namespace LaysOut

theorem of_ok {p : Parsed α n} (h : c.Lays (view p.value) p.next) : LaysOut view c (.ok p) where
  ok := by
    rintro _ ⟨⟩
    exact h
  error := by rintro _ ⟨⟩

theorem of_error {e : Error} (h : ∀ source, c.Orderly source → e.span.Marks source) :
    LaysOut view c (.error e : Parse α n) where
  ok := by rintro _ ⟨⟩
  error := by
    rintro _ ⟨⟩
    exact h

/-- A node from the first token to the last one. -/
theorem node {p : Parsed α n} (hn : n ≤ c.size) (h : c.Lays parts p.next)
    (hview : view p.value = [.node (c.span.merge p.next.last) parts]) : LaysOut view c (.ok p) :=
  of_ok (hview ▸ h.whole (Nat.lt_of_lt_of_le p.shorter hn))

/-- One rule of the grammar after another. -/
theorem bind {x : Parse α m} {f : Parsed α m → Parse β n} (hc : c.Lays os c₁)
    (hx : LaysOut view c₁ x)
    (hf : ∀ a c₂ h, c.Lays (os ++ view a) c₂ → LaysOut view' c (f ⟨a, c₂, h⟩)) :
    LaysOut view' c (x >>= f) := by
  cases x with
  | ok p =>
    obtain ⟨a, c₂, h⟩ := p
    exact hf a c₂ h (hc.trans (hx.ok _ rfl))
  | error e => exact of_error fun source horderly => hx.error e rfl source (horderly.passes hc.1)

/-- A token that nothing is made of, and what follows it. -/
theorem take {x : Parse α m} {f : Parsed α m → Parse β n} (hc : c.Lays os c₁)
    (hx : Takes place c₁ x)
    (hf : ∀ a c₂ h, place a = c₁.span → c₂.last = c₁.span → c.Lays os c₂ →
      LaysOut view' c (f ⟨a, c₂, h⟩)) :
    LaysOut view' c (x >>= f) := by
  cases x with
  | ok p =>
    obtain ⟨a, c₂, h⟩ := p
    obtain ⟨hnext, hplace, hlast⟩ := hx.ok _ rfl
    exact hf a c₂ h hplace hlast (hc.next hnext)
  | error e => exact of_error fun source horderly => hx.error e rfl source (horderly.passes hc.1)

/-- The same, read from further back. -/
theorem weaken {x : Parse α m} (h : m ≤ n) (hx : LaysOut view c x) :
    LaysOut view c (do return (← x).weaken h : Parse α n) :=
  .bind (.refl c) hx fun _ _ _ hc => of_ok hc

end LaysOut

end Parse

open Parse (LaysOut Takes)

namespace Cursor

variable {c c₀ : Cursor} {os : List Outline} {t : Token}

theorem next_of_eat? {p : Parsed Span c.size} (hp : c.eat? t = some p) (ht : t ≠ .eof) :
    c.Next p.next ∧ p.value = c.span ∧ p.next.last = c.span := by
  unfold eat? at hp
  split at hp
  · cases hp
  · split at hp
    case isTrue hl =>
      cases hp
      exact ⟨.token (hl ▸ ht), rfl, rfl⟩
    case isFalse => cases hp

theorem Lays.eat? (h : c₀.Lays os c) {p : Parsed Span c.size} (hp : c.eat? t = some p)
    (ht : t ≠ .eof) : c₀.Lays os p.next :=
  h.next (next_of_eat? hp ht).1

theorem laysOut_fail {α : Type} {n : Nat} {view : α → List Outline} {fault : Token → Fault} :
    LaysOut view c (c.fail fault : Parse α n) :=
  .of_error fun _ horderly => horderly.marks_span

theorem takes_expect (c : Cursor) (ht : t ≠ .eof) : Takes id c (c.expect t) := by
  unfold expect
  split
  case h_1 p hp =>
    refine ⟨?_, by rintro _ ⟨⟩⟩
    rintro _ ⟨⟩
    exact next_of_eat? hp ht
  case h_2 =>
    refine ⟨by rintro _ ⟨⟩, ?_⟩
    rintro _ ⟨⟩ source horderly
    exact horderly.marks_span

theorem takes_ident (c : Cursor) : Takes (·.2) c c.ident := by
  unfold ident
  split
  · refine ⟨?_, by rintro _ ⟨⟩⟩
    rintro _ ⟨⟩
    exact ⟨.token (by simp), rfl, rfl⟩
  · refine ⟨by rintro _ ⟨⟩, ?_⟩
    rintro _ ⟨⟩ source horderly
    exact horderly.marks_span

theorem next_of_operator? {level : Nat} {p : Parsed BinOp c.size}
    (hp : c.operator? level = some p) : c.Next p.next := by
  unfold operator? at hp
  split at hp
  · split at hp
    · split at hp
      · cases hp
        exact .token (by simp)
      · cases hp
    · cases hp
  · cases hp

theorem passes_skip (c : Cursor) : c.Passes c.skip := by
  unfold skip
  obtain ⟨last, rest⟩ := c
  fun_induction skipTerminators last rest with
  | case1 last span rest ih => exact .head (.token (by simp)) ih
  | case2 => exact .refl

theorem Lays.skip (h : c₀.Lays os c) : c₀.Lays os c.skip := by
  have hskip : c.Lays [] c.skip := ⟨c.passes_skip, fun _ _ => .nil⟩
  have htrans := h.trans hskip
  rwa [List.append_nil] at htrans

/-- A list lays out what its items lay out. -/
theorem laysOut_listUntil {α : Type} {n : Nat} {close : Symbol} {view : α → List Outline}
    {item : (c : Cursor) → c.size < n → Parse α c.size} (views : List α → List Outline)
    (hnil : views [] = []) (hcons : ∀ a as, views (a :: as) = view a ++ views as)
    (hitem : ∀ c h, LaysOut view c (item c h)) (c : Cursor) (hn : c.size < n) :
    LaysOut views c (c.listUntil n close item hn) := by
  rw [listUntil]
  split
  · refine .take (.refl c) (c.takes_expect (by simp)) fun _ c₁ _ _ _ hc₁ => .of_ok ?_
    exact hnil ▸ hc₁
  · refine .bind (.refl c) (hitem c hn) fun a c₁ h₁ hc₁ => ?_
    dsimp only
    split
    · refine .take hc₁ (c₁.takes_expect (by simp)) fun _ c₂ _ _ _ hc₂ => .of_ok ?_
      show c.Lays (views [a]) c₂
      rw [hcons, hnil, List.append_nil]
      exact hc₂
    case h_2 c₂ h₂ heat =>
      refine .bind (hc₁.eat? heat (by simp))
        (laysOut_listUntil views hnil hcons hitem c₂ (by omega)) fun as c₃ _ hc₃ => .of_ok ?_
      show c.Lays (views (a :: as)) c₃
      rw [hcons]
      exact hc₃
termination_by c.size

theorem laysOut_parenthesised {α : Type} {view : α → List Outline}
    {item : (c : Cursor) → Parse α c.size} (views : List α → List Outline)
    (hnil : views [] = []) (hcons : ∀ a as, views (a :: as) = view a ++ views as)
    (hitem : ∀ c, LaysOut view c (item c)) (c : Cursor) :
    LaysOut views c (c.parenthesised item) := by
  refine .take (.refl c) (c.takes_expect (by simp)) fun _ c₁ h₁ _ _ hc₁ => ?_
  exact .bind hc₁ (laysOut_listUntil views hnil hcons (fun c _ => hitem c) c₁ h₁)
    fun as c₂ _ hc₂ => .of_ok hc₂

end Cursor

end RuleScript
