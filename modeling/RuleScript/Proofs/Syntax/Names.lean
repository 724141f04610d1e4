import RuleScript.Proofs.Lowering.References
import RuleScript.Syntax.Parser

/-!
# Where the names of a program come from

Reading a program makes up no names: each name of a type in it, in an annotation or of a generic,
and each field that is assigned to is one of the identifiers among its tokens. So a property of all
identifiers is one of all these names, whatever is read and in whichever order.

The rules of the grammar are followed one by one. What a rule reads has the property if what its
parts read has it, and the tokens that are left are some of those that were there.

## Main definitions

* `Parse.Gives`: what is read has one property, and the place behind it another
* `Cursor.Spelled`: the identifiers in front of a cursor have a property
* `TypeExpr.Composed`: a property that the grammar of annotations keeps

## Main results

* `Program.spelled_of_ofLexemes`: the names of a program have a property of its identifiers
-/

namespace RuleScript

/-! ## What reading gives -/

namespace Parse

variable {α β : Type} {m n : Nat} {I : Cursor → Prop} {V V' : α → Prop} {W : β → Prop}

/-- What is read has one property, and the place behind it another. -/
def Gives (I : Cursor → Prop) (V : α → Prop) (r : Parse α n) : Prop :=
  ∀ p, r = .ok p → V p.value ∧ I p.next

theorem Gives.ok {p : Parsed α n} (hv : V p.value) (hc : I p.next) : Gives I V (.ok p) := by
  rintro _ ⟨⟩
  exact ⟨hv, hc⟩

theorem Gives.error {e : Error} : Gives I V (.error e : Parse α n) := nofun

/-- One rule after another. -/
theorem Gives.bind {x : Parse α m} {f : Parsed α m → Parse β n} (hx : Gives I V x)
    (hf : ∀ a c h, V a → I c → Gives I W (f ⟨a, c, h⟩)) : Gives I W (x >>= f) := by
  intro q hq
  obtain ⟨⟨a, c, h⟩, hp, hq⟩ := Except.bind_eq_ok.mp hq
  obtain ⟨ha, hc⟩ := hx _ hp
  exact hf a c h ha hc q hq

end Parse

open Parse (Gives)

variable {P : String → Prop}

open Reference (Spelled spelled_append)

/-! ## Tokens -/

namespace Cursor

variable {c : Cursor}

/-- The identifiers in front of the cursor have the property. -/
def Spelled (P : String → Prop) (c : Cursor) : Prop :=
  ∀ l ∈ c.rest, ∀ name, l.token = .ident name → P name

theorem Spelled.tail {last start : Span} {l : Lexeme} {rest : List Lexeme}
    (h : Spelled P ⟨last, l :: rest⟩) : Spelled P ⟨start, rest⟩ :=
  fun l' hl' => h l' (List.mem_cons_of_mem l hl')

theorem Spelled.head {last span : Span} {name : String} {rest : List Lexeme}
    (h : Spelled P ⟨last, ⟨.ident name, span⟩ :: rest⟩) : P name :=
  h _ List.mem_cons_self name rfl

theorem Spelled.skip (h : c.Spelled P) : c.skip.Spelled P := by
  unfold Cursor.skip
  obtain ⟨last, rest⟩ := c
  fun_induction skipTerminators last rest with
  | case1 last span rest ih => exact ih h.tail
  | case2 => exact h

theorem Spelled.eat? (h : c.Spelled P) {t : Token} {p : Parsed Span c.size}
    (hp : c.eat? t = some p) : p.next.Spelled P := by
  unfold Cursor.eat? at hp
  split at hp
  · cases hp
  · split at hp
    · cases hp
      exact h.tail
    · cases hp

theorem gives_fail {α : Type} {n : Nat} {I : Cursor → Prop} {V : α → Prop}
    {fault : Token → Fault} : Gives I V (c.fail fault : Parse α n) :=
  Gives.error

theorem gives_expect (h : c.Spelled P) (t : Token) :
    Gives (Spelled P) (fun _ => True) (c.expect t) := by
  unfold expect
  split
  case h_1 p hp => exact .ok trivial (h.eat? hp)
  case h_2 => exact gives_fail

theorem gives_ident (h : c.Spelled P) : Gives (Spelled P) (fun named => P named.1) c.ident := by
  unfold ident
  split
  · exact .ok h.head h.tail
  · exact gives_fail

theorem Spelled.operator? (h : c.Spelled P) {level : Nat} {p : Parsed BinOp c.size}
    (hp : c.operator? level = some p) : p.next.Spelled P := by
  unfold Cursor.operator? at hp
  split at hp
  · split at hp
    · split at hp
      · cases hp
        exact h.tail
      · cases hp
    · cases hp
  · cases hp

/-- A list has the property in all its items if each item that can be read has it. -/
theorem gives_listUntil {α : Type} {V : α → Prop} {n : Nat} {close : Symbol}
    {item : (c : Cursor) → c.size < n → Parse α c.size}
    (hitem : ∀ c h, c.Spelled P → Gives (Spelled P) V (item c h)) (c : Cursor) (hn : c.size < n)
    (h : c.Spelled P) : Gives (Spelled P) (∀ a ∈ ·, V a) (c.listUntil n close item hn) := by
  rw [listUntil]
  split
  · exact .bind (gives_expect h _) fun _ c₁ _ _ hc₁ => .ok (List.forall_mem_nil _) hc₁
  · refine .bind (hitem c hn h) fun a c₁ h₁ ha hc₁ => ?_
    dsimp only
    split
    · refine .bind (gives_expect hc₁ _) fun _ c₂ _ _ hc₂ => ?_
      exact .ok (List.forall_mem_singleton.mpr ha) hc₂
    case h_2 c₂ h₂ heat =>
      refine .bind (gives_listUntil hitem c₂ (by omega) (hc₁.eat? heat)) fun as c₃ _ has hc₃ => ?_
      exact .ok (List.forall_mem_cons.mpr ⟨ha, has⟩) hc₃
termination_by c.size

theorem gives_parenthesised {α : Type} {V : α → Prop} {item : (c : Cursor) → Parse α c.size}
    (hitem : ∀ c, c.Spelled P → Gives (Spelled P) V (item c)) (h : c.Spelled P) :
    Gives (Spelled P) (∀ a ∈ ·, V a) (c.parenthesised item) := by
  refine .bind (gives_expect h _) fun _ c₁ h₁ _ hc₁ => ?_
  refine .bind (gives_listUntil (fun c _ => hitem c) c₁ h₁ hc₁) fun as c₂ _ has hc₂ => ?_
  exact .ok has hc₂

end Cursor

theorem Stmt.gives_optional {α : Type} {V : α → Prop} {mark : Symbol}
    {read : (c : Cursor) → Parse α c.size}
    (hread : ∀ c, c.Spelled P → Gives (Cursor.Spelled P) V (read c)) {c : Cursor}
    (h : c.Spelled P) :
    Gives (Cursor.Spelled P) (fun a? => ∀ a, a? = some a → V a) (optional mark read c) := by
  unfold optional
  split
  · exact .ok (by simp) h
  case h_2 c₁ _ heat =>
    refine .bind (hread c₁ (h.eat? heat)) fun a c₂ _ ha hc₂ => .ok ?_ hc₂
    rintro _ ⟨⟩
    exact ha

/-! ## Annotations -/

namespace TypeExpr

/-- A property that an annotation has if its names have another and the annotations in it have it
too. The grammar makes no union of fewer than two members. -/
structure Composed (P : String → Prop) (V : TypeExpr → Prop) : Prop where
  named {span : Span} {name : String} : P name → V (.named span name)
  array {span : Span} {item : TypeExpr} : V item → V (.array span item)
  function {span : Span} {params : List TypeExpr} {ret : Option TypeExpr} :
    (∀ p ∈ params, V p) → (∀ r, ret = some r → V r) → V (.function span params ret)
  variadic {span : Span} {inner : TypeExpr} : V inner → V (.variadic span inner)
  union {span : Span} {members : List TypeExpr} :
    2 ≤ members.length → (∀ m ∈ members, V m) → V (.union span members)

variable {V : TypeExpr → Prop}

theorem Composed.brackets (hV : Composed P V) {last : Span} {rest : List Lexeme} {ty : TypeExpr}
    (hty : V ty) (h : Cursor.Spelled P ⟨last, rest⟩) :
    V (TypeExpr.brackets ty last rest).value ∧ (TypeExpr.brackets ty last rest).next.Spelled P := by
  fun_induction TypeExpr.brackets ty last rest with
  | case1 ty last start stop rest ih =>
    have hclose : Cursor.Spelled P ⟨last, ⟨.symbol .rbracket, stop⟩ :: rest⟩ := h.tail
    exact ih (hV.array hty) hclose.tail
  | case2 => exact ⟨hty, h⟩

theorem Composed.ofMembers (hV : Composed P V) {first : TypeExpr} {others : List TypeExpr}
    (hfirst : V first) (hothers : ∀ t ∈ others, V t) : V (ofMembers first others) := by
  cases others with
  | nil => exact hfirst
  | cons t ts => exact hV.union (by simp) (List.forall_mem_cons.mpr ⟨hfirst, hothers⟩)

mutual

/-- What holds of all that the grammar can make holds of what is read. -/
theorem Composed.parse (hV : Composed P V) (c : Cursor) (h : c.Spelled P) :
    Gives (Cursor.Spelled P) V (parse c) := by
  rw [TypeExpr.parse]
  refine .bind (hV.parseAtom c h) fun first c₁ h₁ hfirst hc₁ => ?_
  refine .bind (hV.parseMembers c₁ hc₁) fun others c₂ _ hothers hc₂ => ?_
  exact .ok (hV.ofMembers hfirst hothers) hc₂
termination_by (c.size, 2)

theorem Composed.parseMembers (hV : Composed P V) (c : Cursor) (h : c.Spelled P) :
    Gives (Cursor.Spelled P) (∀ t ∈ ·, V t) (parseMembers c) := by
  rw [TypeExpr.parseMembers]
  split
  · exact .ok (List.forall_mem_nil _) h
  case h_2 c₁ h₁ heat =>
    refine .bind (hV.parseAtom c₁ (h.eat? heat)) fun member c₂ h₂ hmember hc₂ => ?_
    refine .bind (hV.parseMembers c₂ hc₂) fun others c₃ _ hothers hc₃ => ?_
    exact .ok (List.forall_mem_cons.mpr ⟨hmember, hothers⟩) hc₃
termination_by (c.size, 0)

theorem Composed.parseAtom (hV : Composed P V) (c : Cursor) (h : c.Spelled P) :
    Gives (Cursor.Spelled P) V (parseAtom c) := by
  rw [TypeExpr.parseAtom]
  refine .bind (hV.parseStem c h) fun ty c₁ _ hty hc₁ => ?_
  obtain ⟨hvalue, hnext⟩ := hV.brackets hty hc₁
  exact .ok hvalue hnext
termination_by (c.size, 1)

theorem Composed.parseStem (hV : Composed P V) (c : Cursor) (h : c.Spelled P) :
    Gives (Cursor.Spelled P) V (parseStem c) := by
  unfold TypeExpr.parseStem
  split
  case h_1 start rest =>
    exact .bind (hV.parseAtom ⟨start, rest⟩ h.tail) fun inner c₁ _ hinner hc₁ =>
      .ok (hV.variadic hinner) hc₁
  case h_2 start rest =>
    refine .bind (Cursor.gives_expect h.tail _) fun _ c₁ h₁ _ hc₁ => ?_
    refine .bind (Cursor.gives_listUntil (fun c hc => hV.parse c) c₁ h₁ hc₁)
      fun params c₂ h₂ hparams hc₂ => ?_
    dsimp only
    split
    · exact .ok (hV.function hparams nofun) hc₂
    case h_2 c₃ h₃ heat =>
      refine .bind (hV.parse c₃ (hc₂.eat? heat)) fun ret c₄ _ hret hc₄ => ?_
      exact .ok (hV.function hparams fun r hr => Option.some.inj hr ▸ hret) hc₄
  case h_3 => exact .ok (hV.named h.head) h.tail
  case h_4 start rest =>
    refine .bind (hV.parse ⟨start, rest⟩ h.tail) fun inner c₁ _ hinner hc₁ => ?_
    exact .bind (Cursor.gives_expect hc₁ _) fun _ c₂ _ _ hc₂ => .ok hinner hc₂
  case h_5 => exact Cursor.gives_fail
termination_by (c.size, 0)
decreasing_by all_goals grind [Cursor.size_mk]

end

theorem composed_spelled : Composed P (Spelled P ·.references) where
  named h := Reference.spelled_type.mpr h
  array h := h
  function hparams hret := spelled_append.mpr ⟨spelled_list.mpr hparams, spelled_option.mpr hret⟩
  variadic h := h
  union _ h := spelled_list.mpr h

/-- The names in an annotation. -/
theorem gives_parse (c : Cursor) (h : c.Spelled P) :
    Gives (Cursor.Spelled P) (Spelled P ·.references) (parse c) :=
  composed_spelled.parse c h

/-- What holds of all that the grammar can make holds of what a list of tokens writes. -/
theorem Composed.ofLexemes (hV : Composed P V) {tokens : List Lexeme}
    (htokens : ∀ l ∈ tokens, ∀ name, l.token = .ident name → P name) {e : TypeExpr}
    (h : TypeExpr.ofLexemes tokens = .ok e) : V e := by
  obtain ⟨p, hp, h⟩ := Except.bind_eq_ok.mp h
  have hvalue := (hV.parse (.start tokens) htokens p hp).1
  dsimp only at h
  split at h
  · cases h
    exact hvalue
  · cases h

end TypeExpr

/-! ## Expressions -/

namespace Expr

theorem spelled_join (op : BinOp) {left right : Expr} (hleft : Spelled P left.references)
    (hright : Spelled P right.references) : Spelled P (join op left right).references :=
  spelled_append.mpr ⟨hleft, hright⟩

theorem spelled_call {span : Span} {name : String} {args : List Expr}
    (hargs : ∀ e ∈ args, Spelled P e.references) : Spelled P (call span name args).references :=
  Reference.spelled_function.mpr (spelled_list.mpr hargs)

mutual

theorem gives_parseLevels (levels : Nat) (c : Cursor) (h : c.Spelled P) :
    Gives (Cursor.Spelled P) (Spelled P ·.references) (parseLevels levels c) := by
  rw [parseLevels.eq_def]
  split
  · exact gives_parseUnary c h
  case h_2 level =>
    refine .bind (gives_parseLevels level c h) fun left c₁ _ hleft hc₁ => ?_
    exact .bind (gives_parseOperators level left c₁ hleft hc₁) fun e c₂ _ he hc₂ => .ok he hc₂
termination_by (c.size, levels + 2)

theorem gives_parseOperators (level : Nat) (left : Expr) (c : Cursor)
    (hleft : Spelled P left.references) (h : c.Spelled P) :
    Gives (Cursor.Spelled P) (Spelled P ·.references) (parseOperators level left c) := by
  rw [parseOperators]
  split
  · exact .ok hleft h
  case h_2 op c₁ _ hop =>
    refine .bind (gives_parseLevels level c₁ (h.operator? hop)) fun right c₂ _ hright hc₂ => ?_
    have hjoin := spelled_join op hleft hright
    exact .bind (gives_parseOperators level _ c₂ hjoin hc₂) fun e c₃ _ he hc₃ => .ok he hc₃
termination_by (c.size, 0)

theorem gives_parseUnary (c : Cursor) (h : c.Spelled P) :
    Gives (Cursor.Spelled P) (Spelled P ·.references) (parseUnary c) := by
  unfold parseUnary
  split
  case h_1 start rest | h_2 start rest =>
    exact .bind (gives_parseUnary ⟨start, rest⟩ h.tail) fun operand c₁ _ hoperand hc₁ =>
      .ok hoperand hc₁
  case h_3 start rest =>
    refine .bind (gives_parseUnary ⟨start, rest⟩ h.tail) fun operand c₁ _ hoperand hc₁ => ?_
    exact .ok (spelled_join _ Reference.spelled_nil hoperand) hc₁
  case h_4 =>
    refine .bind (gives_parsePrimary _ h) fun e c₁ _ he hc₁ => ?_
    exact .bind (gives_parsePostfix e c₁ he hc₁) fun e' c₂ _ he' hc₂ => .ok he' hc₂
termination_by (c.size, 1)
decreasing_by all_goals grind [Cursor.size_mk]

theorem gives_parsePostfix (e : Expr) (c : Cursor) (he : Spelled P e.references)
    (h : c.Spelled P) :
    Gives (Cursor.Spelled P) (Spelled P ·.references) (parsePostfix e c) := by
  unfold parsePostfix
  split
  case h_1 start rest =>
    refine .bind (gives_parseLevels _ ⟨start, rest⟩ h.tail) fun i c₁ _ hi hc₁ => ?_
    refine .bind (Cursor.gives_expect hc₁ _) fun stop c₂ _ _ hc₂ => ?_
    have hindex : Spelled P (index (e.span.merge stop) e i).references :=
      spelled_append.mpr ⟨he, hi⟩
    exact .bind (gives_parsePostfix _ c₂ hindex hc₂) fun e' c₃ _ he' hc₃ => .ok he' hc₃
  case h_2 last span method span₁ start rest =>
    -- The object of a method is the first argument of the call.
    have hmethod : Cursor.Spelled P ⟨span, _ :: _ :: rest⟩ := h.tail
    have hopen : Cursor.Spelled P ⟨span₁, _ :: rest⟩ := hmethod.tail
    refine .bind (Cursor.gives_listUntil (fun c _ => gives_parseLevels _ c) ⟨start, rest⟩ _
      hopen.tail) fun args c₁ _ hargs hc₁ => ?_
    have hcall : Spelled P (call (e.span.merge c₁.last) method (e :: args)).references :=
      spelled_call (List.forall_mem_cons.mpr ⟨he, hargs⟩)
    exact .bind (gives_parsePostfix _ c₁ hcall hc₁) fun e' c₂ _ he' hc₂ => .ok he' hc₂
  case h_3 => exact .ok he h
  case h_4 | h_5 => exact Gives.error
  case h_6 => exact .ok he h
termination_by (c.size, 0)
decreasing_by all_goals grind [Cursor.size_mk]

theorem gives_parsePrimary (c : Cursor) (h : c.Spelled P) :
    Gives (Cursor.Spelled P) (Spelled P ·.references) (parsePrimary c) := by
  unfold parsePrimary
  split
  case h_1 | h_2 | h_3 | h_4 => exact .ok Reference.spelled_nil h.tail
  case h_5 name span start rest =>
    have hopen : Cursor.Spelled P ⟨span, _ :: rest⟩ := h.tail
    refine .bind (Cursor.gives_listUntil (fun c _ => gives_parseLevels _ c) ⟨start, rest⟩ _
      hopen.tail) fun args c₁ _ hargs hc₁ => ?_
    exact .ok (spelled_call hargs) hc₁
  case h_6 => exact .ok Reference.spelled_nil h.tail
  case h_7 start rest =>
    refine .bind (gives_parseLevels _ ⟨start, rest⟩ h.tail) fun e c₁ _ he hc₁ => ?_
    exact .bind (Cursor.gives_expect hc₁ _) fun _ c₂ _ _ hc₂ => .ok he hc₂
  case h_8 start rest =>
    refine .bind (Cursor.gives_listUntil (fun c _ => gives_parseLevels _ c) ⟨start, rest⟩ _
      h.tail) fun items c₁ _ hitems hc₁ => ?_
    exact .ok (spelled_append.mpr ⟨Reference.spelled_nil, spelled_list.mpr hitems⟩) hc₁
  case h_9 start rest =>
    refine .bind (TypeExpr.gives_parse ⟨start, rest⟩ h.tail) fun item c₁ h₁ hitem hc₁ => ?_
    refine .bind (Cursor.gives_expect hc₁ _) fun _ c₂ h₂ _ hc₂ => ?_
    refine .bind (Cursor.gives_expect hc₂ _) fun _ c₃ h₃ _ hc₃ => ?_
    refine .bind (Cursor.gives_listUntil (fun c _ => gives_parseLevels _ c) c₃ _ hc₃)
      fun items c₄ _ hitems hc₄ => ?_
    exact .ok (spelled_append.mpr ⟨hitem, spelled_list.mpr hitems⟩) hc₄
  case h_10 => exact Cursor.gives_fail
termination_by (c.size, 0)
decreasing_by all_goals grind [Cursor.size_mk]

end

/-- The names in the annotations of an expression. -/
theorem gives_parse (c : Cursor) (h : c.Spelled P) :
    Gives (Cursor.Spelled P) (Spelled P ·.references) (parse c) :=
  gives_parseLevels _ c h

end Expr

/-! ## Statements -/

namespace Stmt

theorem gives_parseDeclare (start : Span) (constant : Bool) (c : Cursor) (h : c.Spelled P) :
    Gives (Cursor.Spelled P) (Stmt.Spelled P) (parseDeclare start constant c) := by
  refine .bind (Cursor.gives_ident h) fun _ c₁ _ _ hc₁ => ?_
  refine .bind (gives_optional TypeExpr.gives_parse hc₁) fun ty c₂ _ hty hc₂ => ?_
  refine .bind (gives_optional Expr.gives_parse hc₂) fun value c₃ _ hvalue hc₃ => ?_
  exact .ok ⟨TypeExpr.spelled_option.mpr hty, Expr.spelled_option.mpr hvalue⟩ hc₃

theorem gives_parseReturn (start : Span) (c : Cursor) (h : c.Spelled P) :
    Gives (Cursor.Spelled P) (Stmt.Spelled P) (parseReturn start c) := by
  unfold parseReturn
  split
  · exact .ok Reference.spelled_nil h
  · exact .bind (Expr.gives_parse c h) fun value c₁ _ hvalue hc₁ => .ok hvalue hc₁

theorem gives_parseAssign (start : Span) (target : Expr) (op : Option BinOp) (c : Cursor)
    (h : c.Spelled P) :
    Gives (Cursor.Spelled P) (Stmt.Spelled P) (parseAssign start target op c) := by
  unfold parseAssign
  split
  · refine .bind (Expr.gives_parse c h) fun rhs c₁ _ hrhs hc₁ => .ok ?_ hc₁
    cases op with
    | none => exact hrhs
    | some op => exact Expr.spelled_join op Reference.spelled_nil hrhs
  · exact Gives.error

theorem gives_parseBehind (start : Span) (target : Expr) (c : Cursor)
    (htarget : Reference.Spelled P target.references) (h : c.Spelled P) :
    Gives (Cursor.Spelled P) (Stmt.Spelled P) (parseBehind start target c) := by
  unfold parseBehind
  split
  · refine .bind (Cursor.gives_ident h.tail) fun _ c₁ _ hfield hc₁ => ?_
    refine .bind (Cursor.gives_expect hc₁ _) fun _ c₂ _ _ hc₂ => ?_
    refine .bind (Expr.gives_parse c₂ hc₂) fun value c₃ _ hvalue hc₃ => ?_
    exact .ok ⟨hfield, htarget, hvalue⟩ hc₃
  · split
    · exact .bind (gives_parseAssign start _ _ _ h.tail) fun s c₁ _ hs hc₁ => .ok hs hc₁
    · exact .ok (Reference.spelled_function.mp htarget) h
    · exact Gives.error
  · split
    · exact .ok (Reference.spelled_function.mp htarget) h
    · exact Gives.error

theorem gives_parseSimple (c : Cursor) (h : c.Spelled P) :
    Gives (Cursor.Spelled P) (Stmt.Spelled P) (parseSimple c) := by
  refine .bind (Expr.gives_parse c h) fun target c₁ _ htarget hc₁ => ?_
  exact .bind (gives_parseBehind _ target c₁ htarget hc₁) fun s c₂ _ hs hc₂ => .ok hs hc₂

mutual

theorem gives_parseBlock (c : Cursor) (h : c.Spelled P) :
    Gives (Cursor.Spelled P) (SpelledBody P) (parseBlock c) := by
  rw [parseBlock]
  refine .bind (Cursor.gives_expect h _) fun _ c₁ _ _ hc₁ => ?_
  exact .bind (gives_parseBody c₁ hc₁) fun body c₂ _ hbody hc₂ => .ok hbody hc₂
termination_by (c.size, 1)

theorem gives_parseBody (c : Cursor) (h : c.Spelled P) :
    Gives (Cursor.Spelled P) (SpelledBody P) (parseBody c) := by
  have hsize := c.size_skip_le
  rw [parseBody]
  split
  · exact .bind (Cursor.gives_expect h.skip _) fun _ c₁ _ _ hc₁ => .ok trivial hc₁
  · refine .bind (gives_parse c.skip h.skip) fun s c₁ _ hs hc₁ => ?_
    refine .bind (gives_parseBody c₁ hc₁) fun body c₂ _ hbody hc₂ => ?_
    exact .ok ⟨hs, hbody⟩ hc₂
termination_by (c.size, 3)
decreasing_by all_goals grind

/-- The names in the annotations of a statement, and its fields. -/
theorem gives_parse (c : Cursor) (h : c.Spelled P) :
    Gives (Cursor.Spelled P) (Stmt.Spelled P) (parse c) := by
  unfold parse
  split
  case h_1 | h_2 =>
    exact .bind (gives_parseDeclare _ _ _ h.tail) fun s c₁ _ hs hc₁ => .ok hs hc₁
  case h_3 start rest =>
    exact .bind (gives_parseBranch start ⟨start, rest⟩ h.tail) fun s c₁ _ hs hc₁ => .ok hs hc₁
  case h_4 start rest =>
    refine .bind (Expr.gives_parse ⟨start, rest⟩ h.tail) fun condition c₁ h₁ hcondition hc₁ => ?_
    refine .bind (gives_parseBlock c₁ hc₁) fun body c₂ _ hbody hc₂ => ?_
    exact .ok ⟨hcondition, hbody⟩ hc₂
  case h_5 start rest =>
    refine .bind (Cursor.gives_ident h.tail) fun _ c₁ h₁ _ hc₁ => ?_
    refine .bind (Cursor.gives_expect hc₁ _) fun _ c₂ h₂ _ hc₂ => ?_
    refine .bind (Expr.gives_parse c₂ hc₂) fun first c₃ h₃ hfirst hc₃ => ?_
    refine .bind (Cursor.gives_expect hc₃ _) fun _ c₄ h₄ _ hc₄ => ?_
    refine .bind (Expr.gives_parse c₄ hc₄) fun limit c₅ h₅ hlimit hc₅ => ?_
    refine .bind (gives_parseBlock c₅ hc₅) fun body c₆ _ hbody hc₆ => ?_
    exact .ok ⟨hfirst, hlimit, hbody⟩ hc₆
  case h_6 => exact .bind (gives_parseReturn _ _ h.tail) fun s c₁ _ hs hc₁ => .ok hs hc₁
  case h_7 | h_8 => exact .ok trivial h.tail
  case h_9 => exact .bind (gives_parseBlock _ h) fun body c₁ _ hbody hc₁ => .ok hbody hc₁
  case h_10 => exact gives_parseSimple _ h
termination_by (c.size, 2)
decreasing_by all_goals grind [Cursor.size_mk]

theorem gives_parseBranch (start : Span) (c : Cursor) (h : c.Spelled P) :
    Gives (Cursor.Spelled P) (Stmt.Spelled P) (parseBranch start c) := by
  rw [parseBranch]
  refine .bind (Expr.gives_parse c h) fun condition c₁ _ hcondition hc₁ => ?_
  refine .bind (gives_parseBlock c₁ hc₁) fun body c₂ _ hbody hc₂ => ?_
  dsimp only
  split
  · exact .ok ⟨hcondition, hbody⟩ hc₂
  case h_2 c₃ _ helse =>
    have hc₃ := hc₂.eat? helse
    split
    case h_1 start' c₄ _ hif =>
      refine .bind (gives_parseBranch start' c₄ (hc₃.eat? hif)) fun s c₅ _ hs hc₅ => ?_
      exact .ok ⟨hcondition, hbody, hs, trivial⟩ hc₅
    · refine .bind (gives_parseBlock c₃ hc₃) fun otherwise c₄ _ hothers hc₄ => ?_
      exact .ok ⟨hcondition, hbody, hothers⟩ hc₄
termination_by (c.size, 0)

end

end Stmt

/-! ## Declarations -/

theorem GenericParam.gives_parseList (c : Cursor) (h : c.Spelled P) :
    Gives (Cursor.Spelled P)
      (∀ g ∈ ·, P g.name ∧ Spelled P (TypeExpr.referencesOption g.bound)) (parseList c) := by
  rw [parseList]
  refine .bind (Cursor.gives_ident h) fun named c₁ h₁ hname hc₁ => ?_
  obtain ⟨name, span⟩ := named
  refine .bind (Stmt.gives_optional TypeExpr.gives_parse hc₁) fun bound c₂ h₂ hbound hc₂ => ?_
  have hg := And.intro hname (TypeExpr.spelled_option.mpr hbound)
  dsimp only
  split
  case h_1 c₃ h₃ hcomma =>
    refine .bind (gives_parseList c₃ (hc₂.eat? hcomma)) fun gs c₄ _ hgs hc₄ => ?_
    exact .ok (List.forall_mem_cons.mpr ⟨hg, hgs⟩) hc₄
  · refine .bind (Cursor.gives_expect hc₂ _) fun _ c₃ _ _ hc₃ => ?_
    exact .ok (List.forall_mem_singleton.mpr hg) hc₃
termination_by c.size

theorem GenericParam.gives_parseOptional (c : Cursor) (h : c.Spelled P) :
    Gives (Cursor.Spelled P)
      (∀ g ∈ ·, P g.name ∧ Spelled P (TypeExpr.referencesOption g.bound)) (parseOptional c) := by
  unfold parseOptional
  split
  · exact .ok (List.forall_mem_nil _) h
  case h_2 c₁ _ heat =>
    exact .bind (gives_parseList c₁ (h.eat? heat)) fun gs c₂ _ hgs hc₂ => .ok hgs hc₂

theorem Param.gives_parse (c : Cursor) (h : c.Spelled P) :
    Gives (Cursor.Spelled P) (Spelled P ·.ty.references) (parse c) := by
  refine .bind (Cursor.gives_ident h) fun _ c₁ _ _ hc₁ => ?_
  refine .bind (Cursor.gives_expect hc₁ _) fun _ c₂ _ _ hc₂ => ?_
  exact .bind (TypeExpr.gives_parse c₂ hc₂) fun ty c₃ _ hty hc₃ => .ok hty hc₃

theorem FunctionDecl.gives_parse (start : Span) (c : Cursor) (h : c.Spelled P) :
    Gives (Cursor.Spelled P) (FunctionDecl.Spelled P) (parse start c) := by
  refine .bind (Cursor.gives_ident h) fun _ c₁ _ _ hc₁ => ?_
  refine .bind (GenericParam.gives_parseOptional c₁ hc₁) fun generics c₂ _ hgenerics hc₂ => ?_
  refine .bind (Cursor.gives_parenthesised Param.gives_parse hc₂) fun params c₃ _ hparams hc₃ => ?_
  refine .bind (Stmt.gives_optional TypeExpr.gives_parse hc₃) fun ret c₄ _ hret hc₄ => ?_
  refine .bind (Stmt.gives_parseBlock c₄ hc₄) fun body c₅ _ hbody hc₅ => ?_
  exact .ok ⟨hgenerics, hparams, TypeExpr.spelled_option.mpr hret, hbody⟩ hc₅

theorem EventDecl.gives_parse (start : Span) (c : Cursor) (h : c.Spelled P) :
    Gives (Cursor.Spelled P) (fun e => Stmt.SpelledBody P e.body)
      (parse start c) := by
  refine .bind (Cursor.gives_ident h) fun _ c₁ _ _ hc₁ => ?_
  have harg : ∀ c : Cursor, c.Spelled P → Gives (Cursor.Spelled P) (fun _ => True)
      (do return (← c.ident).map (·.1)) :=
    fun c hc => .bind (Cursor.gives_ident hc) fun _ _ _ _ hc₁ => .ok trivial hc₁
  refine .bind (Cursor.gives_parenthesised harg hc₁) fun args c₂ _ _ hc₂ => ?_
  exact .bind (Stmt.gives_parseBlock c₂ hc₂) fun body c₃ _ hbody hc₃ => .ok hbody hc₃

theorem AliasDecl.gives_parse (start : Span) (c : Cursor) (h : c.Spelled P) :
    Gives (Cursor.Spelled P) (Spelled P ·.ty.references) (parse start c) := by
  refine .bind (Cursor.gives_ident h) fun _ c₁ _ _ hc₁ => ?_
  refine .bind (Cursor.gives_expect hc₁ _) fun _ c₂ _ _ hc₂ => ?_
  exact .bind (TypeExpr.gives_parse c₂ hc₂) fun ty c₃ _ hty hc₃ => .ok hty hc₃

theorem Item.gives_parse (c : Cursor) (h : c.Spelled P) :
    Gives (Cursor.Spelled P) (Item.Spelled P) (parse c) := by
  unfold parse
  split
  · exact .bind (FunctionDecl.gives_parse _ _ h.tail) fun decl c₁ _ hdecl hc₁ => .ok hdecl hc₁
  · exact .bind (EventDecl.gives_parse _ _ h.tail) fun decl c₁ _ hdecl hc₁ => .ok hdecl hc₁
  · exact .bind (AliasDecl.gives_parse _ _ h.tail) fun decl c₁ _ hdecl hc₁ => .ok hdecl hc₁
  · exact Cursor.gives_fail

namespace Program

theorem spelled_of_parseItems (c : Cursor) (h : c.Spelled P) {items : List Item}
    (hitems : parseItems c = .ok items) : ∀ item ∈ items, item.Spelled P := by
  have hsize := c.size_skip_le
  rw [parseItems] at hitems
  split at hitems
  · cases hitems
    exact nofun
  · obtain ⟨⟨item, c₁, h₁⟩, hitem, hitems⟩ := Except.bind_eq_ok.mp hitems
    obtain ⟨rest, hrest, hitems⟩ := Except.bind_eq_ok.mp hitems
    cases hitems
    obtain ⟨hspelled, hc₁⟩ := Item.gives_parse c.skip h.skip _ hitem
    exact List.forall_mem_cons.mpr ⟨hspelled, spelled_of_parseItems c₁ hc₁ hrest⟩
termination_by c.size

/-- **Reading makes up no names.** If all identifiers among the tokens have a property, then so have
all names of types and of fields in the program that the tokens write. -/
theorem spelled_of_ofLexemes {tokens : List Lexeme} {program : Program}
    (htokens : ∀ l ∈ tokens, ∀ name, l.token = .ident name → P name)
    (h : ofLexemes tokens = .ok program) : program.Spelled P := by
  obtain ⟨items, hitems, h⟩ := Except.bind_eq_ok.mp h
  cases h
  exact spelled_of_parseItems (.start tokens) htokens hitems

end Program

end RuleScript
