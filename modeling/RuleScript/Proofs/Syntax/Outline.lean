import RuleScript.Proofs.Lexing.Positions
import RuleScript.Syntax.Basic

/-!
# The outline of a syntax tree

What is left of a syntax tree if only the places of its nodes are kept is its outline: each node has
its span, and the outlines of the nodes in it in the order in which they are written. In a nested
outline each node marks a part of the text, and the nodes in it stand inside of that part one behind
the other.

## Main definitions

* `Span.Marks`: a span marks a part of a text
* `Outline`: the places of the nodes of a tree
* `Outline.Nested`: the places are nested in each other
* `Outline.Row`: nested outlines one behind the other
* `TypeExpr.outline`, `Expr.outline`, `Stmt.outline`, `Program.outline`: the outlines of programs
-/

namespace RuleScript

/-! ## Parts of a text -/

/-- The span marks a part of the text: it lies in it, and both its ends are between characters. -/
structure Span.Marks (source : String) (s : Span) : Prop where
  start_le_stop : s.start ≤ s.stop
  stop_le_width : s.stop ≤ Text.width source.toList
  start_boundary : Text.IsBoundary source s.start
  stop_boundary : Text.IsBoundary source s.stop

/-- The first span has the second one in it. -/
def Span.Covers (s t : Span) : Prop := s.start ≤ t.start ∧ t.stop ≤ s.stop

/-- The span marks a part of the text between two offsets. -/
structure Span.Within (source : String) (lo hi : Nat) (s : Span) : Prop where
  marks : s.Marks source
  lo_le : lo ≤ s.start
  le_hi : s.stop ≤ hi

namespace Span

variable {source : String} {lo hi : Nat} {a b : Span}

theorem marks_zero (source : String) : zero.Marks source := by
  have hzero : Text.IsBoundary source 0 := ⟨[], source.toList, rfl, rfl⟩
  exact ⟨Nat.le_refl 0, Nat.zero_le _, hzero, hzero⟩

/-- The text as a whole. -/
theorem marks_whole (source : String) : Marks source ⟨0, Text.width source.toList⟩ := by
  have hstart : Text.IsBoundary source 0 := ⟨[], source.toList, rfl, rfl⟩
  have hstop : Text.IsBoundary source (Text.width source.toList) :=
    ⟨source.toList, [], (List.append_nil _).symm, rfl⟩
  exact ⟨Nat.zero_le _, Nat.le_refl _, hstart, hstop⟩

/-- The least span that covers two parts of a text marks a part of it. -/
theorem Marks.merge (ha : a.Marks source) (hb : b.Marks source) : (a.merge b).Marks source where
  start_le_stop := (Nat.min_le_left _ _).trans (ha.start_le_stop.trans (Nat.le_max_left _ _))
  stop_le_width := Nat.max_le.mpr ⟨ha.stop_le_width, hb.stop_le_width⟩
  start_boundary := by
    rw [start_merge]
    rcases Nat.le_total a.start b.start with h | h
    · rw [Nat.min_eq_left h]
      exact ha.start_boundary
    · rw [Nat.min_eq_right h]
      exact hb.start_boundary
  stop_boundary := by
    rw [stop_merge]
    rcases Nat.le_total a.stop b.stop with h | h
    · rw [Nat.max_eq_right h]
      exact hb.stop_boundary
    · rw [Nat.max_eq_left h]
      exact ha.stop_boundary

theorem Within.merge (ha : a.Within source lo hi) (hb : b.Within source lo hi) :
    (a.merge b).Within source lo hi :=
  ⟨ha.marks.merge hb.marks, Nat.le_min.mpr ⟨ha.lo_le, hb.lo_le⟩,
    Nat.max_le.mpr ⟨ha.le_hi, hb.le_hi⟩⟩

theorem covers_merge {t : Span} (ha : a.start ≤ t.start) (hb : t.stop ≤ b.stop) :
    (a.merge b).Covers t :=
  ⟨(Nat.min_le_left _ _).trans ha, hb.trans (Nat.le_max_right _ _)⟩

end Span

/-! ## Outlines -/

/-- The place of a node, and the outlines of the nodes in it in the order in which they are
written. -/
inductive Outline
  | node (span : Span) (parts : List Outline)

namespace Outline

/-- The place of the outermost node. -/
def span : Outline → Span
  | node span _ => span

/-- Every node marks a part of the text, and the nodes in it lie in that part one behind the
other. -/
inductive Nested (source : String) : Outline → Prop
  | node {span : Span} {parts : List Outline} : span.Marks source →
    (∀ o ∈ parts, Nested source o) → (∀ o ∈ parts, span.Covers o.span) →
    (parts.Pairwise fun a b => a.span.stop ≤ b.span.start) → Nested source (node span parts)

/-- All places in an outline have a property. -/
inductive Throughout (P : Span → Prop) : Outline → Prop
  | node {span : Span} {parts : List Outline} : P span → (∀ o ∈ parts, Throughout P o) →
    Throughout P (node span parts)

/-- Nested outlines between two offsets, one behind the other. -/
structure Row (source : String) (lo hi : Nat) (os : List Outline) : Prop where
  nested : ∀ o ∈ os, o.Nested source
  within : ∀ o ∈ os, o.span.Within source lo hi
  ordered : os.Pairwise fun a b => a.span.stop ≤ b.span.start

variable {source : String} {lo hi mid mid' : Nat} {o : Outline} {os os' parts : List Outline}
  {s : Span} {P : Span → Prop}

theorem Nested.marks (h : o.Nested source) : o.span.Marks source := by
  cases h with
  | node hmarks => exact hmarks

/-- The places of a nested outline mark parts of the text. -/
theorem Nested.throughout (h : o.Nested source) : o.Throughout (Span.Marks source) := by
  induction h with
  | node hmarks _ _ _ ih => exact .node hmarks ih

/-- The place of the outermost node has the property. -/
theorem Throughout.at_span (h : o.Throughout P) : P o.span := by
  cases h with
  | node hs => exact hs

theorem throughout_node :
    (node s parts).Throughout P ↔ P s ∧ ∀ o ∈ parts, o.Throughout P := by
  constructor
  · rintro ⟨hs, hparts⟩
    exact ⟨hs, hparts⟩
  · rintro ⟨hs, hparts⟩
    exact .node hs hparts

theorem nested_node :
    (node s parts).Nested source ↔ s.Marks source ∧ Row source s.start s.stop parts := by
  constructor
  · rintro ⟨hs, hnested, hcovers, hordered⟩
    exact ⟨hs, hnested, fun o ho => ⟨(hnested o ho).marks, (hcovers o ho).1, (hcovers o ho).2⟩,
      hordered⟩
  · rintro ⟨hs, hrow⟩
    exact .node hs hrow.nested (fun o ho => ⟨(hrow.within o ho).lo_le, (hrow.within o ho).le_hi⟩)
      hrow.ordered

namespace Row

theorem nil : Row source lo hi [] := ⟨List.forall_mem_nil _, List.forall_mem_nil _, .nil⟩

/-- Rows one behind the other. -/
theorem append (h : Row source lo mid os) (h' : Row source mid' hi os') (hlo : lo ≤ mid')
    (hmid : mid ≤ mid') (hhi : mid ≤ hi) : Row source lo hi (os ++ os') where
  nested := List.forall_mem_append.mpr ⟨h.nested, h'.nested⟩
  within := by
    refine List.forall_mem_append.mpr ⟨fun o ho => ?_, fun o ho => ?_⟩
    · have hw := h.within o ho
      exact ⟨hw.marks, hw.lo_le, hw.le_hi.trans hhi⟩
    · have hw := h'.within o ho
      exact ⟨hw.marks, hlo.trans hw.lo_le, hw.le_hi⟩
  ordered := by
    refine List.pairwise_append.mpr ⟨h.ordered, h'.ordered, fun a ha b hb => ?_⟩
    exact (h.within a ha).le_hi.trans (hmid.trans (h'.within b hb).lo_le)

theorem sublist (h : Row source lo hi os') (hos : os.Sublist os') : Row source lo hi os :=
  ⟨fun o ho => h.nested o (hos.subset ho), fun o ho => h.within o (hos.subset ho),
    h.ordered.sublist hos⟩

/-- A node around a row. -/
theorem node (h : Row source lo hi parts) (hs : s.Within source lo hi)
    (hcovers : ∀ o ∈ parts, s.Covers o.span) : Row source lo hi [.node s parts] where
  nested := List.forall_mem_singleton.mpr (.node hs.marks h.nested hcovers h.ordered)
  within := List.forall_mem_singleton.mpr hs
  ordered := List.pairwise_singleton _ _

/-- The nodes in a node stand where it stands. -/
theorem of_node (h : Row source lo hi [.node s parts]) : Row source lo hi parts := by
  have hs := h.within _ List.mem_cons_self
  have hrow := (nested_node.mp (h.nested _ List.mem_cons_self)).2
  refine ⟨hrow.nested, fun o ho => ?_, hrow.ordered⟩
  have ho := hrow.within o ho
  exact ⟨ho.marks, hs.lo_le.trans ho.lo_le, ho.le_hi.trans hs.le_hi⟩

/-- Nothing in a row starts before the first outline. -/
theorem start_le (h : Row source lo hi (o :: os)) :
    ∀ o' ∈ o :: os, o.span.start ≤ o'.span.start := by
  refine List.forall_mem_cons.mpr ⟨Nat.le_refl _, fun o' ho' => ?_⟩
  exact (h.within o List.mem_cons_self).marks.start_le_stop.trans
    ((List.pairwise_cons.mp h.ordered).1 o' ho')

/-- The span that covers a row, from some place on. -/
theorem foldl_merge (h : Row source lo hi os) (hs : s.Within source lo hi) :
    (os.foldl (fun s o => s.merge o.span) s).Within source lo hi ∧
      (os.foldl (fun s o => s.merge o.span) s).Covers s ∧
      ∀ o ∈ os, (os.foldl (fun s o => s.merge o.span) s).Covers o.span := by
  induction os generalizing s with
  | nil => exact ⟨hs, ⟨Nat.le_refl _, Nat.le_refl _⟩, List.forall_mem_nil _⟩
  | cons o os ih =>
    obtain ⟨hw, hcovers, hos⟩ := ih (h.sublist (List.sublist_cons_self o os))
      (hs.merge (h.within o List.mem_cons_self))
    rw [List.foldl_cons]
    refine ⟨hw, ?_, List.forall_mem_cons.mpr ⟨?_, hos⟩⟩
    · exact ⟨hcovers.1.trans (Nat.min_le_left _ _), (Nat.le_max_left _ _).trans hcovers.2⟩
    · exact ⟨hcovers.1.trans (Nat.min_le_right _ _), (Nat.le_max_right _ _).trans hcovers.2⟩

end Row

end Outline

/-! ## The outlines of programs -/

namespace TypeExpr

mutual

/-- The outline of an annotation. -/
def outline : TypeExpr → Outline
  | named span _ => .node span []
  | array span item => .node span [item.outline]
  | function span params ret => .node span (outlineList params ++ outlineOption ret)
  | variadic span inner => .node span [inner.outline]
  | union span members => .node span (outlineList members)

/-- The outlines of some annotations. -/
def outlineList : List TypeExpr → List Outline
  | [] => []
  | t :: ts => t.outline :: outlineList ts

/-- The outline of an annotation that may be missing. -/
def outlineOption : Option TypeExpr → List Outline
  | none => []
  | some t => [t.outline]

end

@[simp] theorem span_outline (t : TypeExpr) : t.outline.span = t.span := by
  cases t <;> rfl

theorem outlineList_eq (ts : List TypeExpr) : outlineList ts = ts.map outline := by
  induction ts with
  | nil => rfl
  | cons t ts ih => rw [outlineList, ih, List.map_cons]

end TypeExpr

namespace Expr

mutual

/-- The outline of an expression. -/
def outline : Expr → Outline
  | number span _ | string span _ | boolean span _ | ident span _ => .node span []
  | array span item items => .node span (TypeExpr.outlineOption item ++ outlineList items)
  | binary span _ left right => .node span [left.outline, right.outline]
  | not span operand => .node span [operand.outline]
  | typeOf span operand => .node span [operand.outline]
  | index span object place => .node span [object.outline, place.outline]
  | call span _ args => .node span (outlineList args)

/-- The outlines of some expressions. -/
def outlineList : List Expr → List Outline
  | [] => []
  | e :: es => e.outline :: outlineList es

end

/-- The outline of an expression that may be missing. -/
def outlineOption : Option Expr → List Outline
  | none => []
  | some e => [e.outline]

@[simp] theorem span_outline (e : Expr) : e.outline.span = e.span := by
  cases e <;> rfl

end Expr

namespace Stmt

mutual

/-- The outline of a statement. -/
def outline : Stmt → Outline
  | block span body => .node span (outlineBody body)
  | declare span _ ty value _ =>
    .node span (TypeExpr.outlineOption ty ++ Expr.outlineOption value)
  | assign span _ value => .node span [value.outline]
  | assignField span object _ value => .node span [object.outline, value.outline]
  | branch span condition body none => .node span (condition.outline :: outlineBody body)
  | branch span condition body (some otherwise) =>
    .node span (condition.outline :: outlineBody body ++ outlineBody otherwise)
  | loop span condition body => .node span (condition.outline :: outlineBody body)
  | count span _ first limit body =>
    .node span (first.outline :: limit.outline :: outlineBody body)
  | ret span value => .node span (Expr.outlineOption value)
  | stop span | next span => .node span []
  | call span _ args => .node span (Expr.outlineList args)

/-- The outlines of the statements of a body. -/
def outlineBody : List Stmt → List Outline
  | [] => []
  | s :: body => s.outline :: outlineBody body

end

end Stmt

/-- The outline of a generic with its bound. -/
def GenericParam.outline (g : GenericParam) : Outline :=
  .node g.span (TypeExpr.outlineOption g.bound)

/-- The outline of a parameter with its type. -/
def Param.outline (p : Param) : Outline := .node p.span [p.ty.outline]

/-- The outline of a function: its generics, its parameters, the type of its value, and its
body. -/
def FunctionDecl.outline (decl : FunctionDecl) : Outline :=
  .node decl.span (decl.generics.map GenericParam.outline ++ decl.params.map Param.outline ++
    TypeExpr.outlineOption decl.ret ++ Stmt.outlineBody decl.body)

/-- The outline of an event. -/
def EventDecl.outline (decl : EventDecl) : Outline := .node decl.span (Stmt.outlineBody decl.body)

/-- The outline of an alias. -/
def AliasDecl.outline (decl : AliasDecl) : Outline := .node decl.span [decl.ty.outline]

/-- The outline of a declaration. -/
def Item.outline : Item → Outline
  | function decl => decl.outline
  | event decl => decl.outline
  | typeAlias decl => decl.outline

/-- The outline of a program: its declarations, in the source text as a whole. -/
def Program.outline (source : String) (program : Program) : Outline :=
  .node ⟨0, Text.width source.toList⟩ (program.items.map Item.outline)

end RuleScript
