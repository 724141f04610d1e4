import RuleScript.Proofs.Lowering.Inversion

/-!
# What a program refers to

The functions that are called somewhere and the names in annotations are the references of a piece
of a program. A declaration matters to the events of a program only if a chain of references leads
to it from some event, and what is declared can be read off the program without regard to the order
of its declarations.

## Main definitions

* `Reference`: a function that is called, or a name in an annotation
* `Expr.references`, `Stmt.references`, `Item.references`: the references in a piece of a program
* `Program.Refers`: the references that some event leads to
* `Reference.Spelled`: the names of types have a property
* `Program.Spelled`: the names of types and fields have a property
* `Program.Distinct`: no function and no type is declared twice
* `Declarations.lookup?`: the declaration that a reference stands for

## Main results

* `Declarations.lookup?_collect`: what is declared is found under its name, and nothing else is
* `Declarations.exists_collect`: the declarations of a program can be collected if they are distinct
-/

namespace RuleScript

/-- A name that stands for a declaration: a function that is called, or a name in an annotation. -/
inductive Reference
  | function (name : String)
  | type (name : String)
deriving DecidableEq

/-! ## References in a piece of a program -/

namespace TypeExpr

mutual

/-- The names in an annotation. -/
def references : TypeExpr → List Reference
  | named _ name => [.type name]
  | array _ item => item.references
  | function _ params ret => referencesList params ++ referencesOption ret
  | variadic _ inner => inner.references
  | union _ members => referencesList members

/-- The names in some annotations. -/
def referencesList : List TypeExpr → List Reference
  | [] => []
  | t :: ts => t.references ++ referencesList ts

/-- The names in an annotation that may be missing. -/
def referencesOption : Option TypeExpr → List Reference
  | none => []
  | some t => t.references

end

end TypeExpr

namespace Expr

mutual

/-- The functions called in an expression, the operands of `typeof` included, and the names in its
annotations. -/
def references : Expr → List Reference
  | .number _ _ | .string _ _ | .boolean _ _ | .ident _ _ => []
  | .array _ item items => TypeExpr.referencesOption item ++ referencesList items
  | .binary _ _ left right => left.references ++ right.references
  | .not _ operand => operand.references
  | .typeOf _ operand => operand.references
  | .index _ object place => object.references ++ place.references
  | .call _ name args => .function name :: referencesList args

/-- The references in some expressions. -/
def referencesList : List Expr → List Reference
  | [] => []
  | e :: es => e.references ++ referencesList es

end

/-- The references in an expression that may be missing. -/
def referencesOption : Option Expr → List Reference
  | none => []
  | some e => e.references

end Expr

namespace Stmt

mutual

/-- The references in a statement. -/
def references : Stmt → List Reference
  | .block _ body => referencesBody body
  | .declare _ _ ty value _ => TypeExpr.referencesOption ty ++ Expr.referencesOption value
  | .assign _ _ value => value.references
  | .assignField _ object _ value => object.references ++ value.references
  | .branch _ condition body none => condition.references ++ referencesBody body
  | .branch _ condition body (some otherwise) =>
    condition.references ++ (referencesBody body ++ referencesBody otherwise)
  | .loop _ condition body => condition.references ++ referencesBody body
  | .count _ _ first limit body =>
    first.references ++ (limit.references ++ referencesBody body)
  | .ret _ value => Expr.referencesOption value
  | .stop _ | .next _ => []
  | .call _ name args => .function name :: Expr.referencesList args

/-- The references in the statements of a body. -/
def referencesBody : List Stmt → List Reference
  | [] => []
  | s :: body => s.references ++ referencesBody body

end

end Stmt

/-- The references in a function: in the bounds of its generics, in the types of its parameters and
of its value, and in its body. -/
def FunctionDecl.references (decl : FunctionDecl) : List Reference :=
  decl.generics.flatMap (fun g => TypeExpr.referencesOption g.bound) ++
    (decl.params.flatMap (fun p => p.ty.references) ++
      (TypeExpr.referencesOption decl.ret ++ Stmt.referencesBody decl.body))

namespace Item

/-- The references in a declaration. -/
def references : Item → List Reference
  | function decl => decl.references
  | event decl => Stmt.referencesBody decl.body
  | typeAlias decl => decl.ty.references

/-- What stands for a declaration. Nothing refers to an event. -/
def declares? : Item → Option Reference
  | function decl => some (.function decl.name)
  | event _ => none
  | typeAlias decl => some (.type decl.name)

end Item

namespace Program

/-- The references that some event leads to, through the declarations that they stand for. -/
inductive Refers (program : Program) : Reference → Prop
  | event {e r} : Item.event e ∈ program.items → r ∈ (Item.event e).references → Refers program r
  | through {r item r'} : Refers program r → item ∈ program.items → item.declares? = some r →
    r' ∈ item.references → Refers program r'

/-- No function and no type is declared twice. -/
def Distinct (program : Program) : Prop := (program.items.filterMap Item.declares?).Nodup

instance (program : Program) : Decidable program.Distinct :=
  inferInstanceAs (Decidable (List.Nodup _))

theorem mem_events {program : Program} {e : EventDecl} :
    e ∈ program.events ↔ Item.event e ∈ program.items := by
  rw [events, List.mem_filterMap]
  constructor
  · rintro ⟨item, hitem, hevent⟩
    cases item with
    | event e' =>
      cases hevent
      exact hitem
    | function | typeAlias => cases hevent
  · intro h
    exact ⟨_, h, rfl⟩

end Program

/-! ## Names of types and fields -/

section

variable {P : String → Prop}

namespace Reference

/-- The names of types among the references have the property. -/
def Spelled (P : String → Prop) (refs : List Reference) : Prop := ∀ name, .type name ∈ refs → P name

@[simp] theorem spelled_nil : Spelled P [] := nofun

@[simp] theorem spelled_append {as bs : List Reference} :
    Spelled P (as ++ bs) ↔ Spelled P as ∧ Spelled P bs := by
  simp [Spelled, or_imp, forall_and]

@[simp] theorem spelled_function {function : String} {refs : List Reference} :
    Spelled P (.function function :: refs) ↔ Spelled P refs := by
  simp [Spelled]

@[simp] theorem spelled_type {name : String} : Spelled P [.type name] ↔ P name := by
  simp [Spelled]

theorem spelled_true (refs : List Reference) : Spelled (fun _ => True) refs :=
  fun _ _ => trivial

end Reference

theorem TypeExpr.spelled_list {ts : List TypeExpr} :
    Reference.Spelled P (referencesList ts) ↔ ∀ t ∈ ts, Reference.Spelled P t.references := by
  induction ts with
  | nil => simp [referencesList]
  | cons t ts ih => rw [referencesList, Reference.spelled_append, ih, List.forall_mem_cons]

theorem TypeExpr.spelled_option {t? : Option TypeExpr} :
    Reference.Spelled P (referencesOption t?) ↔
      ∀ t, t? = some t → Reference.Spelled P t.references := by
  cases t? <;> simp [referencesOption]

theorem Expr.spelled_list {es : List Expr} :
    Reference.Spelled P (referencesList es) ↔ ∀ e ∈ es, Reference.Spelled P e.references := by
  induction es with
  | nil => simp [referencesList]
  | cons e es ih => rw [referencesList, Reference.spelled_append, ih, List.forall_mem_cons]

theorem Expr.spelled_option {e? : Option Expr} :
    Reference.Spelled P (referencesOption e?) ↔
      ∀ e, e? = some e → Reference.Spelled P e.references := by
  cases e? <;> simp [referencesOption]

namespace Stmt

mutual

/-- All names of types in the statement have the property, and so have the fields it assigns to. -/
def Spelled (P : String → Prop) : Stmt → Prop
  | .block _ body => SpelledBody P body
  | .declare _ _ ty value _ =>
    Reference.Spelled P (TypeExpr.referencesOption ty) ∧
      Reference.Spelled P (Expr.referencesOption value)
  | .assign _ _ value => Reference.Spelled P value.references
  | .assignField _ object field value =>
    P field ∧ Reference.Spelled P object.references ∧ Reference.Spelled P value.references
  | .branch _ condition body none => Reference.Spelled P condition.references ∧ SpelledBody P body
  | .branch _ condition body (some otherwise) =>
    Reference.Spelled P condition.references ∧ SpelledBody P body ∧ SpelledBody P otherwise
  | .loop _ condition body => Reference.Spelled P condition.references ∧ SpelledBody P body
  | .count _ _ first limit body =>
    Reference.Spelled P first.references ∧ Reference.Spelled P limit.references ∧
      SpelledBody P body
  | .ret _ value => Reference.Spelled P (Expr.referencesOption value)
  | .stop _ | .next _ => True
  | .call _ _ args => Reference.Spelled P (Expr.referencesList args)

/-- All names of types and of fields in the body have the property. -/
def SpelledBody (P : String → Prop) : List Stmt → Prop
  | [] => True
  | s :: body => s.Spelled P ∧ SpelledBody P body

end

mutual

theorem spelled_true : ∀ s : Stmt, s.Spelled fun _ => True
  | .block _ body => spelledBody_true body
  | .declare .. => ⟨Reference.spelled_true _, Reference.spelled_true _⟩
  | .assign .. | .ret .. | .call .. => Reference.spelled_true _
  | .assignField .. => ⟨trivial, Reference.spelled_true _, Reference.spelled_true _⟩
  | .branch _ _ body none => ⟨Reference.spelled_true _, spelledBody_true body⟩
  | .branch _ _ body (some otherwise) =>
    ⟨Reference.spelled_true _, spelledBody_true body, spelledBody_true otherwise⟩
  | .loop _ _ body => ⟨Reference.spelled_true _, spelledBody_true body⟩
  | .count _ _ _ _ body =>
    ⟨Reference.spelled_true _, Reference.spelled_true _, spelledBody_true body⟩
  | .stop _ | .next _ => trivial

theorem spelledBody_true : ∀ body : List Stmt, SpelledBody (fun _ => True) body
  | [] => trivial
  | s :: body => ⟨spelled_true s, spelledBody_true body⟩

end

end Stmt

/-- All names of types and of fields in the function have the property, those of its generics
included. -/
structure FunctionDecl.Spelled (P : String → Prop) (decl : FunctionDecl) : Prop where
  generics : ∀ g ∈ decl.generics,
    P g.name ∧ Reference.Spelled P (TypeExpr.referencesOption g.bound)
  params : ∀ p ∈ decl.params, Reference.Spelled P p.ty.references
  ret : Reference.Spelled P (TypeExpr.referencesOption decl.ret)
  body : Stmt.SpelledBody P decl.body

/-- All names of types and of fields in the declaration have the property. -/
def Item.Spelled (P : String → Prop) : Item → Prop
  | function decl => decl.Spelled P
  | event decl => Stmt.SpelledBody P decl.body
  | typeAlias decl => Reference.Spelled P decl.ty.references

/-- All names of types and of fields in the program have the property. -/
def Program.Spelled (P : String → Prop) (program : Program) : Prop :=
  ∀ item ∈ program.items, item.Spelled P

end

/-! ## Finding what is declared -/

theorem Table.get?_insert {α : Type} (t : Table α) (name other : String) (a : α) :
    (t.insert name a).get? other = if name = other then some a else t.get? other := by
  split
  case isTrue h =>
    subst h
    exact get?_insert_self _ _ _
  case isFalse h => exact get?_insert_of_ne _ _ (Ne.symm h)

namespace Declarations

variable {d d' : Declarations} {items : List Item} {item i : Item} {r : Reference}

/-- The declaration that a reference stands for. -/
def lookup? (d : Declarations) : Reference → Option Item
  | .function name => (d.functions.get? name).map .function
  | .type name => (d.aliases.get? name).map .typeAlias

theorem lookup?_empty : ({} : Declarations).lookup? r = none := by
  cases r <;> rfl

/-- A declaration is added under a name that is free, and found under it after that. -/
theorem add_ok (h : d.add item = .ok d') (r : Reference) :
    (item.declares? = some r → d.lookup? r = none) ∧
      d'.lookup? r = if item.declares? = some r then some item else d.lookup? r := by
  cases item with
  | function f =>
    rw [add] at h
    split at h
    · cases h
    case isFalse hfree =>
      cases h
      cases r with
      | type name => exact ⟨nofun, by simp [lookup?, Item.declares?]⟩
      | function name =>
        simp only [lookup?, Item.declares?, Table.get?_insert, Option.some.injEq,
          Reference.function.injEq]
        refine ⟨?_, by split <;> rfl⟩
        rintro rfl
        simpa [Table.contains] using hfree
  | typeAlias a =>
    rw [add] at h
    split at h
    · cases h
    case isFalse hfree =>
      cases h
      cases r with
      | function name => exact ⟨nofun, by simp [lookup?, Item.declares?]⟩
      | type name =>
        simp only [lookup?, Item.declares?, Table.get?_insert, Option.some.injEq,
          Reference.type.injEq]
        refine ⟨?_, by split <;> rfl⟩
        rintro rfl
        simpa [Table.contains] using hfree
  | event e =>
    cases h
    exact ⟨nofun, rfl⟩

/-- A declaration can be added if its name is free. -/
theorem exists_add (h : ∀ r, item.declares? = some r → d.lookup? r = none) :
    ∃ d', d.add item = .ok d' := by
  cases item with
  | function f =>
    have hfree : d.functions.contains f.name = false := by
      simpa [lookup?, Table.contains] using h _ rfl
    exact ⟨_, if_neg (by simp [hfree])⟩
  | typeAlias a =>
    have hfree : d.aliases.contains a.name = false := by
      simpa [lookup?, Table.contains] using h _ rfl
    exact ⟨_, if_neg (by simp [hfree])⟩
  | event e => exact ⟨d, rfl⟩

theorem lookup?_foldlM (h : items.foldlM add d = .ok d') : d'.lookup? r = some i ↔
    d.lookup? r = some i ∨ i ∈ items ∧ i.declares? = some r := by
  induction items generalizing d with
  | nil =>
    cases h
    simp
  | cons item items ih =>
    rw [List.foldlM_cons, Except.bind_eq_ok] at h
    obtain ⟨d₁, hadd, h⟩ := h
    obtain ⟨hfree, hfound⟩ := add_ok hadd r
    rw [ih h, hfound, List.mem_cons]
    by_cases hitem : item.declares? = some r
    · rw [if_pos hitem, hfree hitem]
      constructor
      · rintro (h | ⟨hi, hr⟩)
        · cases h
          exact .inr ⟨.inl rfl, hitem⟩
        · exact .inr ⟨.inr hi, hr⟩
      · rintro (h | ⟨rfl | hi, hr⟩)
        · cases h
        · exact .inl rfl
        · exact .inr ⟨hi, hr⟩
    · rw [if_neg hitem]
      constructor
      · rintro (h | ⟨hi, hr⟩)
        · exact .inl h
        · exact .inr ⟨.inr hi, hr⟩
      · rintro (h | ⟨rfl | hi, hr⟩)
        · exact .inl h
        · exact absurd hr hitem
        · exact .inr ⟨hi, hr⟩

/-- **What is declared is found under its name, and nothing else is.** -/
theorem lookup?_collect {program : Program} (h : collect program = .ok d) :
    d.lookup? r = some i ↔ i ∈ program.items ∧ i.declares? = some r := by
  rw [lookup?_foldlM h, lookup?_empty]
  simp

/-- Distinct declarations can all be added to names that are free. -/
theorem exists_foldlM (hdistinct : (items.filterMap Item.declares?).Nodup)
    (hfree : ∀ item ∈ items, ∀ r, item.declares? = some r → d.lookup? r = none) :
    ∃ d', items.foldlM add d = .ok d' := by
  induction items generalizing d with
  | nil => exact ⟨d, rfl⟩
  | cons item items ih =>
    obtain ⟨hitem, hitems⟩ := List.forall_mem_cons.mp hfree
    obtain ⟨d₁, hadd⟩ := exists_add hitem
    have hdistinct' : (items.filterMap Item.declares?).Nodup :=
      hdistinct.sublist ((List.sublist_cons_self _ _).filterMap _)
    obtain ⟨d', hd'⟩ := ih (d := d₁) hdistinct' fun other hother r hr => by
      rw [(add_ok hadd r).2, if_neg ?_]
      · exact hitems other hother r hr
      · intro hsame
        rw [List.filterMap_cons_some hsame, List.nodup_cons] at hdistinct
        exact hdistinct.1 (List.mem_filterMap.mpr ⟨other, hother, hr⟩)
    exact ⟨d', by rw [List.foldlM_cons, Except.bind_eq_ok]; exact ⟨d₁, hadd, hd'⟩⟩

/-- The declarations of a program can be collected if they are distinct. -/
theorem exists_collect {program : Program} (h : program.Distinct) :
    ∃ d, collect program = .ok d :=
  exists_foldlM h fun _ _ _ _ => lookup?_empty

end Declarations

end RuleScript
