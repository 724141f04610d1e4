import Mathlib.Logic.Relation
import RuleScript.Proofs.Lowering.Annotations
import RuleScript.Proofs.Typing.Parts

/-!
# Expanding aliases

The aliases of a program make a graph: an alias leads to the names in its body. Expanding an
annotation goes along that graph with a stack of the aliases that are being expanded, and refuses a
name that is on the stack. An alias may be used any number of times, on one path or on many, as long
as no path comes back to it; so the expansion of an annotation fails exactly when some alias on its
way lies on a circle, and otherwise nothing is left of the aliases.

How many aliases are still to be expanded bounds the recursion of `Scopes.meaning`. The recursion
itself has no bound and keeps one stack, from which each alias is taken again on the way back;
`Scopes.Resolves` is that recursion, and the two come to the same.

## Main definitions

* `Table.Mentions`, `TypeExpr.Reaches`: the graph of aliases, and the names an annotation leads to
* `Scopes.Opens`: the same graph as it is seen where some types hide aliases
* `Scopes.Resolves`: the recursion with its stack
* `Scopes.Expands`: what an annotation stands for when all aliases are replaced by their bodies

## Main results

* `Env.resolves_iff`: the recursion ends, with the type or the error of `Env.resolveIn`
* `Env.resolveIn_error`: an error names an alias on a circle
* `Scopes.Expands.acyclic`: what has an expansion leads to no circle
* `Env.resolveIn_expansion`: which annotations have an expansion, and what it is
-/

namespace RuleScript

/-! ## Names that lead to names -/

/-- The alias of the first name has the second in its body. -/
def Table.Mentions (aliases : Table AliasDecl) (name other : String) : Prop :=
  ∃ decl, aliases.get? name = some decl ∧ .type other ∈ decl.ty.references

/-- The annotation leads to the name, through the bodies of any number of aliases. -/
def TypeExpr.Reaches (aliases : Table AliasDecl) (e : TypeExpr) (name : String) : Prop :=
  ∃ root, .type root ∈ e.references ∧ Relation.ReflTransGen aliases.Mentions root name

/-- The alias of the first name can be seen, and has the second in its body. -/
def Scopes.Opens (s : Scopes) (aliases : Table AliasDecl) (name other : String) : Prop :=
  s.type? name = none ∧ aliases.Mentions name other

/-- Where no type hides an alias, all aliases can be seen. -/
theorem Scopes.opens_eq {s : Scopes} (h : ∀ name, s.type? name = none)
    (aliases : Table AliasDecl) : s.Opens aliases = aliases.Mentions := by
  funext name other
  rw [Opens, h name]
  simp

/-! ## The steps of an expansion -/

theorem Except.map_eq_ok {α β : Type} {f : α → β} {r : Except Error α} {b : β} :
    r.map f = .ok b ↔ ∃ a, r = .ok a ∧ f a = b := by
  cases r <;> simp [Except.map]

theorem Except.map_eq_error {α β : Type} {f : α → β} {r : Except Error α} {err : Error} :
    r.map f = .error err ↔ r = .error err := by
  cases r <;> simp [Except.map]

namespace TypeExpr

variable {meaning : Span → String → Except Error Ty} {span : Span}

theorem resolveWith_array (item : TypeExpr) :
    (array span item).resolveWith meaning = (item.resolveWith meaning).map .array := by
  rw [resolveWith]
  cases item.resolveWith meaning <;> rfl

theorem resolveWith_variadic (inner : TypeExpr) :
    (variadic span inner).resolveWith meaning = (inner.resolveWith meaning).map .variadic := by
  rw [resolveWith]
  cases inner.resolveWith meaning <;> rfl

theorem resolveWith_union (members : List TypeExpr) :
    (union span members).resolveWith meaning = (resolveList meaning members).map .union := by
  rw [resolveWith]
  cases resolveList meaning members <;> rfl

/-- An annotation that may be missing is a list of at most one. -/
theorem resolveOption_eq (e? : Option TypeExpr) :
    resolveOption meaning e? = (resolveList meaning e?.toList).map List.head? := by
  cases e? with
  | none => rfl
  | some e =>
    rw [resolveOption, Option.toList_some, resolveList]
    cases e.resolveWith meaning <;> rfl

theorem resolveWith_function_ok {params : List TypeExpr} (ret : Option TypeExpr) {tys : List Ty}
    (h : resolveList meaning params = .ok tys) :
    (function span params ret).resolveWith meaning =
      (resolveList meaning ret.toList).map fun results => .function tys results.head? := by
  rw [resolveWith, h, resolveOption_eq]
  cases resolveList meaning ret.toList <;> rfl

theorem resolveWith_function_error {params : List TypeExpr} (ret : Option TypeExpr) {err : Error}
    (h : resolveList meaning params = .error err) :
    (function span params ret).resolveWith meaning = .error err := by
  rw [resolveWith, h]
  rfl

theorem resolveList_cons_ok {e : TypeExpr} (es : List TypeExpr) {ty : Ty}
    (h : e.resolveWith meaning = .ok ty) :
    resolveList meaning (e :: es) = (resolveList meaning es).map (ty :: ·) := by
  rw [resolveList, h]
  cases resolveList meaning es <;> rfl

theorem resolveList_cons_error {e : TypeExpr} (es : List TypeExpr) {err : Error}
    (h : e.resolveWith meaning = .error err) :
    resolveList meaning (e :: es) = .error err := by
  rw [resolveList, h]
  rfl

theorem referencesOption_eq (e? : Option TypeExpr) :
    referencesOption e? = referencesList e?.toList := by
  cases e? <;> simp [referencesOption, referencesList]

end TypeExpr

namespace Scopes

/-- What a name comes to while there are enough steps left. -/
inductive Stands (s : Scopes) (aliases : Table AliasDecl) (more : Nat) (stack : List String)
    (span : Span) (name : String) : Except Error Ty → Prop
  | visible {ty : Ty} (hty : s.type? name = some ty) :
    Stands s aliases more stack span name (.ok ty)
  | native (hty : s.type? name = none) (hdecl : aliases.get? name = none) :
    Stands s aliases more stack span name (.ok (.native name))
  | cyclic {decl : AliasDecl} (hty : s.type? name = none) (hdecl : aliases.get? name = some decl)
    (hmem : name ∈ stack) : Stands s aliases more stack span name (.error ⟨.cyclicAlias name, span⟩)
  | expand {decl : AliasDecl} {fewer : Nat} (hty : s.type? name = none)
    (hdecl : aliases.get? name = some decl) (hnew : name ∉ stack) (hmore : fewer < more)
    (henough : aliases.Expandable fewer (name :: stack)) :
    Stands s aliases more stack span name
      (decl.ty.resolveWith (s.meaning aliases fewer (name :: stack)))

section

variable {s : Scopes} {aliases : Table AliasDecl} {more : Nat} {stack : List String} {span : Span}
  {name : String} {ty : Ty} {decl : AliasDecl}

theorem meaning_visible (hty : s.type? name = some ty) :
    s.meaning aliases more stack span name = .ok ty := by
  rw [meaning, hty]

theorem meaning_native (hty : s.type? name = none) (hdecl : aliases.get? name = none) :
    s.meaning aliases more stack span name = .ok (.native name) := by
  rw [meaning, hty, hdecl]

theorem meaning_cyclic (hty : s.type? name = none) (hdecl : aliases.get? name = some decl)
    (hmem : name ∈ stack) :
    s.meaning aliases more stack span name = .error ⟨.cyclicAlias name, span⟩ := by
  rw [meaning, hty, hdecl]
  simp [hmem]

theorem meaning_expand (hty : s.type? name = none) (hdecl : aliases.get? name = some decl)
    (hnew : name ∉ stack) : s.meaning aliases (more + 1) stack span name =
      decl.ty.resolveWith (s.meaning aliases more (name :: stack)) := by
  rw [meaning, hty, hdecl]
  simp [hnew]

/-- An alias that is not on the stack has a step left for it. -/
theorem exists_step (h : aliases.Expandable more stack) (hdecl : aliases.get? name = some decl)
    (hnew : name ∉ stack) :
    ∃ fewer, more = fewer + 1 ∧ aliases.Expandable fewer (name :: stack) := by
  have hin : aliases.contains name = true := by simp [Table.contains, hdecl]
  obtain ⟨fewer, rfl⟩ := Nat.exists_eq_add_one.mpr (h.pos hin hnew)
  exact ⟨fewer, rfl, h.step hin hnew⟩

/-- The steps never run out, so an error is always that of a circle. -/
theorem stands_meaning (h : aliases.Expandable more stack) (span : Span) (name : String) :
    Stands s aliases more stack span name (s.meaning aliases more stack span name) := by
  cases hty : s.type? name with
  | some ty =>
    rw [meaning_visible hty]
    exact .visible hty
  | none =>
    cases hdecl : aliases.get? name with
    | none =>
      rw [meaning_native hty hdecl]
      exact .native hty hdecl
    | some decl =>
      by_cases hmem : name ∈ stack
      · rw [meaning_cyclic hty hdecl hmem]
        exact .cyclic hty hdecl hmem
      · obtain ⟨fewer, rfl, henough⟩ := exists_step h hdecl hmem
        rw [meaning_expand hty hdecl hmem]
        exact .expand hty hdecl hmem (Nat.lt_succ_self fewer) henough

end

/-! ## The recursion with its stack -/

mutual

/-- With the aliases on a stack being expanded, an annotation comes to a type or an error and leaves
a stack. -/
inductive Resolves (s : Scopes) (aliases : Table AliasDecl) :
    List String → TypeExpr → Except Error Ty → List String → Prop
  | visible {stack span name ty} (hty : s.type? name = some ty) :
    Resolves s aliases stack (.named span name) (.ok ty) stack
  | native {stack span name} (hty : s.type? name = none) (hdecl : aliases.get? name = none) :
    Resolves s aliases stack (.named span name) (.ok (.native name)) stack
  | cyclic {stack span name decl} (hty : s.type? name = none)
    (hdecl : aliases.get? name = some decl) (hmem : name ∈ stack) :
    Resolves s aliases stack (.named span name) (.error ⟨.cyclicAlias name, span⟩) stack
  -- The alias is taken from the stack again whether its body has a type or not.
  | expand {stack span name decl r stack'} (hty : s.type? name = none)
    (hdecl : aliases.get? name = some decl) (hnew : name ∉ stack)
    (hbody : Resolves s aliases (name :: stack) decl.ty r stack') :
    Resolves s aliases stack (.named span name) r stack'.tail
  | array {stack span item r stack'} (hitem : Resolves s aliases stack item r stack') :
    Resolves s aliases stack (.array span item) (r.map .array) stack'
  | variadic {stack span inner r stack'} (hinner : Resolves s aliases stack inner r stack') :
    Resolves s aliases stack (.variadic span inner) (r.map .variadic) stack'
  | union {stack span members r stack'} (hmembers : ResolvesAll s aliases stack members r stack') :
    Resolves s aliases stack (.union span members) (r.map .union) stack'
  | function {stack span params ret tys stack₁ r stack₂}
    (hparams : ResolvesAll s aliases stack params (.ok tys) stack₁)
    (hret : ResolvesAll s aliases stack₁ ret.toList r stack₂) :
    Resolves s aliases stack (.function span params ret)
      (r.map fun results => .function tys results.head?) stack₂
  | functionStop {stack span params ret err stack'}
    (hparams : ResolvesAll s aliases stack params (.error err) stack') :
    Resolves s aliases stack (.function span params ret) (.error err) stack'

/-- The same for some annotations from left to right, up to the first error. -/
inductive ResolvesAll (s : Scopes) (aliases : Table AliasDecl) :
    List String → List TypeExpr → Except Error (List Ty) → List String → Prop
  | nil {stack} : ResolvesAll s aliases stack [] (.ok []) stack
  | cons {stack e es ty stack₁ r stack₂} (he : Resolves s aliases stack e (.ok ty) stack₁)
    (hes : ResolvesAll s aliases stack₁ es r stack₂) :
    ResolvesAll s aliases stack (e :: es) (r.map (ty :: ·)) stack₂
  | stop {stack e es err stack'} (he : Resolves s aliases stack e (.error err) stack') :
    ResolvesAll s aliases stack (e :: es) (.error err) stack'

end

variable {s : Scopes} {aliases : Table AliasDecl}

section

variable {meaning : Span → String → Except Error Ty} {stack : List String}

mutual

/-- An annotation comes to what its names come to. -/
theorem Resolves.of_names : ∀ e : TypeExpr,
    (∀ span name, .type name ∈ e.references →
      Resolves s aliases stack (.named span name) (meaning span name) stack) →
    Resolves s aliases stack e (e.resolveWith meaning) stack
  | .named span name, h => h span name List.mem_cons_self
  | .array _ item, h => by
    rw [TypeExpr.resolveWith_array]
    exact .array (Resolves.of_names item h)
  | .function _ params ret, h => by
    simp only [TypeExpr.references, List.mem_append] at h
    have hparams := ResolvesAll.of_names params fun span name hname => h span name (.inl hname)
    have hret := ResolvesAll.of_option ret fun span name hname => h span name (.inr hname)
    cases hr : TypeExpr.resolveList meaning params with
    | ok tys =>
      rw [TypeExpr.resolveWith_function_ok ret hr]
      exact .function (hr ▸ hparams) hret
    | error err =>
      rw [TypeExpr.resolveWith_function_error ret hr]
      exact .functionStop (hr ▸ hparams)
  | .variadic _ inner, h => by
    rw [TypeExpr.resolveWith_variadic]
    exact .variadic (Resolves.of_names inner h)
  | .union _ members, h => by
    rw [TypeExpr.resolveWith_union]
    exact .union (ResolvesAll.of_names members h)

theorem ResolvesAll.of_names : ∀ es : List TypeExpr,
    (∀ span name, .type name ∈ TypeExpr.referencesList es →
      Resolves s aliases stack (.named span name) (meaning span name) stack) →
    ResolvesAll s aliases stack es (TypeExpr.resolveList meaning es) stack
  | [], _ => .nil
  | e :: es, h => by
    simp only [TypeExpr.referencesList, List.mem_append] at h
    have he := Resolves.of_names e fun span name hname => h span name (.inl hname)
    have hes := ResolvesAll.of_names es fun span name hname => h span name (.inr hname)
    cases hr : e.resolveWith meaning with
    | ok ty =>
      rw [TypeExpr.resolveList_cons_ok es hr]
      exact .cons (hr ▸ he) hes
    | error err =>
      rw [TypeExpr.resolveList_cons_error es hr]
      exact .stop (hr ▸ he)

theorem ResolvesAll.of_option : ∀ e? : Option TypeExpr,
    (∀ span name, .type name ∈ TypeExpr.referencesOption e? →
      Resolves s aliases stack (.named span name) (meaning span name) stack) →
    ResolvesAll s aliases stack e?.toList (TypeExpr.resolveList meaning e?.toList) stack
  | none, _ => .nil
  | some e, h => by
    have he := Resolves.of_names e h
    rw [Option.toList_some]
    cases hr : e.resolveWith meaning with
    | ok ty =>
      rw [TypeExpr.resolveList_cons_ok [] hr]
      exact .cons (hr ▸ he) .nil
    | error err =>
      rw [TypeExpr.resolveList_cons_error [] hr]
      exact .stop (hr ▸ he)

end

end

/-- The recursion ends for every name, with what the name stands for and the stack it began with. -/
theorem resolves_named {more : Nat} {stack : List String} (h : aliases.Expandable more stack)
    (span : Span) (name : String) :
    Resolves s aliases stack (.named span name) (s.meaning aliases more stack span name) stack := by
  induction more using Nat.strongRecOn generalizing stack span name with
  | ind more ih =>
    have hstands := stands_meaning (s := s) h span name
    generalize s.meaning aliases more stack span name = r at hstands ⊢
    cases hstands with
    | visible hty => exact .visible hty
    | native hty hdecl => exact .native hty hdecl
    | cyclic hty hdecl hmem => exact .cyclic hty hdecl hmem
    | @expand decl fewer hty hdecl hnew hmore henough =>
      have hbody := Resolves.of_names (s := s) decl.ty fun span name _ =>
        ih fewer hmore henough span name
      exact .expand hty hdecl hnew hbody

mutual

/-- However the recursion goes, it comes to what the names stand for and leaves the stack as it
was. -/
theorem Resolves.eq_of_expandable {stack e r stack'} :
    Resolves s aliases stack e r stack' → ∀ {more}, aliases.Expandable more stack →
      e.resolveWith (s.meaning aliases more stack) = r ∧ stack' = stack
  | .visible hty, _, _ => ⟨meaning_visible hty, rfl⟩
  | .native hty hdecl, _, _ => ⟨meaning_native hty hdecl, rfl⟩
  | .cyclic hty hdecl hmem, _, _ => ⟨meaning_cyclic hty hdecl hmem, rfl⟩
  | .expand hty hdecl hnew hbody, more, h => by
    obtain ⟨fewer, rfl, henough⟩ := exists_step h hdecl hnew
    obtain ⟨hr, hstack⟩ := hbody.eq_of_expandable henough
    rw [hstack, ← hr]
    exact ⟨meaning_expand hty hdecl hnew, rfl⟩
  | .array hitem, _, h => by
    obtain ⟨hr, hstack⟩ := hitem.eq_of_expandable h
    exact ⟨by rw [TypeExpr.resolveWith_array, hr], hstack⟩
  | .variadic hinner, _, h => by
    obtain ⟨hr, hstack⟩ := hinner.eq_of_expandable h
    exact ⟨by rw [TypeExpr.resolveWith_variadic, hr], hstack⟩
  | .union hmembers, _, h => by
    obtain ⟨hr, hstack⟩ := hmembers.eq_of_expandable h
    exact ⟨by rw [TypeExpr.resolveWith_union, hr], hstack⟩
  | .function hparams hret, _, h => by
    obtain ⟨hr, rfl⟩ := hparams.eq_of_expandable h
    obtain ⟨hr', hstack⟩ := hret.eq_of_expandable h
    exact ⟨by rw [TypeExpr.resolveWith_function_ok _ hr, hr'], hstack⟩
  | .functionStop hparams, _, h => by
    obtain ⟨hr, hstack⟩ := hparams.eq_of_expandable h
    exact ⟨TypeExpr.resolveWith_function_error _ hr, hstack⟩

theorem ResolvesAll.eq_of_expandable {stack es r stack'} :
    ResolvesAll s aliases stack es r stack' → ∀ {more}, aliases.Expandable more stack →
      TypeExpr.resolveList (s.meaning aliases more stack) es = r ∧ stack' = stack
  | .nil, _, _ => ⟨rfl, rfl⟩
  | .cons he hes, _, h => by
    obtain ⟨hr, rfl⟩ := he.eq_of_expandable h
    obtain ⟨hr', hstack⟩ := hes.eq_of_expandable h
    exact ⟨by rw [TypeExpr.resolveList_cons_ok _ hr, hr'], hstack⟩
  | .stop he, _, h => by
    obtain ⟨hr, hstack⟩ := he.eq_of_expandable h
    exact ⟨TypeExpr.resolveList_cons_error _ hr, hstack⟩

end

end Scopes

/-- **The recursion ends, with the result of `Env.resolveIn` and no alias left on the stack.** -/
theorem Env.resolves_iff {env : Env} {s : Scopes} {e : TypeExpr} {r : Except Error Ty}
    {stack : List String} : s.Resolves env.declarations.aliases [] e r stack ↔
      r = env.resolveIn s e ∧ stack = [] := by
  have hstart := Table.Expandable.start env.declarations.aliases
  constructor
  · intro h
    obtain ⟨hr, hstack⟩ := h.eq_of_expandable hstart
    exact ⟨hr.symm, hstack⟩
  · rintro ⟨rfl, rfl⟩
    exact Scopes.Resolves.of_names e fun span name _ => Scopes.resolves_named hstart span name

/-! ## Circles -/

namespace TypeExpr

variable {meaning : Span → String → Except Error Ty} {err : Error}

mutual

/-- The error of an annotation is that of a name in it. -/
theorem exists_of_resolveWith_error : ∀ e : TypeExpr, e.resolveWith meaning = .error err →
    ∃ span name, .type name ∈ e.references ∧ meaning span name = .error err
  | named span name, h => ⟨span, name, List.mem_cons_self, h⟩
  | array _ item, h => by
    rw [resolveWith_array, Except.map_eq_error] at h
    exact exists_of_resolveWith_error item h
  | function _ params ret, h => by
    cases hr : resolveList meaning params with
    | error err' =>
      rw [resolveWith_function_error ret hr] at h
      cases h
      obtain ⟨span, name, hname, herr⟩ := exists_of_resolveList_error params hr
      exact ⟨span, name, List.mem_append_left _ hname, herr⟩
    | ok tys =>
      rw [resolveWith_function_ok ret hr, Except.map_eq_error] at h
      obtain ⟨span, name, hname, herr⟩ := exists_of_resolveOption_error ret h
      exact ⟨span, name, List.mem_append_right _ hname, herr⟩
  | variadic _ inner, h => by
    rw [resolveWith_variadic, Except.map_eq_error] at h
    exact exists_of_resolveWith_error inner h
  | union _ members, h => by
    rw [resolveWith_union, Except.map_eq_error] at h
    exact exists_of_resolveList_error members h

theorem exists_of_resolveList_error : ∀ es : List TypeExpr, resolveList meaning es = .error err →
    ∃ span name, .type name ∈ referencesList es ∧ meaning span name = .error err
  | [], h => by cases h
  | e :: es, h => by
    cases hr : e.resolveWith meaning with
    | error err' =>
      rw [resolveList_cons_error es hr] at h
      cases h
      obtain ⟨span, name, hname, herr⟩ := exists_of_resolveWith_error e hr
      exact ⟨span, name, List.mem_append_left _ hname, herr⟩
    | ok ty =>
      rw [resolveList_cons_ok es hr, Except.map_eq_error] at h
      obtain ⟨span, name, hname, herr⟩ := exists_of_resolveList_error es h
      exact ⟨span, name, List.mem_append_right _ hname, herr⟩

theorem exists_of_resolveOption_error : ∀ e? : Option TypeExpr,
    resolveList meaning e?.toList = .error err →
      ∃ span name, .type name ∈ referencesOption e? ∧ meaning span name = .error err
  | none, h => by cases h
  | some e, h => by
    cases hr : e.resolveWith meaning with
    | error err' =>
      rw [Option.toList_some, resolveList_cons_error [] hr] at h
      cases h
      exact exists_of_resolveWith_error e hr
    | ok ty =>
      rw [Option.toList_some, resolveList_cons_ok [] hr] at h
      cases h

end

end TypeExpr

namespace Scopes

open Relation (ReflTransGen TransGen)

variable {s : Scopes} {aliases : Table AliasDecl} {name : String} {err : Error}

/-- A name leads to no circle if none of the names in its body does. -/
theorem acyclic_of_opens {other : String}
    (h : ∀ next, s.Opens aliases name next → ∀ other, ReflTransGen (s.Opens aliases) next other →
      ¬ TransGen (s.Opens aliases) other other)
    (hother : ReflTransGen (s.Opens aliases) name other) :
    ¬ TransGen (s.Opens aliases) other other := by
  intro hcircle
  rcases hother.cases_head with rfl | ⟨next, hnext, hrest⟩
  -- A circle through the name itself goes through its body.
  · obtain ⟨next, hnext, hback⟩ := TransGen.head'_iff.mp hcircle
    exact h next hnext name hback hcircle
  · exact h next hnext other hrest hcircle

/-- The error of a name is a circle that it leads to: what is on the stack leads to the name, so a
name that is found there leads to itself. -/
theorem meaning_error {more : Nat} {stack : List String} (h : aliases.Expandable more stack)
    (hstack : ∀ above ∈ stack, TransGen (s.Opens aliases) above name) {span : Span}
    (herr : s.meaning aliases more stack span name = .error err) :
    ∃ other place, err = ⟨.cyclicAlias other, place⟩ ∧
      ReflTransGen (s.Opens aliases) name other ∧ TransGen (s.Opens aliases) other other := by
  -- Each alias that is opened leaves fewer, and puts its name on the stack.
  induction more using Nat.strongRecOn generalizing stack span name with
  | ind more ih =>
    have hstands := stands_meaning (s := s) h span name
    generalize s.meaning aliases more stack span name = r at hstands herr
    cases hstands with
    | visible | native => cases herr
    | cyclic hty hdecl hmem =>
      cases herr
      exact ⟨name, span, rfl, .refl, hstack name hmem⟩
    | @expand decl fewer hty hdecl hnew hmore henough =>
      obtain ⟨place, next, hnext, herr⟩ := TypeExpr.exists_of_resolveWith_error decl.ty herr
      have hopens : s.Opens aliases name next := ⟨hty, decl, hdecl, hnext⟩
      have hstack' : ∀ above ∈ name :: stack, TransGen (s.Opens aliases) above next := by
        intro above habove
        rcases List.mem_cons.mp habove with rfl | habove
        · exact .single hopens
        · exact (hstack above habove).tail hopens
      obtain ⟨other, place', herr, hother, hcircle⟩ := ih fewer hmore henough hstack' herr
      exact ⟨other, place', herr, .head hopens hother, hcircle⟩

end Scopes

/-- **An error names an alias on a circle,** one that the annotation leads to. -/
theorem Env.resolveIn_error {env : Env} {s : Scopes} {e : TypeExpr} {err : Error}
    (h : env.resolveIn s e = .error err) :
    ∃ root other place, .type root ∈ e.references ∧ err = ⟨.cyclicAlias other, place⟩ ∧
      Relation.ReflTransGen (s.Opens env.declarations.aliases) root other ∧
      Relation.TransGen (s.Opens env.declarations.aliases) other other := by
  obtain ⟨span, root, hroot, herr⟩ := TypeExpr.exists_of_resolveWith_error e h
  obtain ⟨other, place, hother⟩ := Scopes.meaning_error (.start _) (by simp) herr
  exact ⟨root, other, place, hroot, hother⟩

/-! ## Expansions -/

namespace Scopes

mutual

/-- A type that an annotation stands for: a name that can be seen is its type, an alias is what its
body stands for, and any other name is a native type. -/
inductive Expands (s : Scopes) (aliases : Table AliasDecl) : TypeExpr → Ty → Prop
  | visible {span name ty} (hty : s.type? name = some ty) : Expands s aliases (.named span name) ty
  | native {span name} (hty : s.type? name = none) (hdecl : aliases.get? name = none) :
    Expands s aliases (.named span name) (.native name)
  | expand {span name decl ty} (hty : s.type? name = none) (hdecl : aliases.get? name = some decl)
    (hbody : Expands s aliases decl.ty ty) : Expands s aliases (.named span name) ty
  | array {span item ty} (hitem : Expands s aliases item ty) :
    Expands s aliases (.array span item) (.array ty)
  | function {span params ret tys ret'} (hparams : ExpandsAll s aliases params tys)
    (hret : ExpandsAll s aliases ret.toList ret'.toList) :
    Expands s aliases (.function span params ret) (.function tys ret')
  | variadic {span inner ty} (hinner : Expands s aliases inner ty) :
    Expands s aliases (.variadic span inner) (.variadic ty)
  | union {span members tys} (hmembers : ExpandsAll s aliases members tys) :
    Expands s aliases (.union span members) (.union tys)

/-- The same for some annotations, one by one. -/
inductive ExpandsAll (s : Scopes) (aliases : Table AliasDecl) : List TypeExpr → List Ty → Prop
  | nil : ExpandsAll s aliases [] []
  | cons {e es ty tys} (he : Expands s aliases e ty) (hes : ExpandsAll s aliases es tys) :
    ExpandsAll s aliases (e :: es) (ty :: tys)

end

variable {s : Scopes} {aliases : Table AliasDecl}

section

variable {meaning : Span → String → Except Error Ty}

mutual

/-- What the names of an annotation stand for makes what the annotation stands for. -/
theorem Expands.of_names : ∀ (e : TypeExpr) {ty : Ty},
    (∀ span name ty, .type name ∈ e.references → meaning span name = .ok ty →
      Expands s aliases (.named span name) ty) →
    e.resolveWith meaning = .ok ty → Expands s aliases e ty
  | .named span name, ty, h, hok => h span name ty List.mem_cons_self hok
  | .array _ item, _, h, hok => by
    rw [TypeExpr.resolveWith_array, Except.map_eq_ok] at hok
    obtain ⟨ty, hok, rfl⟩ := hok
    exact .array (Expands.of_names item h hok)
  | .function _ params ret, _, h, hok => by
    simp only [TypeExpr.references, List.mem_append] at h
    cases hr : TypeExpr.resolveList meaning params with
    | error err =>
      rw [TypeExpr.resolveWith_function_error ret hr] at hok
      cases hok
    | ok tys =>
      rw [TypeExpr.resolveWith_function_ok ret hr, Except.map_eq_ok] at hok
      obtain ⟨results, hok, rfl⟩ := hok
      refine .function
        (ExpandsAll.of_names params (fun span name ty hname => h span name ty (.inl hname)) hr) ?_
      exact ExpandsAll.of_option ret (fun span name ty hname => h span name ty (.inr hname)) hok
  | .variadic _ inner, _, h, hok => by
    rw [TypeExpr.resolveWith_variadic, Except.map_eq_ok] at hok
    obtain ⟨ty, hok, rfl⟩ := hok
    exact .variadic (Expands.of_names inner h hok)
  | .union _ members, _, h, hok => by
    rw [TypeExpr.resolveWith_union, Except.map_eq_ok] at hok
    obtain ⟨tys, hok, rfl⟩ := hok
    exact .union (ExpandsAll.of_names members h hok)

theorem ExpandsAll.of_names : ∀ (es : List TypeExpr) {tys : List Ty},
    (∀ span name ty, .type name ∈ TypeExpr.referencesList es → meaning span name = .ok ty →
      Expands s aliases (.named span name) ty) →
    TypeExpr.resolveList meaning es = .ok tys → ExpandsAll s aliases es tys
  | [], _, _, hok => by
    cases hok
    exact .nil
  | e :: es, _, h, hok => by
    simp only [TypeExpr.referencesList, List.mem_append] at h
    cases hr : e.resolveWith meaning with
    | error err =>
      rw [TypeExpr.resolveList_cons_error es hr] at hok
      cases hok
    | ok ty =>
      rw [TypeExpr.resolveList_cons_ok es hr, Except.map_eq_ok] at hok
      obtain ⟨tys, hok, rfl⟩ := hok
      exact .cons (Expands.of_names e (fun span name ty hname => h span name ty (.inl hname)) hr)
        (ExpandsAll.of_names es (fun span name ty hname => h span name ty (.inr hname)) hok)

theorem ExpandsAll.of_option : ∀ (e? : Option TypeExpr) {tys : List Ty},
    (∀ span name ty, .type name ∈ TypeExpr.referencesOption e? → meaning span name = .ok ty →
      Expands s aliases (.named span name) ty) →
    TypeExpr.resolveList meaning e?.toList = .ok tys →
      ExpandsAll s aliases e?.toList tys.head?.toList
  | none, _, _, hok => by
    cases hok
    exact .nil
  | some e, _, h, hok => by
    cases hr : e.resolveWith meaning with
    | error err =>
      rw [Option.toList_some, TypeExpr.resolveList_cons_error [] hr] at hok
      cases hok
    | ok ty =>
      rw [Option.toList_some, TypeExpr.resolveList_cons_ok [] hr] at hok
      cases hok
      exact .cons (Expands.of_names e h hr) .nil

end

end

/-- A type that a name comes to is one that it stands for. -/
theorem expands_named {more : Nat} {stack : List String} (h : aliases.Expandable more stack)
    {span : Span} {name : String} {ty : Ty}
    (hok : s.meaning aliases more stack span name = .ok ty) :
    Expands s aliases (.named span name) ty := by
  -- Each alias that is opened leaves fewer to open.
  induction more using Nat.strongRecOn generalizing stack span name ty with
  | ind more ih =>
    have hstands := stands_meaning (s := s) h span name
    generalize s.meaning aliases more stack span name = r at hstands hok
    cases hstands with
    | visible hty =>
      cases hok
      exact .visible hty
    | native hty hdecl =>
      cases hok
      exact .native hty hdecl
    | cyclic => cases hok
    | @expand decl fewer hty hdecl hnew hmore henough =>
      exact .expand hty hdecl
        (Expands.of_names decl.ty (fun _ _ _ _ hok => ih fewer hmore henough hok) hok)

end Scopes

theorem Env.expands_of_resolveIn {env : Env} {s : Scopes} {e : TypeExpr} {ty : Ty}
    (h : env.resolveIn s e = .ok ty) : s.Expands env.declarations.aliases e ty :=
  Scopes.Expands.of_names e (fun _ _ _ _ hok => Scopes.expands_named (.start _) hok) h

namespace Scopes

open Relation (ReflTransGen TransGen)

variable {s : Scopes} {aliases : Table AliasDecl}

/-- A property of names and the types they stand for, which a name has if the names in its body have
it, each with a type inside its own. -/
structure Inherits (s : Scopes) (aliases : Table AliasDecl) (P : String → Ty → Prop) : Prop where
  visible : ∀ {name ty}, s.type? name = some ty → P name ty
  native : ∀ {name}, s.type? name = none → aliases.get? name = none → P name (.native name)
  expand : ∀ {name decl ty}, s.type? name = none → aliases.get? name = some decl →
    (∀ next, .type next ∈ decl.ty.references → ∃ u ∈ ty.nodes, P next u) → P name ty

mutual

/-- Every name in an annotation stands for a type inside the expansion, and has the property with
it. -/
theorem Expands.names {P e ty} (hP : s.Inherits aliases P) : Expands s aliases e ty → ∀ {root},
    .type root ∈ e.references → ∃ u ∈ ty.nodes, P root u
  | .visible hty, root, hroot => by
    obtain rfl : root = _ := by simpa [TypeExpr.references] using hroot
    exact ⟨_, Ty.self_mem_nodes _, hP.visible hty⟩
  | .native hty hdecl, root, hroot => by
    obtain rfl : root = _ := by simpa [TypeExpr.references] using hroot
    exact ⟨_, Ty.self_mem_nodes _, hP.native hty hdecl⟩
  | .expand hty hdecl hbody, root, hroot => by
    obtain rfl : root = _ := by simpa [TypeExpr.references] using hroot
    exact ⟨_, Ty.self_mem_nodes _, hP.expand hty hdecl fun _ hnext => hbody.names hP hnext⟩
  | .array hitem, _, hroot => by
    obtain ⟨u, hu, hP⟩ := hitem.names hP hroot
    exact ⟨u, List.mem_cons_of_mem _ hu, hP⟩
  | .function hparams hret, _, hroot => by
    rw [TypeExpr.references, List.mem_append, TypeExpr.referencesOption_eq] at hroot
    rcases hroot with hroot | hroot
    · obtain ⟨u, hu, hP⟩ := hparams.names hP hroot
      exact ⟨u, List.mem_cons_of_mem _ (List.mem_append_left _ hu), hP⟩
    · obtain ⟨u, hu, hP⟩ := hret.names hP hroot
      have hu' := Ty.mem_nodesOption.mpr (Ty.mem_nodesList.mp hu)
      exact ⟨u, List.mem_cons_of_mem _ (List.mem_append_right _ hu'), hP⟩
  | .variadic hinner, _, hroot => by
    obtain ⟨u, hu, hP⟩ := hinner.names hP hroot
    exact ⟨u, List.mem_cons_of_mem _ hu, hP⟩
  | .union hmembers, _, hroot => by
    obtain ⟨u, hu, hP⟩ := hmembers.names hP hroot
    exact ⟨u, List.mem_cons_of_mem _ hu, hP⟩

theorem ExpandsAll.names {P es tys} (hP : s.Inherits aliases P) : ExpandsAll s aliases es tys →
    ∀ {root}, .type root ∈ TypeExpr.referencesList es → ∃ u ∈ Ty.nodesList tys, P root u
  | .nil, _, hroot => by cases hroot
  | .cons he hes, _, hroot => by
    rw [TypeExpr.referencesList, List.mem_append] at hroot
    rcases hroot with hroot | hroot
    · obtain ⟨u, hu, hP⟩ := he.names hP hroot
      exact ⟨u, List.mem_append_left _ hu, hP⟩
    · obtain ⟨u, hu, hP⟩ := hes.names hP hroot
      exact ⟨u, List.mem_append_right _ hu, hP⟩

end

/-- A name that no alias can be seen of leads to itself only. -/
theorem eq_of_opens {name other : String} (h : ∀ next, ¬ s.Opens aliases name next)
    (hother : ReflTransGen (s.Opens aliases) name other) : other = name := by
  rcases hother.cases_head with rfl | ⟨next, hnext, -⟩
  · rfl
  · exact absurd hnext (h next)

theorem not_opens_of_visible {name : String} {ty : Ty} (hty : s.type? name = some ty)
    (next : String) : ¬ s.Opens aliases name next := by
  rintro ⟨hnone, -⟩
  cases hnone.symm.trans hty

theorem not_opens_of_native {name : String} (hdecl : aliases.get? name = none) (next : String) :
    ¬ s.Opens aliases name next := by
  rintro ⟨-, decl, hdecl', -⟩
  cases hdecl'.symm.trans hdecl

theorem inherits_acyclic : s.Inherits aliases fun name _ => ∀ other,
    ReflTransGen (s.Opens aliases) name other → ¬ TransGen (s.Opens aliases) other other where
  visible hty _ := acyclic_of_opens fun next hnext => absurd hnext (not_opens_of_visible hty next)
  native _ hdecl _ := acyclic_of_opens fun next hnext =>
    absurd hnext (not_opens_of_native hdecl next)
  expand := by
    intro name decl ty _ hdecl hbody other
    refine acyclic_of_opens fun next ⟨_, decl', hdecl', hmem⟩ => ?_
    cases hdecl'.symm.trans hdecl
    obtain ⟨-, -, hnext⟩ := hbody next hmem
    exact hnext

/-- What has an expansion leads to no circle: a body that leads back to its alias would have to be
expanded inside itself. -/
theorem Expands.acyclic {e : TypeExpr} {ty : Ty} (h : Expands s aliases e ty) {root other : String}
    (hroot : .type root ∈ e.references) (hother : ReflTransGen (s.Opens aliases) root other) :
    ¬ TransGen (s.Opens aliases) other other := by
  obtain ⟨-, -, hacyclic⟩ := h.names inherits_acyclic hroot
  exact hacyclic other hother

theorem inherits_captures {t : Ty} : s.Inherits aliases fun name u => ∀ other,
    ReflTransGen (s.Opens aliases) name other → s.type? other = some t → t ∈ u.nodes where
  visible := by
    intro name u hty other hother ht
    rw [eq_of_opens (not_opens_of_visible hty) hother, hty] at ht
    cases ht
    exact Ty.self_mem_nodes t
  native := by
    intro name hty hdecl other hother ht
    rw [eq_of_opens (not_opens_of_native hdecl) hother, hty] at ht
    cases ht
  expand := by
    intro name decl ty hty hdecl hbody other hother ht
    rcases hother.cases_head with rfl | ⟨next, ⟨-, decl', hdecl', hmem⟩, hrest⟩
    · cases hty.symm.trans ht
    · cases hdecl'.symm.trans hdecl
      obtain ⟨u, hu, hnext⟩ := hbody next hmem
      exact Ty.mem_nodes_trans (hnext other hrest ht) hu

/-- A type that a name leads to is inside the expansion. -/
theorem Expands.captures {e : TypeExpr} {ty t : Ty} (h : Expands s aliases e ty)
    {root other : String} (hroot : .type root ∈ e.references)
    (hother : ReflTransGen (s.Opens aliases) root other) (ht : s.type? other = some t) :
    t ∈ ty.nodes := by
  obtain ⟨u, hu, hcaptures⟩ := h.names inherits_captures hroot
  exact Ty.mem_nodes_trans (hcaptures other hother ht) hu

mutual

/-- Where no types are bound to names, every native type in an expansion is a name that no alias
has. -/
theorem Expands.native_undeclared {e ty} (hnone : ∀ name, s.type? name = none) :
    Expands s aliases e ty → ∀ {name}, .native name ∈ ty.nodes → aliases.get? name = none
  | .visible hty, _, _ => by
    rw [hnone] at hty
    cases hty
  | .native _ hdecl, name, h => by
    obtain rfl : name = _ := by simpa [Ty.nodes] using h
    exact hdecl
  | .expand _ _ hbody, _, h => hbody.native_undeclared hnone h
  | .array hitem, _, h => by
    simp only [Ty.nodes, List.mem_cons, reduceCtorEq, false_or] at h
    exact hitem.native_undeclared hnone h
  | .function hparams hret, _, h => by
    simp only [Ty.nodes, List.mem_cons, reduceCtorEq, false_or, List.mem_append] at h
    rcases h with h | h
    · exact hparams.native_undeclared hnone h
    · exact hret.native_undeclared hnone (Ty.mem_nodesList.mpr (Ty.mem_nodesOption.mp h))
  | .variadic hinner, _, h => by
    simp only [Ty.nodes, List.mem_cons, reduceCtorEq, false_or] at h
    exact hinner.native_undeclared hnone h
  | .union hmembers, _, h => by
    simp only [Ty.nodes, List.mem_cons, reduceCtorEq, false_or] at h
    exact hmembers.native_undeclared hnone h

theorem ExpandsAll.native_undeclared {es tys} (hnone : ∀ name, s.type? name = none) :
    ExpandsAll s aliases es tys → ∀ {name}, .native name ∈ Ty.nodesList tys →
      aliases.get? name = none
  | .nil, _, h => by cases h
  | .cons he hes, _, h => by
    rw [Ty.nodesList, List.mem_append] at h
    rcases h with h | h
    · exact he.native_undeclared hnone h
    · exact hes.native_undeclared hnone h

end

mutual

/-- An annotation has at most one expansion. -/
theorem Expands.unique {e ty} : Expands s aliases e ty → ∀ {ty'}, Expands s aliases e ty' → ty' = ty
  | .visible hty, _, h => by
    cases h with
    | visible hty' => exact Option.some.inj (hty'.symm.trans hty)
    | native hty' | expand hty' => cases hty'.symm.trans hty
  | .native hty hdecl, _, h => by
    cases h with
    | visible hty' => cases hty'.symm.trans hty
    | native => rfl
    | expand _ hdecl' => cases hdecl'.symm.trans hdecl
  | .expand hty hdecl hbody, _, h => by
    cases h with
    | visible hty' => cases hty'.symm.trans hty
    | native _ hdecl' => cases hdecl'.symm.trans hdecl
    | expand _ hdecl' hbody' =>
      obtain rfl := Option.some.inj (hdecl.symm.trans hdecl')
      exact hbody.unique hbody'
  | .array hitem, _, .array hitem' => by rw [hitem.unique hitem']
  | .function hparams hret, _, .function hparams' hret' => by
    have hsame := congrArg List.head? (hret.unique hret')
    rw [hparams.unique hparams']
    congr 1
    simpa using hsame
  | .variadic hinner, _, .variadic hinner' => by rw [hinner.unique hinner']
  | .union hmembers, _, .union hmembers' => by rw [hmembers.unique hmembers']

theorem ExpandsAll.unique {es tys} : ExpandsAll s aliases es tys →
    ∀ {tys'}, ExpandsAll s aliases es tys' → tys' = tys
  | .nil, _, .nil => rfl
  | .cons he hes, _, .cons he' hes' => by rw [he.unique he', hes.unique hes']

end

end Scopes

/-- An annotation comes to a type exactly if that is its expansion. -/
theorem Env.resolveIn_eq_ok {env : Env} {s : Scopes} {e : TypeExpr} {ty : Ty} :
    env.resolveIn s e = .ok ty ↔ s.Expands env.declarations.aliases e ty := by
  refine ⟨expands_of_resolveIn, fun h => ?_⟩
  cases hr : env.resolveIn s e with
  | ok ty' => rw [h.unique (expands_of_resolveIn hr)]
  | error err =>
    obtain ⟨root, other, place, hroot, -, hother, hcircle⟩ := resolveIn_error hr
    exact absurd hcircle (h.acyclic hroot hother)

/-- **Expanding aliases ends, and refuses exactly the circles.** Let no name be bound to a type
where an annotation stands, whatever the aliases of the program are. Then the recursion, begun with
an empty stack, ends with the result of `Env.resolveIn` and an empty stack, and in no other way. The
result is an error exactly if the annotation leads to an alias that lies on a circle. It is a type
exactly if that is the expansion of the annotation, and no native type in that has the name of an
alias. -/
theorem Env.resolveIn_expansion (env : Env) {s : Scopes} (h : ∀ name, s.type? name = none)
    (e : TypeExpr) :
    (∀ r stack, s.Resolves env.declarations.aliases [] e r stack ↔
      r = env.resolveIn s e ∧ stack = []) ∧
    ((∃ err, env.resolveIn s e = .error err) ↔
      ∃ name, e.Reaches env.declarations.aliases name ∧
        Relation.TransGen env.declarations.aliases.Mentions name name) ∧
    ∀ ty, (env.resolveIn s e = .ok ty ↔ s.Expands env.declarations.aliases e ty) ∧
      (env.resolveIn s e = .ok ty →
        ∀ name, .native name ∈ ty.nodes → env.declarations.aliases.contains name = false) := by
  have hopens := Scopes.opens_eq h env.declarations.aliases
  refine ⟨fun r stack => resolves_iff, ⟨?_, ?_⟩,
    fun ty => ⟨resolveIn_eq_ok, fun hok name hname => ?_⟩⟩
  · rintro ⟨err, herr⟩
    obtain ⟨root, other, place, hroot, -, hother, hcircle⟩ := resolveIn_error herr
    rw [hopens] at hother hcircle
    exact ⟨other, ⟨root, hroot, hother⟩, hcircle⟩
  · rintro ⟨other, ⟨root, hroot, hother⟩, hcircle⟩
    rw [← hopens] at hother hcircle
    cases hr : env.resolveIn s e with
    | error err => exact ⟨err, rfl⟩
    | ok ty => exact absurd hcircle ((expands_of_resolveIn hr).acyclic hroot hother)
  · rw [Table.contains, (expands_of_resolveIn hok).native_undeclared h hname]
    rfl

/-- Aliases of which one is used twice and two make a circle. -/
def Env.aliased : Env where
  declarations := {
    aliases := ⟨[
      ("Key", ⟨"Key", .union .zero [.named .zero "string", .named .zero "number"], .zero⟩),
      ("Index", ⟨"Index",
        .function .zero [.named .zero "Key"] (some (.array .zero (.named .zero "Key"))), .zero⟩),
      ("Even", ⟨"Even", .array .zero (.named .zero "Odd"), .zero⟩),
      ("Odd", ⟨"Odd", .union .zero [.named .zero "number", .named .zero "Even"], .zero⟩)]⟩ }
  maxInlineDepth := 16

theorem Env.resolveIn_expansion_aliased :
    (∀ name, Scopes.empty.type? name = none) ∧
    Scopes.empty.Resolves Env.aliased.declarations.aliases [] (.named .zero "Index")
      (.ok (.function [.union [.string, .number]] (some (.array (.union [.string, .number]))))) [] ∧
    ∃ err, Env.aliased.resolveIn .empty (.variadic .zero (.named .zero "Even")) = .error err := by
  have hnone : ∀ name, Scopes.empty.type? name = none := fun _ => rfl
  refine ⟨hnone, ((Env.aliased.resolveIn_expansion hnone _).1 _ _).mpr ⟨rfl, rfl⟩, ?_⟩
  refine (Env.aliased.resolveIn_expansion hnone _).2.1.mpr
    ⟨"Even", ⟨"Even", by decide, .refl⟩, .head (b := "Odd") ?_ (.single ?_)⟩
  · exact ⟨_, rfl, by decide⟩
  · exact ⟨_, rfl, by decide⟩

end RuleScript
