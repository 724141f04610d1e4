import RuleScript.Proofs.Lowering.References
import RuleScript.Proofs.Syntax.Words
import RuleScript.Proofs.Typing.Generics
import RuleScript.Proofs.Typing.Solving
import RuleScript.Registry.Constants
import RuleScript.Registry.Events
import RuleScript.Registry.Functions
import RuleScript.Ty.Text

/-!
# The names in types

A type is written down with the names in it and a few marks between them. Where the names come from
is not the same for all types: some are written in annotations, some in the tables of the target,
and some are names of generics; but an annotation stands for a type whose names are its own, those
of the aliases in it or those of the types that can be seen.

## Main definitions

* `Text.Made`: a text is made of characters with a property
* `Ty.names`, `Ty.Spelled`: the names in a type, and a property of all of them
* `Ty.Composed`: a property that a type has if the types that it is made of have it

## Main results

* `Ty.made_text`: the text of a type is made of marks and of the characters in its names
* `TypeExpr.resolveWith_composed`: an annotation stands for a type with a property if its names do
* `Scopes.meaning_composed`: what a name stands for, through aliases
-/

namespace RuleScript

/-! ## Texts -/

namespace Text

variable {Q R : Char → Prop}

/-- The text is made of characters with the property. -/
def Made (Q : Char → Prop) (s : String) : Prop := ∀ c ∈ s.toList, Q c

instance [DecidablePred Q] (s : String) : Decidable (Made Q s) := List.decidableBAll Q s.toList

theorem Made.mono {s : String} (h : Made Q s) (hQR : ∀ c, Q c → R c) : Made R s :=
  fun c hc => hQR c (h c hc)

theorem made_append {s t : String} : Made Q (s ++ t) ↔ Made Q s ∧ Made Q t := by
  simp [Made, or_imp, forall_and]

/-- The character is a brace. -/
def isBrace (c : Char) : Bool := c == '\x7b' || c == '\x7d'

/-- There are no braces in the text. -/
abbrev Plain (s : String) : Prop := Made (isBrace · = false) s

end Text

open Text (Made made_append Plain isBrace)

/-! ## Names -/

namespace Ty

mutual

/-- The names in the type, those of generics and those inside bounds included. -/
def names : Ty → List String
  | native name => [name]
  | array item => names item
  | function params ret => namesList params ++ namesOption ret
  | variadic inner => names inner
  | generic name bound => name :: namesOption bound
  | union members => namesList members

/-- The names in some types. -/
def namesList : List Ty → List String
  | [] => []
  | t :: ts => names t ++ namesList ts

/-- The names in a type that may be missing. -/
def namesOption : Option Ty → List String
  | none => []
  | some t => names t

end

/-- All names in the type have the property. -/
def Spelled (P : String → Prop) (t : Ty) : Prop := ∀ name ∈ t.names, P name

instance {P : String → Prop} [DecidablePred P] (t : Ty) : Decidable (t.Spelled P) :=
  inferInstanceAs (Decidable (∀ name ∈ t.names, P name))

variable {P : String → Prop}

theorem Spelled.mono {P' : String → Prop} {t : Ty} (h : t.Spelled P)
    (hP : ∀ name, P name → P' name) : t.Spelled P' :=
  fun name hname => hP name (h name hname)

theorem spelled_native {name : String} : (native name).Spelled P ↔ P name := by
  simp [Spelled, names]

theorem spelled_namesList {ts : List Ty} :
    (∀ name ∈ namesList ts, P name) ↔ ∀ t ∈ ts, t.Spelled P := by
  induction ts with
  | nil => simp [namesList]
  | cons t ts ih => rw [namesList, List.forall_mem_append, ih, List.forall_mem_cons, Spelled]

theorem spelled_namesOption {t? : Option Ty} :
    (∀ name ∈ namesOption t?, P name) ↔ ∀ t, t? = some t → t.Spelled P := by
  cases t? <;> simp [namesOption, Spelled]

theorem spelled_function {params : List Ty} {ret : Option Ty} :
    (function params ret).Spelled P ↔
      (∀ p ∈ params, p.Spelled P) ∧ ∀ r, ret = some r → r.Spelled P := by
  rw [Spelled, names, List.forall_mem_append, spelled_namesList, spelled_namesOption]

theorem spelled_generic {name : String} {bound : Option Ty} :
    (generic name bound).Spelled P ↔ P name ∧ ∀ b, bound = some b → b.Spelled P := by
  rw [Spelled, names, List.forall_mem_cons, spelled_namesOption]

theorem spelled_union {members : List Ty} :
    (union members).Spelled P ↔ ∀ m ∈ members, m.Spelled P := by
  rw [Spelled, names, spelled_namesList]

theorem passedDown_spelled : PassedDown (Spelled P) where
  item h := h
  param h := (spelled_function.mp h).1
  ret h := (spelled_function.mp h).2 _ rfl
  member h := spelled_union.mp h

/-- A type has the property if the types that it is made of have it. Nothing is said about names and
generics. -/
structure Composed (T : Ty → Prop) : Prop where
  array {item : Ty} : T item → T (.array item)
  function {params : List Ty} {ret : Option Ty} :
    (∀ p ∈ params, T p) → (∀ r, ret = some r → T r) → T (.function params ret)
  variadic {inner : Ty} : T inner → T (.variadic inner)
  union {members : List Ty} : (∀ m ∈ members, T m) → T (.union members)

theorem composed_spelled : Composed (Spelled P) where
  array h := h
  function hparams hret := spelled_function.mpr ⟨hparams, hret⟩
  variadic h := h
  union h := spelled_union.mpr h

/-- A property of all types inside a type that is one of generics only. -/
theorem composed_throughout {T : Ty → Prop}
    (hT : ∀ t, (∀ name bound, t ≠ .generic name bound) → T t) : Composed (Throughout T) where
  array h := (throughout_iff _).mpr ⟨hT _ nofun, List.forall_mem_singleton.mpr h⟩
  function hparams hret := (throughout_iff _).mpr ⟨hT _ nofun, List.forall_mem_append.mpr
    ⟨hparams, fun r hr => hret r (Option.mem_toList.mp hr)⟩⟩
  variadic h := (throughout_iff _).mpr ⟨hT _ nofun, List.forall_mem_singleton.mpr h⟩
  union h := (throughout_iff _).mpr ⟨hT _ nofun, h⟩

/-! ## The text of a type -/

/-- The characters in the text of a type that are not part of a name. -/
def marks : String := "fn()[]<>.,:| "

section

variable {Q : Char → Prop}

theorem made_of_marks (hmarks : Made Q marks) {s : String} (h : Made (· ∈ marks.toList) s) :
    Made Q s :=
  h.mono hmarks

mutual

/-- **The text of a type** is made of marks and of the characters in its names. -/
theorem made_text (hmarks : Made Q marks) : ∀ t : Ty, t.Spelled (Made Q) → Made Q t.text
  | native name, h => spelled_native.mp h
  | array item, h => by
    have hitem := made_text hmarks item h
    rw [text]
    split
    · exact made_append.mpr ⟨made_append.mpr ⟨made_of_marks hmarks (by decide), hitem⟩,
        made_of_marks hmarks (by decide)⟩
    · exact made_append.mpr ⟨hitem, made_of_marks hmarks (by decide)⟩
  | function params ret, h => by
    obtain ⟨hparams, hret⟩ := spelled_function.mp h
    have hsep : Made Q ", " := made_of_marks hmarks (by decide)
    have hlist := made_textList hmarks hsep params hparams
    rw [text]
    exact made_append.mpr ⟨made_append.mpr ⟨made_append.mpr ⟨made_of_marks hmarks (by decide),
      hlist⟩, made_of_marks hmarks (by decide)⟩, made_textRet hmarks ret hret⟩
  | variadic inner, h => by
    rw [text]
    exact made_append.mpr ⟨made_of_marks hmarks (by decide), made_text hmarks inner h⟩
  | generic name bound, h => by
    obtain ⟨hname, hbound⟩ := spelled_generic.mp h
    have hopen : Made Q ("<" ++ name) := made_append.mpr ⟨made_of_marks hmarks (by decide), hname⟩
    rw [text]
    exact made_append.mpr ⟨made_append.mpr ⟨hopen, made_textRet hmarks bound hbound⟩,
      made_of_marks hmarks (by decide)⟩
  | union members, h => by
    rw [text]
    exact made_textList hmarks (made_of_marks hmarks (by decide)) members (spelled_union.mp h)

theorem made_textList (hmarks : Made Q marks) {sep : String} (hsep : Made Q sep) :
    ∀ ts : List Ty, (∀ t ∈ ts, t.Spelled (Made Q)) → Made Q (textList sep ts)
  | [], _ => nofun
  | t :: ts, h => by
    obtain ⟨ht, hts⟩ := List.forall_mem_cons.mp h
    rw [textList]
    exact made_append.mpr ⟨made_text hmarks t ht, made_textTail hmarks hsep ts hts⟩

theorem made_textTail (hmarks : Made Q marks) {sep : String} (hsep : Made Q sep) :
    ∀ ts : List Ty, (∀ t ∈ ts, t.Spelled (Made Q)) → Made Q (textTail sep ts)
  | [], _ => nofun
  | t :: ts, h => by
    obtain ⟨ht, hts⟩ := List.forall_mem_cons.mp h
    rw [textTail]
    exact made_append.mpr ⟨made_append.mpr ⟨hsep, made_text hmarks t ht⟩,
      made_textTail hmarks hsep ts hts⟩

theorem made_textRet (hmarks : Made Q marks) :
    ∀ t? : Option Ty, (∀ t, t? = some t → t.Spelled (Made Q)) → Made Q (textRet t?)
  | none, _ => nofun
  | some t, h => by
    rw [textRet]
    exact made_append.mpr ⟨made_of_marks hmarks (by decide), made_text hmarks t (h t rfl)⟩

end

end

end Ty

/-! ## Annotations -/

namespace TypeExpr

variable {T : Ty → Prop} {meaning : Span → String → Except Error Ty}

mutual

/-- **An annotation stands for a type with the property if its names do.** -/
theorem resolveWith_composed (hT : Ty.Composed T) : ∀ (e : TypeExpr) {ty : Ty},
    (∀ span name ty, .type name ∈ e.references → meaning span name = .ok ty → T ty) →
    e.resolveWith meaning = .ok ty → T ty
  | named span name, _, hnames, h => hnames span name _ (List.mem_singleton_self _) h
  | array _ item, _, hnames, h => by
    simp only [resolveWith, Except.bind_eq_ok] at h
    obtain ⟨t, ht, h⟩ := h
    cases h
    exact hT.array (resolveWith_composed hT item hnames ht)
  | function _ params ret, _, hnames, h => by
    simp only [resolveWith, Except.bind_eq_ok] at h
    obtain ⟨ts, hts, r, hr, h⟩ := h
    cases h
    refine hT.function
      (resolveList_composed hT params (fun span name ty hname => hnames span name ty ?_) hts)
      (resolveOption_composed hT ret (fun span name ty hname => hnames span name ty ?_) hr)
    · exact List.mem_append_left _ hname
    · exact List.mem_append_right _ hname
  | variadic _ inner, _, hnames, h => by
    simp only [resolveWith, Except.bind_eq_ok] at h
    obtain ⟨t, ht, h⟩ := h
    cases h
    exact hT.variadic (resolveWith_composed hT inner hnames ht)
  | union _ members, _, hnames, h => by
    simp only [resolveWith, Except.bind_eq_ok] at h
    obtain ⟨ts, hts, h⟩ := h
    cases h
    exact hT.union (resolveList_composed hT members hnames hts)

theorem resolveList_composed (hT : Ty.Composed T) : ∀ (es : List TypeExpr) {tys : List Ty},
    (∀ span name ty, .type name ∈ referencesList es → meaning span name = .ok ty → T ty) →
    resolveList meaning es = .ok tys → ∀ ty ∈ tys, T ty
  | [], _, _, h => by
    cases h
    exact nofun
  | e :: es, _, hnames, h => by
    simp only [resolveList, Except.bind_eq_ok] at h
    obtain ⟨t, ht, ts, hts, h⟩ := h
    cases h
    refine List.forall_mem_cons.mpr
      ⟨resolveWith_composed hT e (fun span name ty hname => hnames span name ty ?_) ht,
        resolveList_composed hT es (fun span name ty hname => hnames span name ty ?_) hts⟩
    · exact List.mem_append_left _ hname
    · exact List.mem_append_right _ hname

theorem resolveOption_composed (hT : Ty.Composed T) : ∀ (e : Option TypeExpr) {r : Option Ty},
    (∀ span name ty, .type name ∈ referencesOption e → meaning span name = .ok ty → T ty) →
    resolveOption meaning e = .ok r → ∀ ty, r = some ty → T ty
  | none, _, _, h => by
    cases h
    exact nofun
  | some e, _, hnames, h => by
    simp only [resolveOption, Except.bind_eq_ok] at h
    obtain ⟨t, ht, h⟩ := h
    cases h
    rintro _ ⟨⟩
    exact resolveWith_composed hT e hnames ht

end

end TypeExpr

/-- **What a name stands for.** If native types with a name of some kind have the property, and the
types that can be seen have it, then so has whatever a name of that kind stands for, provided that
all names in aliases are of that kind. -/
theorem Scopes.meaning_composed {T : Ty → Prop} (hT : Ty.Composed T) {P : String → Prop}
    (hnative : ∀ name, P name → T (.native name)) {s : Scopes}
    (hseen : ∀ name ty, s.type? name = some ty → T ty) {aliases : Table AliasDecl}
    (haliases : ∀ name decl, aliases.get? name = some decl →
      Reference.Spelled P decl.ty.references)
    (more : Nat) (expanding : List String) (span : Span) {name : String} (hname : P name) {ty : Ty}
    (h : s.meaning aliases more expanding span name = .ok ty) : T ty := by
  -- Each alias that is looked into leaves fewer to look into.
  induction more using Nat.strongRecOn generalizing expanding span name ty with
  | ind more ih =>
    rcases meaning_ok h with htype | ⟨-, ⟨-, rfl⟩ | ⟨decl, fewer, halias, rfl, hdecl⟩⟩
    · exact hseen name ty htype
    · exact hnative name hname
    · exact TypeExpr.resolveWith_composed hT decl.ty
        (fun span other _ hmem => ih fewer (Nat.lt_succ_self fewer) (_ :: expanding) span
          (haliases name decl halias other hmem)) hdecl

/-- An annotation stands for a type with the property if native types and all types that can be seen
have it. -/
theorem Env.resolveIn_composed {T : Ty → Prop} (hT : Ty.Composed T)
    (hnative : ∀ name, T (.native name)) {env : Env} {scopes : Scopes}
    (hseen : ∀ name ty, scopes.type? name = some ty → T ty) {e : TypeExpr} {ty : Ty}
    (h : env.resolveIn scopes e = .ok ty) : T ty :=
  TypeExpr.resolveWith_composed hT e
    (fun span _ _ _ => Scopes.meaning_composed hT (fun name (_ : True) => hnative name) hseen
      (fun _ _ _ _ _ => trivial) _ _ span trivial) h

/-! ## What the target provides -/

open Lexer (IsWord)

theorem ConstantDef.spelled_of_find? {name : String} {c : ConstantDef}
    (h : ConstantDef.find? name = some c) : c.ty.Spelled IsWord := by
  have hall : ∀ c ∈ ConstantDef.all, c.ty.Spelled IsWord := by decide +kernel
  exact hall c (List.mem_of_find?_eq_some h)

theorem FunctionDef.spelled_of_find? {name : String} {f : FunctionDef}
    (h : FunctionDef.find? name = some f) :
    (∀ p ∈ f.params, p.ty.Spelled IsWord) ∧ ∀ ty ∈ f.ret, ty.Spelled IsWord := by
  have hall : ∀ f ∈ FunctionDef.all,
      (∀ p ∈ f.params, p.ty.Spelled IsWord) ∧ ∀ ty ∈ f.ret, ty.Spelled IsWord := by decide +kernel
  exact hall f (List.mem_of_find?_eq_some h)

theorem EventDef.spelled_of_find? {name : String} {trigger : EventDef}
    (h : EventDef.find? name = some trigger) : ∀ arg ∈ trigger.args, arg.ty.Spelled IsWord := by
  have hall : ∀ trigger ∈ EventDef.all, ∀ arg ∈ trigger.args, arg.ty.Spelled IsWord := by
    decide +kernel
  exact hall trigger (List.mem_of_find?_eq_some h)

end RuleScript
