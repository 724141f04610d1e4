import RuleScript.Proofs.Typing.Lowered

/-!
# Generics that are inferred

Inside a call a generic is a name of the type that the arguments have bound it to. A generic that
the arguments leave open stays a generic, and then a type with a generic can get into the rules: as
the type of a variable that the body declares with it, or as that of a parameter whose argument
suited another member of a union. Only the type of the return value is checked.

Where the arguments of every call bind all generics of the function, nothing is left open: no type
anywhere in the rules has a generic. A function that has a parameter for each of its generics is
always called in this way.

## Main definitions

* `Rule.Resolved`: no type in the rule has a generic
* `Program.Infers`: every call binds all generics of its function
* `FunctionDecl.Pinned`: each generic of the function is the type of a parameter, or of its items

## Main results

* `Program.leaks_openVariable_untriedMember`: a generic that is left open gets into the rules
* `Program.lower_resolved`: if all generics are bound then none gets into the rules
* `Program.infers_of_pinned`: a program of pinned functions binds all generics
-/

namespace RuleScript

/-! ## What the arguments of a call bind -/

namespace FunctionDecl

/-- The generics are bound to types with the properties of the arguments. -/
theorem checkArguments_bound {T : Ty → Prop} (hT : Ty.PassedDown T) {env : Env}
    {function : String} {span : Span} {index : Nat} {bindings bindings' : Bindings}
    {args : List (Param × Ty)} (hs : bindings.All T) (hargs : ∀ arg ∈ args, T arg.2)
    (h : checkArguments env function span index bindings args = .ok bindings') :
    bindings'.All T :=
  checkArguments_keeps (fun arg harg wanted _ depth =>
    Solve.compare_bound hT depth wanted (hargs arg harg)) hs h

/-! ## Calls that bind all generics -/

/-- What the generics of a function stand for in a call with arguments of these types, if the
arguments suit the parameters. -/
def bindings? (decl : FunctionDecl) (declarations : Declarations) (args : List Ty) :
    Option Bindings :=
  let env : Env := { declarations, maxInlineDepth := 0 }
  (do
    let scopes ← declareGenerics env (env.scopes.push (.function decl.name none)) decl.generics
    checkArguments { env with scopes } decl.name decl.span 0 .empty
      (decl.params.zip args)).toOption

/-- Arguments of these types bind all generics of the function. -/
def Infers (decl : FunctionDecl) (declarations : Declarations) (args : List Ty) : Prop :=
  ∃ bindings, decl.bindings? declarations args = some bindings ∧
    ∀ g ∈ decl.generics, (bindings.get? g.name).isSome

variable {declarations : Declarations} {decl : FunctionDecl} {args : List Ty}
  {generics types : Table Ty}

/-- The types of a call come from the bindings of its generics. -/
theorem Typed.bindings? (h : Typed declarations decl args generics types) :
    ∃ bindings, decl.bindings? declarations args = some bindings ∧
      checkArguments ⟨declarations, 0, [], ⟨[⟨.function decl.name none, .empty, generics⟩]⟩⟩
        decl.name decl.span 0 .empty (decl.params.zip args) = .ok bindings ∧
      bindGenerics bindings ⟨[⟨.function decl.name none, .empty, generics⟩]⟩ decl.generics =
        ⟨[⟨.function decl.name none, .empty, types⟩]⟩ := by
  obtain ⟨bindings, hbindings, htypes⟩ := h.bound
  have hdeclared := h.declared { declarations, maxInlineDepth := 0 } rfl []
  have hchecked := hbindings { declarations, maxInlineDepth := 0 } rfl [] decl.span
  refine ⟨bindings, ?_, hchecked, htypes []⟩
  have hsome : ∀ {x : Except Error Bindings}, x = .ok bindings → x.toOption = some bindings := by
    rintro x rfl
    rfl
  exact hsome (Except.bind_eq_ok.mpr ⟨_, hdeclared, hchecked⟩)

/-- **The generics of a call stand for types without generics** if they are all bound and the types
of the arguments have none. -/
theorem Typed.resolved (h : Typed declarations decl args generics types)
    (hargs : ∀ ty ∈ args, ty.hasGeneric = false) (hinfers : decl.Infers declarations args)
    {name : String} {ty : Ty} (hty : types.get? name = some ty) : ty.hasGeneric = false := by
  obtain ⟨bindings, hsome, hchecked, hbound⟩ := h.bindings?
  obtain ⟨bindings', hsome', hall⟩ := hinfers
  obtain rfl := Option.some.inj (hsome.symm.trans hsome')
  have hresolved := checkArguments_bound Ty.passedDown_hasGeneric Bindings.all_empty
    (fun arg hmem => hargs arg.2 (List.of_mem_zip hmem).2) hchecked
  rw [get?_bindGenerics hbound] at hty
  have hdeclared := h.declared { declarations, maxInlineDepth := 0 } rfl []
  rcases get?_declareGenerics hdeclared name with ⟨hnot, hget⟩ | ⟨hmem, -⟩
  · rw [if_neg hnot, hget] at hty
    cases hty
  · obtain ⟨g, hg, rfl⟩ := List.mem_map.mp hmem
    obtain ⟨found, hfound⟩ := Option.isSome_iff_exists.mp (hall g hg)
    rw [if_pos hmem, hfound, Option.some_or] at hty
    cases hty
    exact hresolved g.name ty hfound

end FunctionDecl

/-! ## Programs whose calls bind all generics -/

/-- The action does not give a variable a type with a generic. -/
def Action.Resolved (a : Action) : Prop := Ty.optionGeneric a.declared? = false

/-- The type of the value has no generic. -/
def Value.Resolved (v : Value) : Prop := v.ty.hasGeneric = false

/-- No type in the rule has a generic: neither that of a variable nor that of a value, at any
depth. -/
def Rule.Resolved (r : Rule) : Prop := Action.Throughout Action.Resolved Value.Resolved r.body

instance : DecidablePred Action.Resolved :=
  fun a => inferInstanceAs (Decidable (Ty.optionGeneric a.declared? = false))

instance : DecidablePred Value.Resolved :=
  fun v => inferInstanceAs (Decidable (v.ty.hasGeneric = false))

instance : DecidablePred Rule.Resolved :=
  fun r => inferInstanceAs (Decidable (Action.Throughout Action.Resolved Value.Resolved r.body))

namespace Program

variable {options : Options} {program : Program} {rules : List Rule} {st : LowerState}

/-- Every call that lowering comes to with arguments whose types have no generics binds all generics
of its function. -/
def Infers (options : Options) (program : Program) : Prop :=
  ∀ {env n st decl args span}, Reached options program ⟨.call decl args span, env, n, st⟩ →
    (∀ v ∈ args, v.Resolved) → decl.Infers env.declarations (args.map (·.ty))

/-- Whether the program is lowered without an error, to rules that have a type with a generic. -/
def leaks (program : Program) : Bool :=
  match program.lower {} with
  | .ok rules _ => decide (¬ ∀ r ∈ rules, r.Resolved)
  | .error _ _ => false

theorem exists_of_leaks (h : program.leaks = true) :
    ∃ rules st, program.lower {} = .ok rules st ∧ ¬ ∀ r ∈ rules, r.Resolved := by
  rw [leaks] at h
  split at h
  case h_1 rules st hlower => exact ⟨rules, st, hlower, of_decide_eq_true h⟩
  case h_2 => cases h

/-- A program that calls a function with a generic which is no type of a parameter, and declares a
variable of it. -/
def openVariable : Program :=
  let z := Span.zero
  ⟨[.function ⟨"f", [⟨"T", none, z⟩], [], none,
      [.declare z "x" (some (.named z "T")) (some (.number z 5.0)) false], z⟩,
    .event ⟨"server", [], [.call z "f" []], z⟩]⟩

/-- A program that calls a function with an argument that suits the first member of a union, so that
the second is not looked at. -/
def untriedMember : Program :=
  let z := Span.zero
  ⟨[.function ⟨"f", [⟨"T", none, z⟩], [⟨"a", .union z [.named z "number", .named z "T"], z⟩], none,
      [.declare z "x" none (some (.ident z "a")) false], z⟩,
    .event ⟨"server", [], [.call z "f" [.number z 1.0]], z⟩]⟩

/-- A generic that no argument binds gets into the rules. -/
theorem leaks_openVariable_untriedMember :
    (∃ rules st, openVariable.lower {} = .ok rules st ∧ ¬ ∀ r ∈ rules, r.Resolved) ∧
    ∃ rules st, untriedMember.lower {} = .ok rules st ∧ ¬ ∀ r ∈ rules, r.Resolved := by
  constructor
  · exact exists_of_leaks (by decide +kernel)
  · exact exists_of_leaks (by decide +kernel)

/-- **Where all generics are bound, none gets into the rules.** If every call that lowering comes to
binds all generics of its function, then no type in the rules has a generic, neither that of a
variable nor that of a value, at any depth. -/
theorem lower_resolved (h : program.lower options = .ok rules st)
    (hinfers : program.Infers options) : ∀ r ∈ rules, r.Resolved := by
  have hbinds : program.BindsTo (·.hasGeneric = false) options := by
    intro env n st decl args span generics types hp hargs htyped name ty hty
    refine htyped.resolved ?_ (hinfers hp hargs) hty
    simpa using hargs
  intro r hr
  refine (lower_wellTyped Ty.inherited_hasGeneric hbinds h r hr).mono (fun a ha => ?_) fun v hv =>
    hv.ty
  exact Ty.optionGeneric_eq_false.mpr ha.declared

end Program

/-! ## Functions with a parameter for each generic -/

/-- A candidate without generics that satisfies the type binds the generic of this name: it is the
type, or that of its items. -/
def Ty.pins (name : String) : Ty → Bool
  | generic n _ => n == name
  | array item => item.pins name
  | variadic inner => inner.pins name
  | native _ | function _ _ | union _ => false

/-- The annotation stands for such a type wherever the name is a generic. -/
def TypeExpr.pins (name : String) : TypeExpr → Bool
  | named _ n => n == name
  | array _ item => item.pins name
  | variadic _ inner => inner.pins name
  | function _ _ _ | union _ _ => false

/-- An annotation that is a generic, or has it as its items, stands for a type that does. -/
theorem Env.resolve_pins {env : Env} {name : String} {bound : Option Ty}
    (hname : env.scopes.type? name = some (.generic name bound)) :
    ∀ (e : TypeExpr) {ty : Ty}, e.pins name = true → env.resolve e = .ok ty → ty.pins name = true
  | .named span n, ty, hpins, h => by
    obtain rfl : n = name := by simpa [TypeExpr.pins] using hpins
    rcases Scopes.meaning_ok h with htype | ⟨hnone, -⟩
    · rw [hname] at htype
      cases htype
      simp [Ty.pins]
    · rw [hname] at hnone
      cases hnone
  | .array _ item, _, hpins, h => by
    simp only [resolve, resolveIn, TypeExpr.resolveWith, Except.bind_eq_ok] at h
    obtain ⟨t, ht, h⟩ := h
    cases h
    have hitem := resolve_pins hname item hpins ht
    exact hitem
  | .variadic _ inner, _, hpins, h => by
    simp only [resolve, resolveIn, TypeExpr.resolveWith, Except.bind_eq_ok] at h
    obtain ⟨t, ht, h⟩ := h
    cases h
    have hinner := resolve_pins hname inner hpins ht
    exact hinner
  | .function _ _ _, _, hpins, _ => by cases hpins
  | .union _ _, _, hpins, _ => by cases hpins

/-- That a pinning type binds the generic follows the rules of comparison. -/
theorem Solve.rules_pins (f : Bindings) (name : String) :
    Rules f fun c k => k.hasGeneric = false → c.pins name = true → (f.get? name).isSome where
  any _ _ hc := by cases hc
  native _ _ hc := by cases hc
  array h hk hc := h hk hc
  function _ _ _ hc := by cases hc
  variadic h hk hc := h hk hc
  same _ _ _ hk := by cases hk
  bound hget _ _ hc := by
    rw [← eq_of_beq hc, hget]
    rfl
  taken hget _ hc := by
    rw [← eq_of_beq hc, hget]
    rfl
  union _ _ hc := by cases hc

/-- **A comparison with a pinning type binds the generic** if it succeeds. -/
theorem Solve.compare_pins {name : String} (depth : Nat) {c k : Ty} {s s' : Bindings}
    (hc : c.pins name = true) (hk : k.hasGeneric = false) (h : compare depth c k s = .ok true s') :
    (s'.get? name).isSome :=
  (compare_shows (rules_pins s' name) depth c k).holds h (.refl s') hk hc

namespace FunctionDecl

/-- Each generic of the function is the type of a parameter, or that of its items. -/
def Pinned (decl : FunctionDecl) : Prop :=
  ∀ g ∈ decl.generics, ∃ p ∈ decl.params, p.ty.pins g.name = true

instance : DecidablePred Pinned := fun decl =>
  inferInstanceAs (Decidable (∀ g ∈ decl.generics, ∃ p ∈ decl.params, p.ty.pins g.name = true))

/-- An argument for a pinning parameter binds the generic. -/
theorem checkArguments_pins {env : Env} {function name : String} {span : Span} {index : Nat}
    {bindings bindings' : Bindings} {args : List (Param × Ty)} {p : Param} {given : Ty}
    {bound : Option Ty} (hname : env.scopes.type? name = some (.generic name bound))
    (hpins : p.ty.pins name = true) (hgiven : given.hasGeneric = false) (hmem : (p, given) ∈ args)
    (h : checkArguments env function span index bindings args = .ok bindings') :
    (bindings'.get? name).isSome := by
  obtain ⟨wanted, s, s', hwanted, hfits, hgrows⟩ := checkArguments_each h hmem
  have hbound := Solve.compare_pins _ (Env.resolve_pins hname p.ty hpins hwanted) hgiven
    (Ty.fitsWith_ok hfits)
  obtain ⟨ty, hty⟩ := Option.isSome_iff_exists.mp hbound
  rw [hgrows name ty hty]
  rfl

/-- **A call of a pinned function binds all its generics.** -/
theorem Typed.infers {declarations : Declarations} {decl : FunctionDecl} {args : List Ty}
    {generics types : Table Ty} (h : Typed declarations decl args generics types)
    (hpinned : decl.Pinned) (hlen : args.length = decl.params.length)
    (hargs : ∀ ty ∈ args, ty.hasGeneric = false) : decl.Infers declarations args := by
  obtain ⟨bindings, hsome, hchecked, -⟩ := h.bindings?
  refine ⟨bindings, hsome, fun g hg => ?_⟩
  obtain ⟨p, hp, hpins⟩ := hpinned g hg
  obtain ⟨i, hi, rfl⟩ := List.mem_iff_getElem.mp hp
  have hi' : i < args.length := hlen ▸ hi
  have hmem : (decl.params[i], args[i]) ∈ decl.params.zip args := by
    rw [← List.getElem_zip (h := by simpa using ⟨hi, hi'⟩)]
    exact List.getElem_mem _
  have hdeclared := h.declared { declarations, maxInlineDepth := 0 } rfl []
  rcases get?_declareGenerics hdeclared g.name with ⟨hnot, -⟩ | ⟨-, bound, hget⟩
  · exact absurd (List.mem_map_of_mem hg) hnot
  · have hname : (⟨[⟨.function decl.name none, .empty, generics⟩]⟩ : Scopes).type? g.name =
        some (.generic g.name bound) := (Scopes.type?_function rfl).trans hget
    exact checkArguments_pins hname hpins (hargs _ (List.getElem_mem hi')) hmem hchecked

end FunctionDecl

namespace Program

variable {options : Options} {program : Program} {rules : List Rule} {st : LowerState}

/-- The functions of a program in their order. -/
def functions (program : Program) : List FunctionDecl :=
  program.items.filterMap fun
    | .function f => some f
    | _ => none

/-- A function that is declared in a program is one of its functions. -/
theorem mem_functions {declarations : Declarations} {name : String} {decl : FunctionDecl}
    (h : Declarations.collect program = .ok declarations)
    (hdecl : declarations.functions.get? name = some decl) : decl ∈ program.functions := by
  suffices hleft : ∀ (items : List Item) (d : Declarations),
      items.foldlM Declarations.add d = .ok declarations →
      (∃ name, d.functions.get? name = some decl) ∨ Item.function decl ∈ items by
    rcases hleft program.items {} h with ⟨_, hnone⟩ | hmem
    · cases hnone
    · exact List.mem_filterMap.mpr ⟨_, hmem, rfl⟩
  intro items
  induction items with
  | nil =>
    intro d hd
    cases hd
    exact .inl ⟨name, hdecl⟩
  | cons item items ih =>
    intro d hd
    rw [List.foldlM_cons, Except.bind_eq_ok] at hd
    obtain ⟨d', hadd, hd⟩ := hd
    rcases ih d' hd with ⟨n, hn⟩ | hmem
    · cases item with
      | event e =>
        cases hadd
        exact .inl ⟨n, hn⟩
      | typeAlias a =>
        rw [Declarations.add] at hadd
        split at hadd
        · cases hadd
        · cases hadd
          exact .inl ⟨n, hn⟩
      | function f =>
        rw [Declarations.add] at hadd
        split at hadd
        · cases hadd
        · cases hadd
          by_cases hname : n = f.name
          · subst hname
            obtain rfl := Option.some.inj ((Table.get?_insert_self _ _ _).symm.trans hn)
            exact .inr List.mem_cons_self
          · exact .inl ⟨n, (Table.get?_insert_of_ne _ _ hname).symm.trans hn⟩
    · exact .inr (List.mem_cons_of_mem _ hmem)

/-- A call has as many arguments as its function has parameters. -/
theorem Reached.arity {env : Env} {n : Nat} {t : LowerState} {decl : FunctionDecl}
    {args : List Value} {span : Span} (h : program.lower options = .ok rules st)
    (hp : Reached options program ⟨.call decl args span, env, n, t⟩) :
    args.length = decl.params.length := by
  cases hp with
  | step hp hstep =>
    cases hstep with
    | callee hcall hdecl hvs =>
      obtain ⟨splice, vs, t, out, u, hmay, -⟩ := Point.succeeds_own hcall hdecl (hp.succeeds h)
      rw [Expr.lowerList_length hvs]
      exact hmay.arity

/-- **A program of pinned functions binds all generics.** -/
theorem infers_of_pinned (h : program.lower options = .ok rules st)
    (hpinned : ∀ decl ∈ program.functions, decl.Pinned) : program.Infers options := by
  intro env n st' decl args span hp hargs
  obtain ⟨⟨out, u, hinline⟩, ⟨name, hdecl⟩, -⟩ := hp.succeeds h
  obtain ⟨generics, types, -, -, -, -, -, -, htyped, -⟩ := FunctionDecl.inline_entered_ok hinline
  refine htyped.infers (hpinned decl ?_) ?_ ?_
  · exact mem_functions hp.collect hdecl
  · rw [List.length_map]
    exact hp.arity h
  · exact List.forall_mem_map.mpr hargs

/-- A program with a function that declares variables of its generic, which its parameters pin. -/
def keptItem : Program :=
  let z := Span.zero
  let generic : TypeExpr := .named z "T"
  ⟨[.function ⟨"keep", [⟨"T", none, z⟩],
      [⟨"item", generic, z⟩, ⟨"items", .array z generic, z⟩], some (.array z generic),
      [.declare z "kept" (some generic) (some (.ident z "item")) false,
        .assign z "kept" (.index z (.ident z "items") (.number z 0.0)),
        .ret z (some (.array z (some generic) [.ident z "kept", .ident z "item"]))], z⟩,
    .event ⟨"server", [],
      [.declare z "xs" none
        (some (.call z "keep" [.number z 1.0, .array z none [.number z 2.0]])) false], z⟩]⟩

theorem lower_resolved_keptItem : ∃ rules st, keptItem.lower {} = .ok rules st ∧
    keptItem.Infers {} ∧ ∀ r ∈ rules, r.Resolved := by
  obtain ⟨rules, st, hlower⟩ : ∃ rules st, keptItem.lower {} = .ok rules st :=
    exists_of_lowers (by decide +kernel)
  have hinfers : keptItem.Infers {} := infers_of_pinned hlower (by decide)
  exact ⟨rules, st, hlower, hinfers, lower_resolved hlower hinfers⟩

end Program

end RuleScript
