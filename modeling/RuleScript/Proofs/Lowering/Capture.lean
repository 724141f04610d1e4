import RuleScript.Proofs.Lowering.Expansion
import RuleScript.Proofs.Lowering.Isolation

/-!
# What an alias stands for at different places

The body of an alias is expanded where the alias is used, with the types that can be seen there: a
generic in scope stands in for every name of its own in the body, and in the bodies of further
aliases. So an alias stands for the same at two places as long as the names that it leads to have
the same types there, or none. Where a generic has the name of one of them, its type is captured and
becomes part of what the alias stands for; a function can change the meaning of an alias by what it
calls its generics.

## Main results

* `Program.captures_capturedKey`: an alias with two meanings in one program
* `Env.resolveIn_alias`: what an alias stands for depends on the types of the names it leads to, and
  those that are found are in it
-/

namespace RuleScript

open Relation (ReflTransGen)

namespace Scopes

variable {s s' : Scopes} {aliases : Table AliasDecl}

/-- A name stands for the same where the names that it leads to have the same types. -/
theorem meaning_eq_of_agree {more : Nat} {stack : List String} {span : Span} {name : String}
    (h : ∀ other, ReflTransGen (s.Opens aliases) name other → s.type? other = s'.type? other) :
    s.meaning aliases more stack span name = s'.meaning aliases more stack span name := by
  induction more using Nat.strongRecOn generalizing stack span name with
  | ind more ih =>
    rw [meaning, meaning, ← h name .refl]
    cases hty : s.type? name with
    | some ty => rfl
    | none =>
      cases hdecl : aliases.get? name with
      | none => rfl
      | some decl =>
        cases more with
        | zero => rfl
        | succ fewer =>
          have hbody : decl.ty.resolveWith (s.meaning aliases fewer (name :: stack)) =
              decl.ty.resolveWith (s'.meaning aliases fewer (name :: stack)) :=
            TypeExpr.resolveWith_congr decl.ty fun span next hnext =>
              ih fewer (Nat.lt_succ_self fewer) fun other hother =>
                h other (.head ⟨hty, decl, hdecl, hnext⟩ hother)
          simp only [hbody]

/-- Where a name is used does not matter to what it stands for: an error is placed at a circle. -/
theorem meaning_place (span span' : Span) (name : String) :
    s.meaning aliases aliases.size [] span name = s.meaning aliases aliases.size [] span' name := by
  have hstart := Table.Expandable.start aliases
  cases hty : s.type? name with
  | some ty => rw [meaning_visible hty, meaning_visible hty]
  | none =>
    cases hdecl : aliases.get? name with
    | none => rw [meaning_native hty hdecl, meaning_native hty hdecl]
    | some decl =>
      obtain ⟨fewer, hmore, -⟩ := exists_step hstart hdecl List.not_mem_nil
      rw [hmore, meaning_expand hty hdecl List.not_mem_nil,
        meaning_expand hty hdecl List.not_mem_nil]

end Scopes

/-! ## An alias with two meanings -/

namespace Program

/-- A program in which an array of keys is one of texts, but not in a function whose generic is
called a key. -/
def capturedKey : Program :=
  let z := Span.zero
  let keys : Expr → Stmt := fun key =>
    .declare z "keys" (some (.named z "Keys")) (some (.array z none [key])) false
  ⟨[.typeAlias ⟨"Key", .named z "string", z⟩,
    .typeAlias ⟨"Keys", .array z (.named z "Key"), z⟩,
    .function ⟨"find", [⟨"Key", none, z⟩], [⟨"key", .named z "Key", z⟩], none,
      [keys (.ident z "key")], z⟩,
    .event ⟨"server", [], [keys (.string z "a"), .call z "find" [.number z 1.0]], z⟩]⟩

/-- The same alias is an array of texts in the event, and one of numbers in the function that the
event calls, although neither has a type of that name. -/
theorem captures_capturedKey : ∃ p q, Reached {} capturedKey p ∧ Reached {} capturedKey q ∧
    (∃ e constant, p.task =
      .stmt (.declare .zero "keys" (some (.named .zero "Keys")) (some e) constant)) ∧
    (∃ e constant, q.task =
      .stmt (.declare .zero "keys" (some (.named .zero "Keys")) (some e) constant)) ∧
    p.env.scopes.type? "Keys" = none ∧ q.env.scopes.type? "Keys" = none ∧
    p.env.resolve (.named .zero "Keys") = .ok (.array .string) ∧
    q.env.resolve (.named .zero "Keys") = .ok (.array .number) := by
  have hevents : capturedKey.events = [] ++ _ :: [] := rfl
  have hevent : Reached {} capturedKey _ := .event rfl hevents rfl rfl rfl
  have hcall := (hevent.step (.bodyTail rfl)).step .bodyHead
  have hbody := (hcall.step (.callee rfl rfl rfl)).step (.callBody rfl rfl rfl rfl)
  exact ⟨_, _, hevent.step .bodyHead, hbody.step .bodyHead, ⟨_, _, rfl⟩, ⟨_, _, rfl⟩, rfl, rfl,
    rfl, rfl⟩

end Program

/-! ## What an alias depends on -/

/-- **What an alias stands for depends on the types of the names it leads to.** Let a name be used
at two places of one program, with any scopes open. If every name that it leads to at the first,
through the aliases that can be seen there, has the same type at both or none at either, then it
stands for the same at both, or is the same error. Each type that is found on the way is part of
what the name stands for, so a generic with the name of something in the body of an alias is always
captured. -/
theorem Env.resolveIn_alias (env env' : Env) (hd : env.declarations = env'.declarations)
    (s s' : Scopes) (span span' : Span) (name : String) :
    ((∀ other, ReflTransGen (s.Opens env.declarations.aliases) name other →
        s.type? other = s'.type? other) →
      env.resolveIn s (.named span name) = env'.resolveIn s' (.named span' name)) ∧
    ∀ other t ty, ReflTransGen (s.Opens env.declarations.aliases) name other →
      s.type? other = some t → env.resolveIn s (.named span name) = .ok ty → t ∈ ty.nodes := by
  constructor
  · intro hagree
    calc env.resolveIn s (.named span name)
      _ = s.meaning env.declarations.aliases env.declarations.aliases.size [] span name := rfl
      _ = s'.meaning env.declarations.aliases env.declarations.aliases.size [] span name :=
        Scopes.meaning_eq_of_agree hagree
      _ = s'.meaning env.declarations.aliases env.declarations.aliases.size [] span' name :=
        Scopes.meaning_place span span' name
      _ = env'.resolveIn s' (.named span' name) := by rw [hd]; rfl
  · intro other t ty hother ht hok
    exact (expands_of_resolveIn hok).captures List.mem_cons_self hother ht

/-- The scope of a function with a generic of this name. -/
def Scopes.generic (name : String) : Scopes :=
  (Scopes.empty.push (.function "find" none)).declareType name (.generic name none)

/-- The names that an alias of `Env.aliased` leads to. -/
theorem Env.opens_aliased {s : Scopes} {other : String}
    (h : ReflTransGen (s.Opens Env.aliased.declarations.aliases) "Index" other) :
    other ∈ ["Index", "Key", "string", "number"] := by
  induction h with
  | refl => exact List.mem_cons_self
  | tail _ hopens ih =>
    obtain ⟨-, decl, hdecl, hmem⟩ := hopens
    simp only [List.mem_cons, List.not_mem_nil, or_false] at ih
    rcases ih with rfl | rfl | rfl | rfl <;> cases hdecl <;>
      simp [TypeExpr.references, TypeExpr.referencesList, TypeExpr.referencesOption] at hmem
    · simp [hmem]
    · rcases hmem with rfl | rfl <;> simp

theorem Env.resolveIn_alias_aliased :
    Env.aliased.resolveIn .empty (.named .zero "Index") =
      Env.aliased.resolveIn (.generic "Value") (.named ⟨4, 9⟩ "Index") ∧
    ∃ ty, Env.aliased.resolveIn (.generic "Key") (.named .zero "Index") = .ok ty ∧
      .generic "Key" none ∈ ty.nodes := by
  constructor
  · refine (Env.resolveIn_alias Env.aliased Env.aliased rfl .empty (.generic "Value") .zero ⟨4, 9⟩
      "Index").1 fun other h => ?_
    have hother := Env.opens_aliased h
    simp only [List.mem_cons, List.not_mem_nil, or_false] at hother
    rcases hother with rfl | rfl | rfl | rfl <;> rfl
  · have hopens : (Scopes.generic "Key").Opens Env.aliased.declarations.aliases "Index" "Key" :=
      ⟨rfl, _, rfl, by decide⟩
    exact ⟨_, rfl, (Env.resolveIn_alias Env.aliased Env.aliased rfl (.generic "Key") .empty .zero
      .zero "Index").2 "Key" _ _ (.single hopens) rfl rfl⟩

end RuleScript
