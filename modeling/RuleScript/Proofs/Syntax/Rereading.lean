import RuleScript.Proofs.Lexing.Spelling
import RuleScript.Proofs.Syntax.TypeReading
import RuleScript.Ty.Annotation
import RuleScript.Ty.Text

/-!
# What the text of a type is read as

The text of a type has parentheses around the item of an array only. Where other parts would need
them, brackets, bars and points belong to something else than they did in the type: brackets to what
stands right before them, a bar to the return type before it, points to the first member of a union.

Reading follows the right end of a text. What is read so far is of the form of `Ty.Spells`; the end
of such a form is open to brackets, or to a bar with more members behind it, and whatever they
become part of is found by going down along the last parts.

## Main definitions

* `Ty.tokens`: the tokens in the text of a type
* `Ty.looseness`: how loosely a text is held together
* `Ty.bracketed`, `Ty.barred`, `Ty.dotted`: what brackets, a bar or points make of a type
* `Ty.reread`: what the text of a type is read as
* `Ty.Spells`: tokens as they are read, along their right end

## Main results

* `Ty.spells_tokens`: the tokens of a type are read as `Ty.reread` says
-/

namespace RuleScript

open Token (enclosed separated behind)

namespace Ty

/-! ## Tokens -/

mutual

/-- The tokens in the text of a type. A generic has no written form. -/
def tokens : Ty → List Token
  | native name => [.ident name]
  | array item => enclosed item.needsParens item.tokens ++ [.symbol .lbracket, .symbol .rbracket]
  | function params ret =>
    .keyword .fn_ :: .symbol .lparen :: separated .comma (tokensList params)
      ++ .symbol .rparen :: behind .colon (tokensOption ret)
  | variadic inner => .symbol .ellipsis :: inner.tokens
  | generic _ _ => []
  | union members => separated .pipe (tokensList members)

/-- The tokens in the texts of some types. -/
def tokensList : List Ty → List (List Token)
  | [] => []
  | t :: ts => t.tokens :: tokensList ts

/-- The tokens in the text of a type that may be missing. -/
def tokensOption : Option Ty → Option (List Token)
  | none => none
  | some t => some t.tokens

end

theorem tokensList_eq (ts : List Ty) : tokensList ts = ts.map tokens := by
  induction ts with
  | nil => rfl
  | cons t ts ih => rw [tokensList, ih, List.map_cons]

/-! ## Types read from text -/

/-- How loosely the text of a type is held together: brackets behind it belong to the whole type
only at `0`, and a bar only up to `1`. At `2` the text ends in a return type, at `3` in the last
member of a union. -/
def looseness : Ty → Nat
  | function _ (some _) => 2
  | variadic inner => if inner.looseness ≤ 1 then 1 else 2
  | union _ => 3
  | _ => 0

/-- The members of a union. Every other type is its only member. -/
def members : Ty → List Ty
  | union members => members
  | t => [t]

mutual

/-- Changes the end of a type: the whole of it if that is held together within the limit, else its
last part. -/
def atEnd (limit : Nat) (f : Ty → Ty) : Ty → Ty
  | function params (some ret) => function params (some (atEnd limit f ret))
  | variadic inner =>
    if (variadic inner).looseness ≤ limit then f (variadic inner)
    else variadic (atEnd limit f inner)
  | union members => union (atEndLast limit f members)
  | t => f t

/-- Changes the end of the last of some members. -/
def atEndLast (limit : Nat) (f : Ty → Ty) : List Ty → List Ty
  | [] => []
  | [t] => (atEnd limit f t).members
  | t :: u :: ts => t :: atEndLast limit f (u :: ts)

end

/-- What brackets behind the text of a type make of it. -/
def bracketed : Ty → Ty := atEnd 0 array

/-- What a bar and more members behind the text of a type make of it. -/
def barred (t others : Ty) : Ty := atEnd 1 (fun last => union (last :: others.members)) t

/-- What points before the text of a type make of it. -/
def dotted : Ty → Ty
  | union members => union (members.modifyHead variadic)
  | t => variadic t

mutual

/-- What the text of a type is read as. -/
def reread : Ty → Ty
  | native name => native name
  | array item => if item.needsParens then array item.reread else item.reread.bracketed
  | function params ret => function (rereadList params) (rereadOption ret)
  | variadic inner => inner.reread.dotted
  | generic name bound => generic name bound
  | union members => rereadMembers members

/-- What the texts of some types are read as. -/
def rereadList : List Ty → List Ty
  | [] => []
  | t :: ts => t.reread :: rereadList ts

/-- What the text of a type that may be missing is read as. -/
def rereadOption : Option Ty → Option Ty
  | none => none
  | some t => some t.reread

/-- What the texts of some types with bars between them are read as. -/
def rereadMembers : List Ty → Ty
  | [] => union []
  | [t] => t.reread
  | t :: u :: ts => t.reread.barred (rereadMembers (u :: ts))

end

theorem rereadList_eq (ts : List Ty) : rereadList ts = ts.map reread := by
  induction ts with
  | nil => rfl
  | cons t ts ih => rw [rereadList, ih, List.map_cons]

/-! ### The end of a type -/

variable {t u : Ty} {ts : List Ty} {limit : Nat} {f : Ty → Ty}

@[simp] theorem looseness_native (name : String) : (native name).looseness = 0 := rfl

@[simp] theorem looseness_array (item : Ty) : (array item).looseness = 0 := rfl

@[simp] theorem looseness_function (params : List Ty) :
    (function params none).looseness = 0 := rfl

@[simp] theorem looseness_returning (params : List Ty) (ret : Ty) :
    (function params (some ret)).looseness = 2 := rfl

@[simp] theorem looseness_union (members : List Ty) : (union members).looseness = 3 := rfl

theorem looseness_variadic_le (inner : Ty) : (variadic inner).looseness ≤ 2 := by
  rw [looseness]
  split <;> decide

/-- Points hold no more loosely than what stands behind them. -/
theorem looseness_variadic_le_one (h : t.looseness ≤ 1) : (variadic t).looseness ≤ 1 := by
  simp [looseness, h]

theorem exists_eq_union (h : 2 < t.looseness) : ∃ ts, t = union ts := by
  cases t with
  | union ts => exact ⟨ts, rfl⟩
  | variadic inner => exact absurd (looseness_variadic_le inner) (Nat.not_le.mpr h)
  | function params ret => cases ret <;> simp at h
  | _ => simp [looseness] at h

theorem members_of_looseness_le (h : t.looseness ≤ 2) : t.members = [t] := by
  cases t with
  | union ts => simp at h
  | _ => rfl

theorem atEnd_of_looseness_le (h : t.looseness ≤ limit) (hlimit : limit ≤ 1) :
    atEnd limit f t = f t := by
  cases t with
  | function params ret =>
    cases ret with
    | none => rfl
    | some ret =>
      rw [looseness_returning] at h
      omega
  | variadic inner => rw [atEnd, if_pos h]
  | union ts =>
    rw [looseness_union] at h
    omega
  | _ => rfl

/-- What is no union does not become one, unless the whole of it is changed. -/
theorem looseness_atEnd_le (h : t.looseness ≤ 2)
    (hf : t.looseness ≤ limit → (f t).looseness ≤ 2) : (atEnd limit f t).looseness ≤ 2 := by
  cases t with
  | function params ret =>
    cases ret with
    | none => exact hf (Nat.zero_le _)
    | some ret => exact Nat.le_refl 2
  | variadic inner =>
    rw [atEnd]
    split
    · exact hf ‹_›
    · exact looseness_variadic_le _
  | union ts => simp at h
  | _ => exact hf (Nat.zero_le _)

/-- Brackets pass over points. -/
theorem bracketed_variadic (inner : Ty) :
    (variadic inner).bracketed = variadic inner.bracketed := by
  refine if_neg fun h => ?_
  rw [looseness] at h
  split at h <;> cases h

/-- The end of a union is the end of its last member. -/
theorem atEndLast_cons (hu : u.members ≠ []) :
    atEndLast limit f (t :: u.members) = t :: (atEnd limit f u).members := by
  cases u with
  | union us =>
    obtain ⟨u, us, rfl⟩ := List.exists_cons_of_ne_nil hu
    rfl
  | _ => rfl

/-! ## Annotations for types -/

mutual

/-- An annotation for a type. There is none for a generic. -/
def expr : Ty → TypeExpr
  | native name => .named .zero name
  | array item => .array .zero item.expr
  | function params ret => .function .zero (exprs params) (exprOption ret)
  | variadic inner => .variadic .zero inner.expr
  | generic name _ => .named .zero name
  | union members => .union .zero (exprs members)

/-- Annotations for some types. -/
def exprs : List Ty → List TypeExpr
  | [] => []
  | t :: ts => t.expr :: exprs ts

/-- An annotation for a type that may be missing. -/
def exprOption : Option Ty → Option TypeExpr
  | none => none
  | some t => some t.expr

end

theorem exprs_eq (ts : List Ty) : exprs ts = ts.map expr := by
  induction ts with
  | nil => rfl
  | cons t ts ih => rw [exprs, ih, List.map_cons]

theorem ofTypeExprs_eq (es : List TypeExpr) : ofTypeExprs es = es.map ofTypeExpr := by
  induction es with
  | nil => rfl
  | cons e es ih => rw [ofTypeExprs, ih, List.map_cons]

/-! ## Types that can be written -/

mutual

/-- Whether the type can be written: its names are names, its unions have two members or more, and
there is no generic in it. -/
def writable : Ty → Bool
  | native name => Token.isName name
  | array item => item.writable
  | function params ret => writableList params && writableOption ret
  | variadic inner => inner.writable
  | generic _ _ => false
  | union members => 2 ≤ members.length && writableList members

/-- Whether some types can be written. -/
def writableList : List Ty → Bool
  | [] => true
  | t :: ts => t.writable && writableList ts

/-- Whether a type that may be missing can be written. -/
def writableOption : Option Ty → Bool
  | none => true
  | some t => t.writable

end

/-! ## Tokens as they are read -/

open TypeExpr (ReadsStem ReadsAtom ReadsWhole ReadsMembers)

/-- Tokens as they are read, along their right end. What stands before the end is read as it is; the
end itself is open, so that brackets or a bar can be put behind it. -/
inductive Spells : List Token → Ty → Prop
  | closed (ts : List Token) (t : Ty) : t.looseness = 0 → ofTypeExpr t.expr = t →
    ReadsStem ts t.expr → Spells ts t
  | variadic (ts : List Token) (inner : Ty) : inner.looseness ≤ 2 → Spells ts inner →
    Spells (.symbol .ellipsis :: ts) (variadic inner)
  | function (head : List Token) (params : List Ty) (ts : List Token) (ret : Ty) :
    ofTypeExprs (exprs params) = params →
    (∀ us u, ReadsWhole us u →
      ReadsAtom [.pipe] (head ++ us) (.function .zero (exprs params) (some u))) →
    Spells ts ret → Spells (head ++ ts) (function params (some ret))
  | union (ts : List Token) (t : Ty) (us : List Token) (u : Ty) : t.looseness ≤ 1 →
    ofTypeExpr t.expr = t → ReadsAtom [] ts t.expr → Spells us u →
    Spells (ts ++ .symbol .pipe :: us) (union (t :: u.members))

/-- The tokens are read as an annotation for a type of some looseness. -/
def ReadsLoose : Nat → List Token → TypeExpr → Prop
  | 0 => ReadsStem
  | 1 => ReadsAtom []
  | 2 => ReadsAtom [.pipe]
  | _ + 3 => ReadsWhole

namespace ReadsLoose

variable {n : Nat} {ts : List Token} {e : TypeExpr}

theorem bars (h : ReadsLoose n ts e) (hn : n ≤ 1) : ReadsAtom [] ts e := by
  match n, hn with
  | 0, _ => exact ReadsStem.atom h
  | 1, _ => exact h

theorem last (h : ReadsLoose n ts e) (hn : n ≤ 2) : ReadsAtom [.pipe] ts e := by
  match n, hn with
  | 0, _ => exact (ReadsStem.atom h).mono (by simp)
  | 1, _ => exact ReadsAtom.mono h (by simp)
  | 2, _ => exact h

theorem whole (h : ReadsLoose n ts e) : ReadsWhole ts e := by
  match n with
  | 0 | 1 | 2 => exact (last h (by decide)).whole
  | _ + 3 => exact h

end ReadsLoose

namespace Spells

variable {ts us more : List Token}

theorem ofTypeExpr_expr (h : Spells ts t) : ofTypeExpr t.expr = t := by
  induction h with
  | closed ts t _ hexpr => exact hexpr
  | variadic ts inner _ _ ih => rw [expr, ofTypeExpr, ih]
  | function head params ts ret hparams _ _ ih =>
    rw [expr, ofTypeExpr, hparams, exprOption, ofTypeExpr?, ih]
  | union ts t us u _ ht _ _ ih =>
    have hu : ofTypeExprs (exprs u.members) = u.members := by
      cases u with
      | union us => simpa [expr, ofTypeExpr, members] using ih
      | _ => simpa [members, exprs, ofTypeExprs] using ih
    rw [expr, exprs, ofTypeExpr, ofTypeExprs, ht, hu]

theorem members_ne_nil (h : Spells ts t) : t.members ≠ [] := by
  cases h with
  | closed _ _ hclosed =>
    rw [members_of_looseness_le (by omega)]
    exact List.cons_ne_nil _ _
  | variadic | function | union => exact List.cons_ne_nil _ _

/-- A union has two members at least, and its first member is no union. -/
theorem exists_of_union {ms : List Ty} (h : Spells ts (Ty.union ms)) :
    ∃ t u us, ms = t :: u :: us ∧ t.looseness ≤ 1 := by
  cases h with
  | closed _ _ hclosed => simp at hclosed
  | union ts t us u ht _ _ hu =>
    obtain ⟨v, vs, hvs⟩ := List.exists_cons_of_ne_nil hu.members_ne_nil
    exact ⟨t, v, vs, by rw [hvs], ht⟩

/-- Every type is read, as an annotation of its looseness, and so are its members. -/
theorem reads (h : Spells ts t) : ReadsLoose t.looseness ts t.expr ∧
    ∃ tss, separated .pipe tss = ts ∧ ReadsMembers tss (t.members.map expr) := by
  have hsingle {ts : List Token} {t : Ty} (h : ReadsLoose t.looseness ts t.expr)
      (ht : t.looseness ≤ 2) :
      ∃ tss, separated .pipe tss = ts ∧ ReadsMembers tss (t.members.map expr) := by
    refine ⟨[ts], Token.separated_singleton _ _, ?_⟩
    rw [members_of_looseness_le ht]
    exact .last _ _ (h.last ht)
  induction h with
  | closed ts t hclosed _ hreads =>
    have hloose : ReadsLoose t.looseness ts t.expr := by rwa [hclosed]
    exact ⟨hloose, hsingle hloose (by omega)⟩
  | variadic ts inner hinner _ ih =>
    have hloose : ReadsLoose (Ty.variadic inner).looseness (.symbol .ellipsis :: ts)
        (Ty.variadic inner).expr := by
      rw [looseness]
      split
      · exact TypeExpr.readsAtom_variadic .zero (ih.1.bars ‹_›)
      · exact TypeExpr.readsAtom_variadic .zero (ih.1.last hinner)
    exact ⟨hloose, hsingle hloose (looseness_variadic_le inner)⟩
  | function head params ts ret _ hhead _ ih =>
    have hloose : ReadsLoose (Ty.function params (some ret)).looseness (head ++ ts)
        (Ty.function params (some ret)).expr := hhead ts ret.expr ih.1.whole
    exact ⟨hloose, hsingle hloose (Nat.le_refl 2)⟩
  | union ts t us u ht _ hts _ ih =>
    obtain ⟨tss, rfl, htss⟩ := ih.2
    have hsplit : separated .pipe (ts :: tss) = ts ++ .symbol .pipe :: separated .pipe tss := by
      generalize u.members.map expr = es at htss
      cases htss <;> rw [Token.separated_cons_cons]
    have hmembers : (Ty.union (t :: u.members)).expr =
        .union .zero (t.expr :: u.members.map expr) := by
      rw [expr, exprs, exprs_eq]
    refine ⟨?_, ts :: tss, hsplit, .cons _ _ _ _ hts htss⟩
    rw [hmembers, ← hsplit]
    exact TypeExpr.readsWhole_union .zero hts htss

/-- What is put behind the tokens is read with their end. -/
theorem atEnd (hlimit : limit ≤ 1)
    (hf : ∀ ts t, t.looseness ≤ limit → Spells ts t → Spells (ts ++ more) (f t))
    (hclosed : limit = 0 → ∀ t, (f t).looseness ≤ 2) (h : Spells ts t) :
    Spells (ts ++ more) (atEnd limit f t) := by
  induction h with
  | closed ts t ht hexpr hreads =>
    have hle : t.looseness ≤ limit := by omega
    rw [atEnd_of_looseness_le hle hlimit]
    exact hf ts t hle (.closed ts t ht hexpr hreads)
  | variadic ts inner hinner hspells ih =>
    rw [Ty.atEnd]
    split
    · exact hf _ _ ‹_› (.variadic ts inner hinner hspells)
    · rename_i hloose
      refine .variadic _ _ (looseness_atEnd_le hinner fun hle => hclosed ?_ inner) ih
      refine Nat.eq_zero_of_not_pos fun hpos => hloose ?_
      exact Nat.le_trans (looseness_variadic_le_one (Nat.le_trans hle hlimit)) hpos
  | function head params ts ret hparams hhead _ ih =>
    rw [List.append_assoc]
    exact .function head params _ _ hparams hhead ih
  | union ts t us u ht hexpr hts hu ih =>
    rw [List.append_assoc, List.cons_append, Ty.atEnd, atEndLast_cons hu.members_ne_nil]
    exact .union ts t _ _ ht hexpr hts ih

theorem bracketed (h : Spells ts t) :
    Spells (ts ++ [.symbol .lbracket, .symbol .rbracket]) t.bracketed := by
  refine h.atEnd (Nat.zero_le _) (fun ts t ht hspells => ?_) fun _ _ => Nat.zero_le _
  refine .closed _ _ rfl (by rw [expr, ofTypeExpr, hspells.ofTypeExpr_expr]) ?_
  have hreads := hspells.reads.1
  rw [Nat.le_zero.mp ht] at hreads
  exact TypeExpr.readsStem_array .zero hreads

theorem barred (h : Spells ts t) (hu : Spells us u) :
    Spells (ts ++ .symbol .pipe :: us) (t.barred u) := by
  refine h.atEnd (Nat.le_refl 1) (fun ts t ht hspells => ?_) nofun
  exact .union ts t us u ht hspells.ofTypeExpr_expr (hspells.reads.1.bars ht) hu

theorem dotted (h : Spells ts t) : Spells (.symbol .ellipsis :: ts) t.dotted := by
  by_cases hloose : t.looseness ≤ 2
  · cases t with
    | union ms => simp at hloose
    | _ => exact .variadic ts _ hloose h
  · obtain ⟨ms, rfl⟩ := exists_eq_union (Nat.lt_of_not_le hloose)
    cases h with
    | closed _ _ hclosed => simp at hclosed
    | union ts t us u ht hexpr hts hu =>
      exact .union (.symbol .ellipsis :: ts) (Ty.variadic t) us u (looseness_variadic_le_one ht)
        (by rw [expr, ofTypeExpr, hexpr]) (TypeExpr.readsAtom_variadic .zero hts) hu

end Spells

section Functions

variable {params : List Ty}

theorem ofTypeExprs_exprs (h : ∀ p ∈ params, Spells p.tokens p.reread) :
    ofTypeExprs (exprs (rereadList params)) = rereadList params := by
  simpa [ofTypeExprs_eq, exprs_eq, rereadList_eq] using fun p hp => (h p hp).ofTypeExpr_expr

theorem spells_function (h : ∀ p ∈ params, Spells p.tokens p.reread) :
    Spells (.keyword .fn_ :: .symbol .lparen :: separated .comma (tokensList params)
      ++ [.symbol .rparen]) (function (rereadList params) none) := by
  refine .closed _ _ rfl (by rw [expr, exprOption, ofTypeExpr, ofTypeExprs_exprs h, ofTypeExpr?]) ?_
  rw [expr, exprOption, exprs_eq, rereadList_eq, tokensList_eq, List.map_map]
  exact TypeExpr.readsStem_function .zero fun p hp => (h p hp).reads.1.whole

theorem spells_returning {ts : List Token} (h : ∀ p ∈ params, Spells p.tokens p.reread)
    (hret : Spells ts t) :
    Spells (.keyword .fn_ :: .symbol .lparen :: separated .comma (tokensList params)
      ++ .symbol .rparen :: .symbol .colon :: ts) (function (rereadList params) (some t)) := by
  have hspells := Spells.function (.keyword .fn_ :: .symbol .lparen ::
    separated .comma (tokensList params) ++ [.symbol .rparen, .symbol .colon]) _ ts t
    (ofTypeExprs_exprs h) (fun us u hu => ?_) hret
  · rwa [List.append_assoc] at hspells
  · rw [List.append_assoc, exprs_eq, rereadList_eq, tokensList_eq, List.map_map]
    exact TypeExpr.readsAtom_function .zero (fun p hp => (h p hp).reads.1.whole) hu

end Functions

/-- The tokens of some types with bars between them. -/
theorem spells_members {ms : List Ty} (hne : ms ≠ []) (h : ∀ t ∈ ms, Spells t.tokens t.reread) :
    Spells (separated .pipe (tokensList ms)) (rereadMembers ms) := by
  rw [tokensList_eq]
  induction ms with
  | nil => exact absurd rfl hne
  | cons t ts ih =>
    obtain ⟨ht, hts⟩ := List.forall_mem_cons.mp h
    cases ts with
    | nil =>
      rw [List.map_singleton, Token.separated_singleton]
      exact ht
    | cons u us =>
      rw [List.map_cons, List.map_cons, Token.separated_cons_cons]
      exact ht.barred (ih (List.cons_ne_nil u us) hts)

mutual

/-- **The text of a type** is read as `reread` says. -/
theorem spells_tokens : ∀ t : Ty, t.writable = true → Spells t.tokens t.reread
  | native name, _ => .closed _ _ rfl rfl (TypeExpr.readsStem_named .zero name)
  | array item, h => by
    rw [writable] at h
    have hitem := spells_tokens item h
    rw [tokens, reread]
    split
    · rename_i hparens
      refine .closed _ _ rfl (by rw [expr, ofTypeExpr, hitem.ofTypeExpr_expr]) ?_
      rw [hparens]
      exact TypeExpr.readsStem_array .zero hitem.reads.1.whole.enclosed
    · rename_i hparens
      rw [Bool.eq_false_iff.mpr hparens]
      exact hitem.bracketed
  | function params none, h => by
    rw [writable, Bool.and_eq_true] at h
    exact spells_function (spells_tokens_of_mem params h.1)
  | function params (some ret), h => by
    rw [writable, Bool.and_eq_true] at h
    exact spells_returning (spells_tokens_of_mem params h.1) (spells_tokens ret h.2)
  | variadic inner, h => by
    rw [writable] at h
    exact (spells_tokens inner h).dotted
  | union ms, h => by
    rw [writable, Bool.and_eq_true, decide_eq_true_eq] at h
    refine spells_members ?_ (spells_tokens_of_mem ms h.2)
    rintro rfl
    simp at h

theorem spells_tokens_of_mem : ∀ ts : List Ty, writableList ts = true →
    ∀ t ∈ ts, Spells t.tokens t.reread
  | [], _ => List.forall_mem_nil _
  | t :: ts, h => by
    rw [writableList, Bool.and_eq_true] at h
    exact List.forall_mem_cons.mpr ⟨spells_tokens t h.1, spells_tokens_of_mem ts h.2⟩

end

end Ty

end RuleScript
