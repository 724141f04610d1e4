import RuleScript.Proofs.Typing.Parts
import RuleScript.Proofs.Typing.Steps

/-!
# What comparisons keep

A comparison changes the bindings in one place only: a generic that is free on the side of the
constraint takes the candidate. So an invariant of the bindings is kept by all comparisons if it is
kept there, also by those that fail on the way. Which pairs of types are compared inside others is
said once, and an invariant may depend on the pair that is compared.

Three invariants are looked at. What is bound stays bound to the same type. If the candidate has a
property that is passed down to its parts, then all that is bound has it. If the constraint has no
generics, then nothing is bound.

## Main definitions

* `Bindings.Grows`: all that is bound stays bound to the same type
* `Solve.Tracks`: a computation keeps an invariant of the bindings, and another one does the same
* `Solve.Maintains`: a computation keeps an invariant of the bindings, or fails in a given way
* `Solve.Ends`: a computation comes to something without giving up
* `Solve.Inside`: the pairs of types that are compared inside a pair
* `Ty.PassedDown`: a property that the parts of a candidate have if it has it

## Main results

* `Solve.compare_tracks`, `Solve.compare_keeps`: comparisons keep what they keep at generics
* `Solve.compare_deeper`: going further down changes nothing once a comparison has ended
* `Solve.compare_growing`, `Solve.satisfies_oneShot`: what is bound stays bound
* `Solve.compare_bound`: what is bound has the properties of the candidate
* `Solve.compare_unbound`: a constraint without generics binds nothing
-/

namespace RuleScript

/-! ## Bindings -/

namespace Bindings

/-- All that is bound stays bound to the same type. -/
def Grows (s t : Bindings) : Prop := ∀ name ty, s.get? name = some ty → t.get? name = some ty

theorem Grows.refl (s : Bindings) : s.Grows s := fun _ _ h => h

theorem Grows.trans {s t u : Bindings} (hst : s.Grows t) (htu : t.Grows u) : s.Grows u :=
  fun name ty h => htu name ty (hst name ty h)

/-- A name that was free may be bound, even if it is no longer free by then. -/
theorem Grows.insert {s t : Bindings} {name : String} (h : s.Grows t) (hname : s.get? name = none)
    (ty : Ty) : s.Grows (t.insert name ty) := by
  intro other ty' hother
  have hne : other ≠ name := by
    rintro rfl
    rw [hname] at hother
    cases hother
  exact (Table.get?_insert_of_ne t ty hne).trans (h other ty' hother)

/-- A generic that is free was free before. -/
theorem Grows.get?_eq_none {s t : Bindings} (h : s.Grows t) {name : String}
    (hname : t.get? name = none) : s.get? name = none := by
  cases hs : s.get? name with
  | none => rfl
  | some ty => exact absurd (h name ty hs) (by simp [hname])

/-- The generics that are bound stand for types with the property. -/
def All (T : Ty → Prop) (s : Bindings) : Prop :=
  ∀ name ty, s.get? name = some ty → T ty

variable {T : Ty → Prop}

theorem all_empty : All T .empty := nofun

theorem All.insert {s : Bindings} (hs : s.All T) {name : String} {ty : Ty} (hty : T ty) :
    All T (Table.insert s name ty) := by
  intro other ty' hget
  by_cases hname : other = name
  · subst hname
    obtain rfl := Option.some.inj ((Table.get?_insert_self _ _ _).symm.trans hget)
    exact hty
  · exact hs other ty' ((Table.get?_insert_of_ne _ _ hname).symm.trans hget)

theorem All.mono {T' : Ty → Prop} {s : Bindings} (hs : s.All T) (hT : ∀ ty, T ty → T' ty) :
    s.All T' :=
  fun name ty h => hT ty (hs name ty h)

end Bindings

namespace Solve

variable {α β : Type} {I : Bindings → Prop} {E : SolveError → Bindings → Prop}

/-! ## Invariants -/

/-- From bindings with the invariant the first computation ends with such bindings again, or it
fails in the way that `E` says; and the second one comes to the same unless the first one has given
up. -/
def Tracks (I : Bindings → Prop) (E : SolveError → Bindings → Prop) (x y : Solve α) : Prop :=
  ∀ s, I s →
    match x s with
    | .ok a t => I t ∧ y s = .ok a t
    | .error e t => E e t ∧ (e ≠ .endless → y s = .error e t)

namespace Tracks

theorem ok {x y : Solve α} (h : Tracks I E x y) {s s' : Bindings} {a : α} (hs : I s)
    (hx : x s = .ok a s') : I s' ∧ y s = .ok a s' := by
  have hpost := h s hs
  rw [hx] at hpost
  exact hpost

theorem error {x y : Solve α} (h : Tracks I E x y) {s s' : Bindings} {e : SolveError} (hs : I s)
    (hx : x s = .error e s') : E e s' ∧ (e ≠ .endless → y s = .error e s') := by
  have hpost := h s hs
  rw [hx] at hpost
  exact hpost

theorem pure (a : α) : Tracks I E (Pure.pure a : Solve α) (Pure.pure a) := fun _ hs => ⟨hs, rfl⟩

variable {x x' y y' : Solve Bool}

theorem both (hx : Tracks I E x x') (hy : Tracks I E y y') :
    Tracks I E (both x y) (both x' y') := by
  intro s hs
  simp only [Solve.both, Bind.bind, EStateM.bind]
  cases hrun : x s with
  | error e t =>
    obtain ⟨hE, hx'⟩ := hx.error hs hrun
    exact ⟨hE, fun he => by rw [hx' he]⟩
  | ok b t =>
    obtain ⟨ht, hx'⟩ := hx.ok hs hrun
    rw [hx']
    cases b with
    | true => exact hy t ht
    | false => exact ⟨ht, rfl⟩

theorem either (hx : Tracks I E x x') (hy : Tracks I E y y') :
    Tracks I E (either x y) (either x' y') := by
  intro s hs
  simp only [Solve.either, Bind.bind, EStateM.bind]
  cases hrun : x s with
  | error e t =>
    obtain ⟨hE, hx'⟩ := hx.error hs hrun
    exact ⟨hE, fun he => by rw [hx' he]⟩
  | ok b t =>
    obtain ⟨ht, hx'⟩ := hx.ok hs hrun
    rw [hx']
    cases b with
    | true => exact ⟨ht, rfl⟩
    | false => exact hy t ht

theorem eachWith {check check' : α → β → Solve Bool} {as : List α} {bs : List β}
    (h : ∀ a ∈ as, ∀ b ∈ bs, Tracks I E (check a b) (check' a b)) :
    Tracks I E (eachWith check as bs) (eachWith check' as bs) := by
  induction as generalizing bs with
  | nil => exact pure true
  | cons a as ih =>
    cases bs with
    | nil => exact pure false
    | cons b bs =>
      refine both (h a List.mem_cons_self b List.mem_cons_self) (ih ?_)
      exact fun a' ha b' hb => h a' (List.mem_cons_of_mem _ ha) b' (List.mem_cons_of_mem _ hb)

theorem some? {check check' : α → Solve Bool} {as : List α}
    (h : ∀ a ∈ as, Tracks I E (check a) (check' a)) :
    Tracks I E (some? check as) (some? check' as) := by
  induction as with
  | nil => exact pure false
  | cons a as ih =>
    obtain ⟨ha, has⟩ := List.forall_mem_cons.mp h
    exact either ha (ih has)

theorem all? {check check' : α → Solve Bool} {as : List α}
    (h : ∀ a ∈ as, Tracks I E (check a) (check' a)) :
    Tracks I E (all? check as) (all? check' as) := by
  induction as with
  | nil => exact pure true
  | cons a as ih =>
    obtain ⟨ha, has⟩ := List.forall_mem_cons.mp h
    exact both ha (ih has)

theorem meetsBound {check check' : Ty → Ty → Solve Bool} {bound : Option Ty} {name : String}
    (hbinding : ∀ s c ty, I s → s.get? name = some ty → bound = some c →
      Tracks I E (check c ty) (check' c ty))
    (hfree : ∀ s, I s → E (.undefinedGeneric name) s) :
    Tracks I E (meetsBound check bound name) (meetsBound check' bound name) := by
  intro s hs
  rw [meetsBound_eq, meetsBound_eq]
  cases bound with
  | none => exact ⟨hs, rfl⟩
  | some bound =>
    cases hname : s.get? name with
    | none => exact ⟨hfree s hs, fun _ => rfl⟩
    | some ty => exact hbinding s bound ty hs hname rfl s hs

end Tracks

/-- From bindings with the invariant the computation ends with such bindings again, or it fails in
the way that `E` says. -/
abbrev Maintains (I : Bindings → Prop) (E : SolveError → Bindings → Prop) (x : Solve α) : Prop :=
  Tracks I E x x

/-! ## The comparisons inside a comparison -/

/-- The pairs of types that are compared inside a pair, those at a generic apart. -/
inductive Inside : Ty → Ty → Ty → Ty → Prop
  | param {cs ks : List Ty} {c k : Option Ty} {c' k' : Ty} : c' ∈ cs → k' ∈ ks →
    Inside (.function cs c) (.function ks k) c' k'
  | ret {cs ks : List Ty} {c k : Ty} : Inside (.function cs (some c)) (.function ks (some k)) c k
  | inner {inner k : Ty} : Inside (.variadic inner) k inner k
  | item {c k : Ty} : Inside (.array c) (.array k) c k
  | member {members : List Ty} {k c' k' : Ty} : c' ∈ members → k' ∈ k.alternatives →
    Inside (.union members) k c' k'

theorem Inside.constraint {c k c' k' : Ty} (h : Inside c k c' k') : c' ∈ c.parts := by
  cases h with
  | param hc => exact List.mem_append_left _ hc
  | ret => exact List.mem_append_right _ (List.mem_singleton_self _)
  | inner | item => exact List.mem_singleton_self _
  | member hc => exact hc

theorem Inside.candidate {c k c' k' : Ty} (h : Inside c k c' k') : k' = k ∨ k' ∈ k.parts := by
  cases h with
  | param _ hk => exact .inr (List.mem_append_left _ hk)
  | ret => exact .inr (List.mem_append_right _ (List.mem_singleton_self _))
  | inner => exact .inl rfl
  | item => exact .inr (List.mem_singleton_self _)
  | member _ hk => exact Ty.mem_alternatives hk

variable {check check' : Ty → Ty → Solve Bool}

/-- One level of a comparison keeps the invariant if the comparisons inside do, and if it does so
at a generic. -/
theorem step_tracks {c k : Ty}
    (hinside : ∀ {c' k'}, Inside c k c' k' → Tracks I E (check c' k') (check' c' k'))
    (hgeneric : ∀ name bound, c = .generic name bound →
      Tracks I E (step check c k) (step check' c k)) :
    Tracks I E (step check c k) (step check' c k) := by
  cases c with
  | native name =>
    rw [step_native, step_native]
    exact .pure _
  | array item =>
    rw [step_array, step_array]
    cases k with
    | array k => exact hinside .item
    | _ => exact .pure false
  | function params ret =>
    cases k with
    | function others other =>
      rw [step_function, step_function]
      -- Parameters are compared both ways round, but always with the constraint on the left.
      refine .both (.both (.eachWith fun c hc k hk => hinside (.param hc hk))
        (.eachWith fun k hk c hc => hinside (.param hc hk))) ?_
      cases ret with
      | none => cases other <;> exact .pure _
      | some c =>
        cases other with
        | none => exact .pure false
        | some k => exact hinside .ret
    | _ =>
      rw [step_function_other (by exact nofun), step_function_other (by exact nofun)]
      exact .pure false
  | variadic inner =>
    rw [step_variadic, step_variadic]
    exact hinside .inner
  | generic name bound => exact hgeneric name bound rfl
  | union members =>
    rw [step_union, step_union]
    exact .all? fun k hk => .some? fun c hc => hinside (.member hc hk)

/-- A generic leads on to its binding, or takes the candidate if that meets its bound; looking at
the bound may bind other generics first. -/
theorem step_generic_tracks {name : String} {bound : Option Ty} {k : Ty}
    (hk : ∀ other otherBound, k ≠ .generic other otherBound)
    (hbinding : ∀ s ty, I s → s.get? name = some ty → Tracks I E (check ty k) (check' ty k))
    (hbound : ∀ c, bound = some c → Tracks I E (check c k) (check' c k))
    (htake : ∀ s t, I s → s.get? name = none → within check bound k s = .ok true t → I t →
      I (t.insert name k)) :
    Tracks I E (step check (.generic name bound) k) (step check' (.generic name bound) k) := by
  intro s hs
  rw [step_generic hk, step_generic hk]
  cases hname : s.get? name with
  | some ty => exact hbinding s ty hs hname s hs
  | none =>
    have hwithin : Tracks I E (within check bound k) (within check' bound k) := by
      cases bound with
      | none => exact .pure true
      | some c => exact hbound c rfl
    simp only [both, bind, EStateM.bind]
    cases hrun : within check bound k s with
    | error e t =>
      obtain ⟨hE, hrun'⟩ := hwithin.error hs hrun
      exact ⟨hE, fun he => by rw [hrun' he]⟩
    | ok b t =>
      obtain ⟨ht, hrun'⟩ := hwithin.ok hs hrun
      rw [hrun']
      cases b with
      | true => exact ⟨htake s t hs hname hrun ht, rfl⟩
      | false => exact ⟨ht, rfl⟩

/-- Two generics are compared by their bounds and by what the first one stands for. -/
theorem step_generic_generic_tracks {name other : String} {bound otherBound : Option Ty}
    (hbinding : ∀ s c ty, I s → s.get? name = some ty → bound = some c ∨ otherBound = some c →
      Tracks I E (check c ty) (check' c ty))
    (hfree : ∀ s, I s → E (.undefinedGeneric name) s) :
    Tracks I E (step check (.generic name bound) (.generic other otherBound))
      (step check' (.generic name bound) (.generic other otherBound)) := by
  rw [step_generic_generic, step_generic_generic]
  split
  · refine .both (.meetsBound (fun s c ty hs hty hc => ?_) hfree)
      (.meetsBound (fun s c ty hs hty hc => ?_) hfree)
    · exact hbinding s c ty hs hty (.inl hc)
    · exact hbinding s c ty hs hty (.inr hc)
  · exact .pure false

/-- **Comparisons keep what they keep at generics,** and they come to the same with more levels to
go down if they do so at generics. Which comparisons there are may be limited by a relation between
the depth and the pair of types. -/
theorem compare_tracks {R : Nat → Ty → Ty → Prop} {more : Nat}
    (hinside : ∀ {depth c k c' k'}, R (depth + 1) c k → Inside c k c' k' → R depth c' k')
    (hgeneric : ∀ {depth},
      (∀ {c k}, R depth c k → Tracks I E (compare depth c k) (compare (depth + more) c k)) →
      ∀ {name bound k}, R (depth + 1) (.generic name bound) k →
        Tracks I E (step (compare depth) (.generic name bound) k)
          (step (compare (depth + more)) (.generic name bound) k))
    (hend : ∀ {c k s}, R 0 c k → I s → E .endless s) {depth : Nat} {c k : Ty} (h : R depth c k) :
    Tracks I E (compare depth c k) (compare (depth + more) c k) := by
  induction depth generalizing c k with
  | zero => exact fun s hs => ⟨hend h hs, fun hne => absurd rfl hne⟩
  | succ depth ih =>
    rw [Nat.succ_add]
    refine step_tracks (fun hpair => ih (hinside h hpair)) ?_
    rintro name bound rfl
    exact hgeneric ih h

/-- Comparisons keep what they keep at generics. -/
theorem compare_maintains {R : Nat → Ty → Ty → Prop}
    (hinside : ∀ {depth c k c' k'}, R (depth + 1) c k → Inside c k c' k' → R depth c' k')
    (hgeneric : ∀ {depth}, (∀ {c k}, R depth c k → Maintains I E (compare depth c k)) →
      ∀ {name bound k}, R (depth + 1) (.generic name bound) k →
        Maintains I E (step (compare depth) (.generic name bound) k))
    (hend : ∀ {c k s}, R 0 c k → I s → E .endless s) {depth : Nat} {c k : Ty} (h : R depth c k) :
    Maintains I E (compare depth c k) :=
  @compare_tracks I E R 0 hinside hgeneric hend depth c k h

/-! ## Going further down -/

/-- The computation comes to something, from these bindings, without giving up. -/
def Ends (x : Solve α) (s : Bindings) : Prop := ∀ t, x s ≠ .error .endless t

theorem ends_of_ok {x : Solve α} {s t : Bindings} {a : α} (h : x s = .ok a t) : Ends x s := by
  intro u hendless
  rw [h] at hendless
  cases hendless

namespace Tracks

variable {x y : Solve α}

theorem eq_of_ends (h : Tracks I E x y) {s : Bindings} (hs : I s) (hends : Ends x s) :
    y s = x s := by
  cases hrun : x s with
  | ok a t => exact (h.ok hs hrun).2
  | error e t =>
    refine (h.error hs hrun).2 ?_
    rintro rfl
    exact hends t hrun

theorem of_ends (hx : Maintains I E x) (h : ∀ s, I s → Ends x s → y s = x s) :
    Tracks I E x y := by
  intro s hs
  cases hrun : x s with
  | ok a t => exact ⟨(hx.ok hs hrun).1, (h s hs (ends_of_ok hrun)).trans hrun⟩
  | error e t =>
    refine ⟨(hx.error hs hrun).1, fun hne => (h s hs fun _ hendless => ?_).trans hrun⟩
    rw [hrun] at hendless
    exact hne (EStateM.Result.error.inj hendless).1

end Tracks

variable {depth : Nat} {c k : Ty} {s : Bindings}

/-- **Going further down changes nothing** once a comparison has ended. -/
theorem compare_deeper (more : Nat) (h : Ends (compare depth c k) s) :
    compare (depth + more) c k s = compare depth c k s := by
  have htracks : Tracks (fun _ => True) (fun _ _ => True) (compare depth c k)
      (compare (depth + more) c k) := by
    refine compare_tracks (R := fun _ _ _ => True) (fun _ _ => trivial) ?_ (fun _ _ => trivial)
      trivial
    intro depth ih name bound k _
    rcases k.generic_or_ne with ⟨other, otherBound, rfl⟩ | hk
    · exact step_generic_generic_tracks (fun _ _ _ _ _ _ => ih trivial) fun _ _ => trivial
    · exact step_generic_tracks hk (fun _ _ _ _ => ih trivial) (fun _ _ => ih trivial)
        fun _ _ _ _ _ _ => trivial
  exact htracks.eq_of_ends trivial h

theorem ends_deeper (more : Nat) (h : Ends (compare depth c k) s) :
    Ends (compare (depth + more) c k) s := by
  intro t
  rw [compare_deeper more h]
  exact h t

/-! ## What is bound stays bound -/

/-- The computation leaves alone what is bound, even if it fails. -/
def Growing (x : Solve α) : Prop := ∀ s : Bindings, Maintains s.Grows (fun _ => s.Grows) x

namespace Growing

theorem ok {x : Solve α} (h : Growing x) {s s' : Bindings} {a : α} (hx : x s = .ok a s') :
    s.Grows s' :=
  ((h s).ok (.refl s) hx).1

theorem grows_after {x : Solve α} (h : Growing x) (s : Bindings) : s.Grows (after x s) := by
  rw [after]
  cases hx : x s with
  | ok a t => exact h.ok hx
  | error e t => exact ((h s).error (.refl s) hx).1

end Growing

theorem step_growing (h : ∀ c k, Growing (check c k)) (c k : Ty) : Growing (step check c k) := by
  intro s
  refine step_tracks (fun _ => h _ _ s) ?_
  rintro name bound rfl
  rcases k.generic_or_ne with ⟨other, otherBound, rfl⟩ | hk
  · exact step_generic_generic_tracks (fun _ c ty _ _ _ => h c ty s) fun _ ht => ht
  · refine step_generic_tracks hk (fun _ ty _ _ => h ty k s) (fun c _ => h c k s)
      fun t u ht hfree _ hu => ?_
    exact hu.insert (ht.get?_eq_none hfree) k

/-- **A comparison leaves alone what is bound**, whether it succeeds or not, and even if it ends
with an error. -/
theorem compare_growing (depth : Nat) (c k : Ty) : Growing (compare depth c k) := by
  induction depth generalizing c k with
  | zero => exact fun _ _ ht => ⟨ht, fun hne => absurd rfl hne⟩
  | succ depth ih => exact step_growing ih c k

theorem satisfies_eq (c k : Ty) (s : Bindings) :
    satisfies c k s = compare (depthBound s c k) c k s := rfl

/-- A comparison may go down further than the types and the bindings are large. -/
theorem lt_depthBound (s : Bindings) (c k : Ty) :
    c.size + k.size + bindingsSize s < depthBound s c k := by
  have hcube (n : Nat) : n < (n + 1) * (n + 1) * (n + 1) :=
    calc n < n + 1 := Nat.lt_succ_self n
      _ ≤ (n + 1) * (n + 1) := Nat.le_mul_of_pos_right _ (Nat.succ_pos n)
      _ ≤ (n + 1) * (n + 1) * (n + 1) := Nat.le_mul_of_pos_right _ (Nat.succ_pos n)
  exact hcube _

theorem satisfies_grows (c k : Ty) (s : Bindings) : s.Grows (after (satisfies c k) s) := by
  rw [after, satisfies_eq]
  exact (compare_growing (depthBound s c k) c k).grows_after s

/-- The bindings after some comparisons, one after the other, whatever each of them comes to. -/
def afterAll (calls : List (Ty × Ty)) (s : Bindings) : Bindings :=
  calls.foldl (fun s call => after (satisfies call.1 call.2) s) s

/-- What one comparison keeps, a run of comparisons keeps. -/
theorem afterAll_grows (calls : List (Ty × Ty)) (s : Bindings) : s.Grows (afterAll calls s) := by
  induction calls generalizing s with
  | nil => exact .refl s
  | cons call calls ih => exact (satisfies_grows call.1 call.2 s).trans (ih _)

/-- A free generic that is compared with success takes the candidate, and the candidate meets its
bound. -/
theorem step_generic_true {name : String} {bound : Option Ty} {k : Ty} {s s' : Bindings}
    (hk : ∀ other otherBound, k ≠ .generic other otherBound) (hname : s.get? name = none)
    (h : step check (.generic name bound) k s = .ok true s') :
    ∃ t, within check bound k s = .ok true t ∧ s' = t.insert name k := by
  rw [step_generic hk, hname] at h
  obtain ⟨t, ht, htake⟩ := both_true.mp h
  rw [take_eq] at htake
  cases htake
  exact ⟨t, ht, rfl⟩

/-- **Bindings are made once.** Whatever a comparison comes to, and whatever is compared after it,
all that was bound stays bound to the same type. A generic that was free and is compared with
success stands for the candidate from then on, even if its bound mentions the generic itself. -/
theorem satisfies_oneShot (c k : Ty) (s : Bindings) (later : List (Ty × Ty)) :
    (∀ name ty, s.get? name = some ty → (after (satisfies c k) s).get? name = some ty ∧
      (afterAll later (after (satisfies c k) s)).get? name = some ty) ∧
    ∀ name bound s', c = .generic name bound → s.get? name = none →
      (∀ other otherBound, k ≠ .generic other otherBound) → satisfies c k s = .ok true s' →
      s'.get? name = some k ∧ (afterAll later s').get? name = some k := by
  constructor
  · intro name ty hty
    have hafter := satisfies_grows c k s name ty hty
    exact ⟨hafter, afterAll_grows later _ name ty hafter⟩
  · rintro name bound s' rfl hname hk h
    rw [satisfies_eq] at h
    cases hdepth : depthBound s (.generic name bound) k with
    | zero =>
      rw [hdepth] at h
      cases h
    | succ depth =>
      rw [hdepth] at h
      obtain ⟨t, -, rfl⟩ := step_generic_true hk hname h
      have hbound : (t.insert name k).get? name = some k := Table.get?_insert_self t name k
      exact ⟨hbound, afterAll_grows later _ name k hbound⟩

/-- A generic whose bound mentions it, compared with a list of numbers where another generic is
bound already: looking at the bound binds the generic to the items first. One of the comparisons
that come after it fails and the other ends with an error. -/
theorem satisfies_oneShot_selfBound :
    let c : Ty := .generic "T" (some (.array (.generic "T" none)))
    let s : Bindings := Table.empty.insert "U" .string
    let later : List (Ty × Ty) := [(.generic "T" none, .string),
      (.generic "V" (some .number), .generic "V" none)]
    ∃ s', satisfies c (.array .number) s = .ok true s' ∧
      (afterAll later (after (satisfies c (.array .number)) s)).get? "U" = some .string ∧
      (afterAll later s').get? "T" = some (.array .number) := by
  intro c s later
  have hrun : satisfies c (.array .number) s =
      .ok true ((s.insert "T" .number).insert "T" (.array .number)) := by
    with_unfolding_all rfl
  obtain ⟨hkept, hnew⟩ := satisfies_oneShot c (.array .number) s later
  exact ⟨_, hrun, (hkept "U" .string rfl).2, (hnew "T" _ _ rfl rfl nofun hrun).2⟩

/-! ## What is bound -/

/-- The computation keeps an invariant of the bindings. -/
def Keeps (I : Bindings → Prop) (x : Solve α) : Prop := ∀ s a s', I s → x s = .ok a s' → I s'

theorem Maintains.keeps {x : Solve α} (h : Maintains I E x) : Keeps I x :=
  fun _ _ _ hs hx => (h.ok hs hx).1

end Solve

/-- The parts of a candidate have the property if it has it. The inner type of a variadic one is
never looked at on this side. -/
structure Ty.PassedDown (T : Ty → Prop) : Prop where
  item {item : Ty} : T (.array item) → T item
  param {params : List Ty} {ret : Option Ty} : T (.function params ret) → ∀ p ∈ params, T p
  ret {params : List Ty} {ret : Ty} : T (.function params (some ret)) → T ret
  member {members : List Ty} : T (.union members) → ∀ m ∈ members, T m

theorem Ty.PassedDown.of_parts {T : Ty → Prop} (h : ∀ t u, T t → u ∈ t.parts → T u) :
    Ty.PassedDown T where
  item ht := h _ _ ht (List.mem_singleton_self _)
  param ht p hp := h _ p ht (List.mem_append_left _ hp)
  ret ht := h _ _ ht (List.mem_append_right _ (List.mem_singleton_self _))
  member ht m hm := h _ m ht hm

theorem Ty.passedDown_hasGeneric : PassedDown fun ty => ty.hasGeneric = false :=
  .of_parts fun _ _ h hu => hasGeneric_of_mem_parts h hu

namespace Solve

variable {T : Ty → Prop}

theorem Inside.passedDown {c k c' k' : Ty} (h : Inside c k c' k') (hT : Ty.PassedDown T)
    (hk : T k) : T k' := by
  cases h with
  | param _ hmem => exact hT.param hk _ hmem
  | ret => exact hT.ret hk
  | inner => exact hk
  | item => exact hT.item hk
  | member _ hmem =>
    cases k with
    | union others => exact hT.member hk _ hmem
    | _ => exact List.mem_singleton.mp hmem ▸ hk

/-- Comparisons keep an invariant if they do so at generics. Which comparisons there are may be
limited by a relation between the types. -/
theorem compare_keeps {R : Ty → Ty → Prop}
    (hinside : ∀ {c k c' k'}, R c k → Inside c k c' k' → R c' k')
    (hgeneric : ∀ {depth},
      (∀ {c k}, R c k → Maintains I (fun _ _ => True) (compare depth c k)) →
      ∀ {name bound k}, R (.generic name bound) k →
        Maintains I (fun _ _ => True) (step (compare depth) (.generic name bound) k))
    (depth : Nat) {c k : Ty} (h : R c k) : Keeps I (compare depth c k) := by
  have hmaintains : Maintains I (fun _ _ => True) (compare depth c k) :=
    compare_maintains (R := fun _ => R) (fun h hpair => hinside h hpair) hgeneric
      (fun _ _ => trivial) h
  exact hmaintains.keeps

/-- **What is bound has the properties of the candidate** that are passed down to parts. -/
theorem compare_bound (hT : Ty.PassedDown T) (depth : Nat) (c : Ty) {k : Ty} (hk : T k) :
    Keeps (Bindings.All T) (compare depth c k) := by
  refine compare_keeps (R := fun _ k => T k) (fun hk hpair => hpair.passedDown hT hk) ?_ depth hk
  intro depth ih name bound k hk
  rcases k.generic_or_ne with ⟨other, otherBound, rfl⟩ | hne
  -- A binding is none of the candidate's parts, but it has been a candidate before.
  · exact step_generic_generic_tracks (fun s _ ty hs hty _ => ih (hs _ ty hty)) fun _ _ => trivial
  · exact step_generic_tracks hne (fun _ _ _ _ => ih hk) (fun _ _ => ih hk)
      fun _ _ _ _ _ ht => ht.insert hk

/-- **A constraint without generics binds nothing.** -/
theorem compare_unbound (depth : Nat) {c : Ty} (k : Ty) (hc : c.hasGeneric = false)
    (s : Bindings) : Keeps (· = s) (compare depth c k) := by
  refine compare_keeps (R := fun c _ => c.hasGeneric = false)
    (fun hc hpair => Ty.hasGeneric_of_mem_parts hc hpair.constraint) ?_ depth hc
  intro _ _ _ _ _ hgeneric
  cases hgeneric

end Solve

end RuleScript
