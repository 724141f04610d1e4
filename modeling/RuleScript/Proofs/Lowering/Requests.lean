import Mathlib.Data.List.Induction
import RuleScript.Proofs.Lowering.Inversion
import RuleScript.Proofs.Slots

/-!
# Asking for slots again and again

Slots are asked for in any order: a name at a depth as often as it is declared, and a slot without a
name once for each value that is kept. All answers are put on record. From the record one can read
off which slots there are and who has them: the slots are numbered as they are first handed out, a
name at a depth has one slot, a slot without a name is given to nobody else, and only a request for
a slot that does not exist yet can be refused, when none is left.

A refused request leaves the slots as they are, except that a slot without a name has been counted
as asked for.

## Main definitions

* `Request`, `Request.serve`: a request, and its answer
* `Ledger`, `Ledger.ofRequests`: the record of some requests with their answers, and the slots then
* `Ledger.Sound`: what the record says about the slots

## Main results

* `Slots.Valid.served_serve`: what can come of one request
* `Ledger.Sound.concat`: what one more answer has to be like
* `Ledger.Sound.serve`: a request keeps the record and the slots in step
* `Ledger.ofRequests_slots`: what holds of the record of any requests
-/

namespace RuleScript

/-- A request for a slot, and the place it comes from. -/
inductive Request
  | intern (name : String) (depth : Nat) (span : Span)
  | fresh (label : String) (span : Span)

namespace Request

/-- The place a request comes from. -/
def span : Request → Span
  | intern _ _ span | fresh _ span => span

/-- Whether the request is for a slot without a name. -/
def isFresh : Request → Bool
  | intern _ _ _ => false
  | fresh _ _ => true

/-- The depth of a name is that of a scope, which is less than that of slots without a name. -/
def Shallow : Request → Prop
  | intern _ depth _ => depth < Slots.hiddenDepth
  | fresh _ _ => True

instance : DecidablePred Shallow
  | intern _ depth _ => inferInstanceAs (Decidable (depth < Slots.hiddenDepth))
  | fresh _ _ => inferInstanceAs (Decidable True)

/-- The request as a step of lowering. -/
def lower : Request → Lower Slot
  | intern name depth span => Lower.intern name depth span
  | fresh label span => Lower.fresh label span

/-- The slots after a request was refused. A slot without a name counts as asked for even so. -/
def refused (s : Slots) : Request → Slots
  | intern _ _ _ => s
  | fresh _ _ => { s with hidden := s.hidden + 1 }

/-- The answer to a request, and the slots after it. -/
def serve (s : Slots) (r : Request) : Except Error Slot × Slots :=
  match r.lower { slots := s } with
  | .ok slot st => (.ok slot, st.slots)
  | .error e st => (.error e, r.refused st.slots)

/-- The request is for the slot of this key. -/
def Asks : Request → SlotKey → Prop
  | intern name depth _, key => key = ⟨name, depth⟩
  | fresh _ _, key => key.depth = Slots.hiddenDepth

/-- The request cannot be served from the slots that there are. -/
def Needs (s : Slots) : Request → Prop
  | intern name depth _ => s.get? ⟨name, depth⟩ = none
  | fresh _ _ => True

end Request

/-! ## One request -/

/-- What can come of a request: the slot of a name that has one, the next slot, or an error. -/
inductive Slots.Served (s : Slots) : Request → Except Error Slot × Slots → Prop
  | known {name : String} {depth : Nat} {span : Span} {slot : Slot}
    (hslot : s.get? ⟨name, depth⟩ = some slot) : Served s (.intern name depth span) (.ok slot, s)
  | new {r : Request} {key : SlotKey} {t : Slots} (hasks : r.Asks key) (hneeds : r.Needs s)
    (hroom : s.size < s.limit ∧ s.size < addressable) (ht : Granted s t key s.size)
    (hentries : t.entries = (key, s.size) :: s.entries) (hlimit : t.limit = s.limit) :
    Served s r (.ok s.size, t)
  | refused {r : Request} (hneeds : r.Needs s)
    (hfull : ¬ (s.size < s.limit ∧ s.size < addressable)) :
    Served s r (.error ⟨.outOfSlots s.limit, r.span⟩, r.refused s)

section

variable {take : Slots → Option Grant} {span : Span} {st : LowerState}

theorem Lower.grant_of_none (h : take st.slots = none) :
    grant take span st = .error ⟨.outOfSlots st.slots.limit, span⟩ st := by
  have hget : (get : Lower LowerState) st = .ok st st := rfl
  rw [grant]
  simp only [bind, EStateM.bind, hget, h]
  rfl

theorem Lower.grant_of_some {g : Grant} (h : take st.slots = some g) :
    ∃ st', grant take span st = .ok g.slot st' ∧ st'.slots = g.slots := by
  simp only [grant, bind_ok]
  cases hnew : g.new? with
  | none => exact ⟨_, ⟨st, st, rfl, by simp only [h, hnew]; rfl⟩, rfl⟩
  | some key => exact ⟨_, ⟨st, st, rfl, by simp only [h, hnew]; rfl⟩, rfl⟩

end

section

variable {s : Slots}

namespace Request

variable {r : Request}

/-- How the request is served when the table of slots is asked. -/
def take : Request → Slots → Option Grant
  | intern name depth _, s => s.intern name depth
  | fresh label _, s => s.fresh label

theorem lower_eq : r.lower = Lower.grant r.take r.span := by
  cases r <;> rfl

theorem serve_of_none (h : r.take s = none) :
    r.serve s = (.error ⟨.outOfSlots s.limit, r.span⟩, r.refused s) := by
  rw [serve, lower_eq, Lower.grant_of_none h]

theorem serve_of_some {g : Grant} (h : r.take s = some g) : r.serve s = (.ok g.slot, g.slots) := by
  obtain ⟨st, hst, hslots⟩ : ∃ st, Lower.grant r.take r.span { slots := s } = .ok g.slot st ∧
      st.slots = g.slots := Lower.grant_of_some h
  rw [serve, lower_eq, hst, ← hslots]

end Request

/-- A request that gets a slot gets that of its name, or the next one. -/
theorem Slots.Valid.served_take (hs : s.Valid) {r : Request} (hr : r.Shallow) {g : Grant}
    (h : r.take s = some g) : Served s r (.ok g.slot, g.slots) := by
  cases r with
  | intern name depth span =>
    change s.intern name depth = some g at h
    have hgranted := hs.intern (Nat.ne_of_lt hr) h
    rw [Slots.intern] at h
    cases hslot : s.get? ⟨name, depth⟩ with
    | some slot =>
      simp only [hslot] at h
      cases h
      exact .known hslot
    | none =>
      simp only [hslot] at h
      obtain ⟨hroom, rfl⟩ := (allocate_eq_some hslot).mp h
      exact .new rfl hslot hroom hgranted rfl rfl
  | fresh label span =>
    change s.fresh label = some g at h
    obtain ⟨hvalid, hextend, -, -⟩ := hs.fresh h
    obtain ⟨hroom, rfl⟩ := (allocate_eq_some (by exact hs.get?_next label)).mp h
    have hasks : (Request.fresh label span).Asks
        ⟨label ++ "#" ++ (s.hidden + 1).repr, hiddenDepth⟩ := rfl
    have hkey := get?_of_mem hvalid List.mem_cons_self
    exact .new hasks trivial hroom ⟨hvalid, hextend, hkey⟩ rfl rfl

/-- **What can come of a request.** -/
theorem Slots.Valid.served_serve (hs : s.Valid) {r : Request} (hr : r.Shallow) :
    Served s r (r.serve s) := by
  cases htake : r.take s with
  | some g =>
    rw [Request.serve_of_some htake]
    exact hs.served_take hr htake
  | none =>
    rw [Request.serve_of_none htake]
    cases r with
    | intern name depth span =>
      change s.intern name depth = none at htake
      rw [Slots.intern] at htake
      cases hslot : s.get? ⟨name, depth⟩ with
      | some slot => simp only [hslot, reduceCtorEq] at htake
      | none =>
        simp only [hslot] at htake
        exact .refused hslot (allocate_eq_none.mp htake)
    | fresh label span =>
      change ({ s with hidden := s.hidden + 1 } : Slots).allocate _ = none at htake
      have hfull := allocate_eq_none.mp htake
      exact .refused trivial hfull

end

namespace Request

variable {s : Slots} {key : SlotKey}

theorem get?_refused (r : Request) : (r.refused s).get? key = s.get? key := by
  cases r <;> rfl

theorem size_refused (r : Request) : (r.refused s).size = s.size := by
  cases r <;> rfl

theorem limit_refused (r : Request) : (r.refused s).limit = s.limit := by
  cases r <;> rfl

end Request

theorem Slots.Valid.refused {s : Slots} (hs : s.Valid) (r : Request) : (r.refused s).Valid := by
  cases r with
  | intern => exact hs
  | fresh =>
    refine ⟨hs.keys_nodup, hs.slots_eq, fun e he hdepth => ?_⟩
    obtain ⟨label, n, hn, hname⟩ := hs.numbered e he hdepth
    exact ⟨label, n, Nat.le_succ_of_le hn, hname⟩

/-! ## The record -/

/-- The requests so far, each with its answer, and the slots after them. -/
structure Ledger where
  history : List (Request × Except Error Slot)
  slots : Slots

namespace Ledger

/-- Nothing was asked for yet. -/
def start (limit : Nat) : Ledger := ⟨[], .empty limit⟩

/-- Serves one more request. -/
def serve (l : Ledger) (r : Request) : Ledger :=
  ⟨l.history ++ [(r, (r.serve l.slots).1)], (r.serve l.slots).2⟩

/-- Serves some requests, where no more than `limit` slots may be handed out. -/
def ofRequests (limit : Nat) (requests : List Request) : Ledger :=
  requests.foldl serve (start limit)

/-- The slots that were given as answers, in the order of the requests. -/
def granted (l : Ledger) : List Slot := l.history.filterMap (·.2.toOption)

/-- Two answers of which one is a slot without a name are not the same slot. -/
def Apart (p q : Request × Except Error Slot) : Prop :=
  p.1.isFresh ∨ q.1.isFresh → ∀ slot, p.2 = .ok slot → q.2 ≠ .ok slot

/-- The record and the slots are in step. -/
structure Sound (limit : Nat) (l : Ledger) : Prop where
  valid : l.slots.Valid
  limit_eq : l.slots.limit = limit
  size_le : l.slots.size ≤ limit
  /-- A slot belongs to what it was asked for. -/
  has : ∀ r slot, (r, .ok slot) ∈ l.history →
    r.Shallow ∧ ∃ key, r.Asks key ∧ l.slots.get? key = some slot
  /-- A name that has a slot was given it. -/
  recorded : ∀ name depth slot, depth < Slots.hiddenDepth →
    l.slots.get? ⟨name, depth⟩ = some slot →
      ∃ span, (.intern name depth span, .ok slot) ∈ l.history
  apart : l.history.Pairwise Apart
  granted_eq : l.granted.eraseDups = List.range l.slots.size

variable {limit : Nat} {l : Ledger} {r : Request} {slot : Slot}

theorem mem_granted : slot ∈ l.granted ↔ ∃ r, (r, .ok slot) ∈ l.history := by
  rw [granted, List.mem_filterMap]
  constructor
  · rintro ⟨⟨r, answer⟩, hmem, hanswer⟩
    cases answer with
    | ok slot' =>
      cases hanswer
      exact ⟨r, hmem⟩
    | error e => cases hanswer
  · rintro ⟨r, hmem⟩
    exact ⟨_, hmem, rfl⟩

theorem sound_start (limit : Nat) : (start limit).Sound limit where
  valid := Slots.valid_empty limit
  limit_eq := rfl
  size_le := Nat.zero_le _
  has := nofun
  recorded := nofun
  apart := .nil
  granted_eq := rfl

/-- All slots in the record have numbers below the number of slots. -/
theorem Sound.lt_size (h : l.Sound limit) (hslot : slot ∈ l.granted) : slot < l.slots.size := by
  have hmem : slot ∈ l.granted.eraseDups := List.mem_eraseDups.mpr hslot
  rw [h.granted_eq] at hmem
  exact List.mem_range.mp hmem

/-! ## One more request -/

theorem eraseDups_concat_of_mem {slots : List Slot} (h : slot ∈ slots) :
    (slots ++ [slot]).eraseDups = slots.eraseDups := by
  rw [List.eraseDups_append]
  simp [List.removeAll, h]

theorem eraseDups_concat_of_not_mem {slots : List Slot} (h : slot ∉ slots) :
    (slots ++ [slot]).eraseDups = slots.eraseDups ++ [slot] := by
  rw [List.eraseDups_append]
  simp [List.removeAll, h, List.eraseDups_cons]

theorem granted_concat_ok {history : List (Request × Except Error Slot)} {s t : Slots} :
    granted ⟨history ++ [(r, .ok slot)], t⟩ = granted ⟨history, s⟩ ++ [slot] := by
  simp [granted, Except.toOption]

theorem granted_concat_error {history : List (Request × Except Error Slot)} {s t : Slots}
    {e : Error} : granted ⟨history ++ [(r, .error e)], t⟩ = granted ⟨history, s⟩ := by
  simp [granted, Except.toOption]

/-- One more answer on record keeps it in step with slots that extend those before: the slot that
was given belongs to what it was asked for, no name has a slot that is not on record, and the slot
was not given before to a request that is to be kept apart. -/
theorem Sound.concat (h : l.Sound limit) {answer : Except Error Slot} {t : Slots}
    (hvalid : t.Valid) (hlimit : t.limit = limit) (hsize : t.size ≤ limit)
    (hextend : l.slots.Extends t)
    (hhas : ∀ slot, answer = .ok slot →
      r.Shallow ∧ ∃ key, r.Asks key ∧ t.get? key = some slot)
    (hrecorded : ∀ name depth slot, depth < Slots.hiddenDepth →
      t.get? ⟨name, depth⟩ = some slot → l.slots.get? ⟨name, depth⟩ = some slot ∨
        ∃ span, r = .intern name depth span ∧ answer = .ok slot)
    (hapart : ∀ p ∈ l.history, Apart p (r, answer))
    (hgranted : (granted ⟨l.history ++ [(r, answer)], t⟩).eraseDups = List.range t.size) :
    Sound limit ⟨l.history ++ [(r, answer)], t⟩ where
  valid := hvalid
  limit_eq := hlimit
  size_le := hsize
  has r' slot hmem := by
    rcases List.mem_append.mp hmem with hmem | hmem
    · obtain ⟨hshallow, key, hasks, hkey⟩ := h.has r' slot hmem
      exact ⟨hshallow, key, hasks, hextend.get? hkey⟩
    · cases List.mem_singleton.mp hmem
      exact hhas slot rfl
  recorded name depth slot hdepth hslot := by
    rcases hrecorded name depth slot hdepth hslot with hslot | ⟨span, rfl, rfl⟩
    · obtain ⟨span, hmem⟩ := h.recorded name depth slot hdepth hslot
      exact ⟨span, List.mem_append_left _ hmem⟩
    · exact ⟨span, List.mem_append_right _ (List.mem_singleton.mpr rfl)⟩
  apart := by
    refine List.pairwise_append.mpr ⟨h.apart, List.pairwise_singleton _ _, fun p hp q hq => ?_⟩
    rw [List.mem_singleton.mp hq]
    exact hapart p hp
  granted_eq := hgranted

/-- A name that has a slot is given the same slot again. -/
theorem Sound.known_again (h : l.Sound limit) {name : String} {depth : Nat} {span : Span}
    (hdepth : depth < Slots.hiddenDepth) (hslot : l.slots.get? ⟨name, depth⟩ = some slot) :
    Sound limit ⟨l.history ++ [(.intern name depth span, .ok slot)], l.slots⟩ := by
  refine h.concat h.valid h.limit_eq h.size_le (.refl _) ?_ (fun _ _ _ _ => .inl) ?_ ?_
  · rintro _ ⟨⟩
    exact ⟨hdepth, _, rfl, hslot⟩
  · rintro ⟨r, answer⟩ hmem hfresh _ rfl ⟨⟩
    obtain ⟨-, key, hasks, hkey⟩ := h.has r slot hmem
    cases r with
    | intern => simp [Request.isFresh] at hfresh
    | fresh => exact h.valid.not_hidden hslot (Nat.ne_of_lt hdepth) ⟨key, hasks, hkey⟩
  · obtain ⟨span', hmem⟩ := h.recorded name depth slot hdepth hslot
    rw [granted_concat_ok (s := l.slots), eraseDups_concat_of_mem (mem_granted.mpr ⟨_, hmem⟩)]
    exact h.granted_eq

/-- The next slot is given to whoever asks for one that does not exist yet. -/
theorem Sound.new_slot (h : l.Sound limit) {key : SlotKey} {t : Slots} (hr : r.Shallow)
    (hasks : r.Asks key) (hroom : l.slots.size < l.slots.limit)
    (ht : Slots.Granted l.slots t key l.slots.size)
    (hentries : t.entries = (key, l.slots.size) :: l.slots.entries)
    (hlimit : t.limit = l.slots.limit) :
    Sound limit ⟨l.history ++ [(r, .ok l.slots.size)], t⟩ := by
  have hsize : t.size = l.slots.size + 1 := congrArg List.length hentries
  have hnew : l.slots.size ∉ l.granted := fun hmem => Nat.lt_irrefl _ (h.lt_size hmem)
  refine h.concat ht.valid (hlimit.trans h.limit_eq) ?_ ht.extend ?_ ?_ ?_ ?_
  · rw [hsize, ← h.limit_eq]
    exact hroom
  · rintro _ ⟨⟩
    exact ⟨hr, key, hasks, ht.get?⟩
  · intro name depth slot hdepth hslot
    have hmem := Slots.mem_of_get? hslot
    rw [hentries] at hmem
    rcases List.mem_cons.mp hmem with heq | hmem
    · cases heq
      cases r with
      | intern name' depth' span =>
        cases hasks
        exact .inr ⟨span, rfl, rfl⟩
      | fresh label span =>
        have hhidden : depth = Slots.hiddenDepth := hasks
        omega
    · exact .inl (Slots.get?_of_mem h.valid hmem)
  · rintro ⟨r', answer⟩ hmem - _ rfl ⟨⟩
    exact hnew (mem_granted.mpr ⟨r', hmem⟩)
  · rw [granted_concat_ok (s := l.slots), eraseDups_concat_of_not_mem hnew, hsize, List.range_succ]
    exact congrArg (· ++ _) h.granted_eq

/-- A refused request changes nothing but how many slots without a name were asked for. -/
theorem Sound.refuse (h : l.Sound limit) (r : Request) (e : Error) :
    Sound limit ⟨l.history ++ [(r, .error e)], r.refused l.slots⟩ := by
  have hextend : l.slots.Extends (r.refused l.slots) :=
    ⟨fun hkey => by rw [Request.get?_refused, hkey], Nat.le_of_eq r.size_refused.symm⟩
  refine h.concat (h.valid.refused r) (r.limit_refused.trans h.limit_eq) ?_ hextend nofun ?_ ?_ ?_
  · rw [Request.size_refused]
    exact h.size_le
  · intro name depth slot _ hslot
    rw [Request.get?_refused] at hslot
    exact .inl hslot
  · intro p _ _ slot _
    nofun
  · rw [granted_concat_error (s := l.slots), Request.size_refused]
    exact h.granted_eq

/-- **A request keeps the record and the slots in step.** -/
theorem Sound.serve (h : l.Sound limit) (hr : r.Shallow) : (l.serve r).Sound limit := by
  have hserved := h.valid.served_serve hr
  rw [Ledger.serve]
  generalize r.serve l.slots = out at hserved ⊢
  cases hserved with
  | known hslot => exact h.known_again hr hslot
  | new hasks _ hroom ht hentries hlimit =>
    exact h.new_slot hr hasks hroom.1 ht hentries hlimit
  | refused => exact h.refuse r _

/-- The record of any requests says what the slots are. -/
theorem sound_ofRequests {requests : List Request} (h : ∀ r ∈ requests, r.Shallow) :
    (ofRequests limit requests).Sound limit := by
  induction requests using List.reverseRecOn with
  | nil => exact sound_start limit
  | append_singleton requests r ih =>
    rw [ofRequests, List.foldl_append]
    exact (ih fun r' hr' => h r' (List.mem_append_left _ hr')).serve
      (h r (List.mem_append_right _ (List.mem_singleton.mpr rfl)))

theorem history_ofRequests (limit : Nat) (requests : List Request) :
    (ofRequests limit requests).history.map (·.1) = requests := by
  induction requests using List.reverseRecOn with
  | nil => rfl
  | append_singleton requests r ih =>
    rw [ofRequests, List.foldl_append]
    change ((ofRequests limit requests).history ++ [_]).map _ = _
    rw [List.map_append, ih]
    rfl

/-! ## What the record says -/

/-- No slot is on record that the request could have again. -/
def Lacks (l : Ledger) : Request → Prop
  | .intern name depth _ => ∀ span slot, (.intern name depth span, .ok slot) ∉ l.history
  | .fresh _ _ => True

/-- A request lacks a slot on record if it cannot be served from the slots that there are. -/
theorem Sound.lacks_iff (h : l.Sound limit) (hr : r.Shallow) : l.Lacks r ↔ r.Needs l.slots := by
  cases r with
  | fresh label span => exact Iff.rfl
  | intern name depth span =>
    rw [Request.Needs, Option.eq_none_iff_forall_ne_some]
    constructor
    · intro hlacks slot hslot
      obtain ⟨span', hmem⟩ := h.recorded name depth slot hr hslot
      exact hlacks span' slot hmem
    · intro hnone span' slot hmem
      obtain ⟨-, -, rfl, hslot⟩ := h.has _ slot hmem
      exact hnone slot hslot

/-- Two names at their depths have the same slot only if they are the same. -/
theorem Sound.same_slot (h : l.Sound limit) {name name' : String} {depth depth' : Nat}
    {span span' : Span} {slot slot' : Slot}
    (hmem : (.intern name depth span, .ok slot) ∈ l.history)
    (hmem' : (.intern name' depth' span', .ok slot') ∈ l.history) :
    slot = slot' ↔ name = name' ∧ depth = depth' := by
  obtain ⟨-, -, rfl, hslot⟩ := h.has _ slot hmem
  obtain ⟨-, -, rfl, hslot'⟩ := h.has _ slot' hmem'
  constructor
  · rintro rfl
    cases h.valid.key_unique hslot hslot'
    exact ⟨rfl, rfl⟩
  · rintro ⟨rfl, rfl⟩
    exact Option.some.inj (hslot.symm.trans hslot')

/-- A request is refused if it needs a slot that does not exist yet and there is none left, and for
no other reason. -/
theorem Sound.refused_iff (h : l.Sound limit) (hr : r.Shallow) :
    (∃ e, (r.serve l.slots).1 = .error e) ↔
      l.Lacks r ∧ (limit ≤ l.slots.size ∨ Slots.addressable ≤ l.slots.size) := by
  have hserved := h.valid.served_serve hr
  rw [h.lacks_iff hr, ← h.limit_eq]
  generalize r.serve l.slots = out at hserved
  cases hserved with
  | known hslot =>
    refine iff_of_false ?_ ?_
    · rintro ⟨e, he⟩
      cases he
    · rintro ⟨hneeds, -⟩
      rw [Request.Needs, hslot] at hneeds
      cases hneeds
  | new _ _ hroom =>
    refine iff_of_false ?_ ?_
    · rintro ⟨e, he⟩
      cases he
    · rintro ⟨-, hfull⟩
      omega
  | refused hneeds hfull => exact iff_of_true ⟨_, rfl⟩ ⟨hneeds, by omega⟩

/-- A refused request leaves everybody the slots that they have. -/
theorem Sound.serve_refused (h : l.Sound limit) (hr : r.Shallow) {e : Error}
    (he : (r.serve l.slots).1 = .error e) :
    e = ⟨.outOfSlots limit, r.span⟩ ∧ (r.serve l.slots).2 = r.refused l.slots := by
  have hserved := h.valid.served_serve hr
  rw [← h.limit_eq]
  generalize r.serve l.slots = out at he hserved ⊢
  cases hserved with
  | known | new => cases he
  | refused =>
    cases he
    exact ⟨rfl, rfl⟩

/-- **Slots are numbered as they are first handed out, a name at a depth has one slot, and a slot
without a name is given to nobody else.** There are never more than the limit, a request is refused
if it needs a slot that does not exist yet and there is none left, and for no other reason, and then
nothing changes for those who have slots. -/
theorem ofRequests_slots (limit : Nat) (requests : List Request) (h : ∀ r ∈ requests, r.Shallow) :
    let l := ofRequests limit requests
    l.history.map (·.1) = requests ∧
    l.granted.eraseDups = List.range l.slots.size ∧
    (∀ name depth span slot name' depth' span' slot',
      (.intern name depth span, .ok slot) ∈ l.history →
      (.intern name' depth' span', .ok slot') ∈ l.history →
        (slot = slot' ↔ name = name' ∧ depth = depth')) ∧
    l.history.Pairwise Apart ∧
    l.slots.size ≤ limit ∧
    ∀ r : Request, r.Shallow →
      ((∃ e, (r.serve l.slots).1 = .error e) ↔
        l.Lacks r ∧ (limit ≤ l.slots.size ∨ Slots.addressable ≤ l.slots.size)) ∧
      ∀ e, (r.serve l.slots).1 = .error e →
        e = ⟨.outOfSlots limit, r.span⟩ ∧ e.fault.kind = .capacity ∧
        (l.serve r).slots.size = l.slots.size ∧
        ∀ key, (l.serve r).slots.get? key = l.slots.get? key := by
  intro l
  have hsound : l.Sound limit := sound_ofRequests h
  refine ⟨history_ofRequests limit requests, hsound.granted_eq, ?_, hsound.apart, hsound.size_le,
    fun r hr => ⟨hsound.refused_iff hr, fun e he => ?_⟩⟩
  · intro name depth span slot name' depth' span' slot' hmem hmem'
    exact hsound.same_slot hmem hmem'
  · obtain ⟨rfl, hslots⟩ := hsound.serve_refused hr he
    have hafter : (l.serve r).slots = r.refused l.slots := hslots
    refine ⟨rfl, rfl, ?_, fun key => ?_⟩
    · rw [hafter, Request.size_refused]
    · rw [hafter, Request.get?_refused]

/-- One slot too many is asked for, and then the slot of a name that has one. -/
def crowded : List Request :=
  [.intern "a" 1 default, .fresh "kept" default, .intern "b" 1 default, .intern "a" 1 default]

theorem ofRequests_slots_crowded : (∀ r ∈ crowded, r.Shallow) ∧
    (ofRequests 2 crowded).granted = [0, 1, 0] ∧
    ((Request.intern "b" 1 default).serve (ofRequests 2 crowded).slots).1 =
      .error ⟨.outOfSlots 2, default⟩ ∧
    (ofRequests 2 crowded).Lacks (.intern "b" 1 default) := by
  have hshallow : ∀ r ∈ crowded, r.Shallow := by decide
  have herror : ((Request.intern "b" 1 default).serve (ofRequests 2 crowded).slots).1 =
    .error ⟨.outOfSlots 2, default⟩ := rfl
  obtain ⟨-, -, -, -, -, hnext⟩ := ofRequests_slots 2 crowded hshallow
  obtain ⟨hrefused, -⟩ := hnext (.intern "b" 1 default) (by decide)
  exact ⟨hshallow, by decide, herror, (hrefused.mp ⟨_, herror⟩).1⟩

end Ledger

end RuleScript
