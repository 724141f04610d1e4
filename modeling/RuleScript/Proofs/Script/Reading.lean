import RuleScript.Proofs.Script.Target

/-!
# Reading scripts

The reader of a script goes through it line by line. It passes over the indent, and of what is
written in a line it knows only the term, the semicolon behind it, and that an `If` and a `While`
open a body that an `End` closes. A script is read back as it was written if its terms can be read
back and none of them is taken for one of these three.

The indent says the same as these three: the lines of a body are indented by as many tabs as its
first line and all that is open around them.

## Main definitions

* `Script.paragraphs`: the lines of a text, cut at the empty ones
* `Script.BodyReader.step`: what the reader does at one line of a body
* `Script.read`: the entries of a script
* `Script.Entry.Readable`: the terms can be read back

## Main results

* `Script.paragraphs_render`, `Script.read_render`: a script is read back as it was written
* `Script.Step.indented_linesAll`: the indent of a line
-/

namespace RuleScript

namespace Script

/-! ## The reader -/

/-- The line that some characters write: its depth is the number of tabs before its text. -/
def lineOf (cs : List Char) : Line :=
  ⟨(cs.takeWhile (· == '\t')).length, String.ofList (cs.dropWhile (· == '\t'))⟩

/-- The lines of a text, each of which ends with a newline. -/
def linesOf (text : String) : List Line := (text.toList.splitOn '\n').dropLast.map lineOf

/-- The lines of a text, cut at the empty ones. -/
def paragraphs (text : String) : List (List Line) :=
  (linesOf text).splitOnP (·.text.toList.isEmpty)

/-- The term that stands in a line before its end. -/
def termBefore (stop : String) (l : Line) : Option Term :=
  if stop.toList.isSuffixOf l.text.toList then
    Term.read (l.text.toList.take (l.text.toList.length - stop.toList.length))
  else none

/-- What a term does to the bodies that are open. -/
inductive Role
  /-- It opens a body, and this is the step with that body. -/
  | opens (make : List Step → Step)
  | closes
  | plain

namespace Role

/-- Whether it opens a body. -/
def isOpening : Role → Bool
  | opens _ => true
  | closes | plain => false

/-- Whether it closes a body. -/
def isClosing : Role → Bool
  | closes => true
  | opens _ | plain => false

end Role

/-- What a term does to the bodies that are open. -/
def role : Term → Role
  | .app "If" condition [] => .opens (.branch condition)
  | .app "While" condition [] => .opens (.loop condition)
  | .word "End" => .closes
  | _ => .plain

/-- A body that is open: the step it belongs to, and the steps before that, the last one first. -/
structure OpenBody where
  make : List Step → Step
  before : List Step

/-- The state of the reader in a body: the steps so far, the last one first, and the bodies that are
open around it, the innermost one first. -/
structure BodyReader where
  steps : List Step
  outer : List OpenBody

namespace BodyReader

/-- The reader behind one more term. -/
def step : BodyReader → Term → Option BodyReader
  | ⟨steps, outer⟩, t =>
    match role t, outer with
    | .opens make, outer => some ⟨[], ⟨make, steps⟩ :: outer⟩
    | .closes, ⟨make, before⟩ :: outer => some ⟨make steps.reverse :: before, outer⟩
    | .closes, [] => none
    | .plain, outer => some ⟨.plain t :: steps, outer⟩

/-- The reader behind some more lines. -/
def run (r : BodyReader) (ls : List Line) : Option BodyReader :=
  ls.foldlM (fun r l => (termBefore ";" l).bind r.step) r

/-- The steps that were read, if no body is left open. -/
def finish : BodyReader → Option (List Step)
  | ⟨steps, []⟩ => some steps.reverse
  | ⟨_, _ :: _⟩ => none

end BodyReader

/-- The steps that some lines write. -/
def readBody (ls : List Line) : Option (List Step) :=
  ((BodyReader.mk [] []).run ls).bind BodyReader.finish

/-- The entry that a paragraph writes. -/
def readEntry : List Line → Option Entry
  | title :: event :: trigger :: team :: player :: stop :: actions :: rest =>
    match termBefore " \x7b" title, termBefore ";" trigger with
    | some (.app "rule" (.quoted name) []), some (.word trigger) =>
      if [event, team, player, stop, actions].map Line.text =
            ["event \x7b", "All;", "All;", "\x7d", "actions \x7b"] ∧
          (rest.drop (rest.length - 2)).map Line.text = ["\x7d", "\x7d"] then
        (readBody (rest.take (rest.length - 2))).map fun body => ⟨name, trigger, body⟩
      else none
    | _, _ => none
  | _ => none

/-- The entries of a script, one for each paragraph behind the header. -/
def read (text : String) : Option (List Entry) :=
  match paragraphs text with
  | _ :: entries => entries.mapM readEntry
  | [] => none

end Script

/-! ## Lines and paragraphs -/

namespace Text

/-- The text has no end of a line in it. -/
def OneLine (s : String) : Prop := '\n' ∉ s.toList

instance (s : String) : Decidable (OneLine s) := inferInstanceAs (Decidable ('\n' ∉ s.toList))

theorem oneLine_append {s t : String} : OneLine (s ++ t) ↔ OneLine s ∧ OneLine t := by
  simp [OneLine, not_or]

/-- The text can stand in a line: no line ends in it, and the indent ends before it. -/
def Fits (s : String) : Prop := OneLine s ∧ s.toList.head? ≠ some '\t'

instance (s : String) : Decidable (Fits s) :=
  inferInstanceAs (Decidable (OneLine s ∧ s.toList.head? ≠ some '\t'))

theorem fits_append {s t : String} (hs : Fits s) (ht : Fits t) : Fits (s ++ t) := by
  refine ⟨oneLine_append.mpr ⟨hs.1, ht.1⟩, ?_⟩
  rw [String.toList_append]
  cases htext : s.toList with
  | nil => exact ht.2
  | cons c cs => exact fun hc => hs.2 (htext ▸ hc)

end Text

open Text (OneLine Fits)

namespace Line

/-- The characters of a line without its end. -/
def chars (l : Line) : List Char := List.replicate l.depth '\t' ++ l.text.toList

theorem toList_render (l : Line) : l.render.toList = l.chars ++ ['\n'] := by
  simp [render, chars]

theorem newline_not_mem_chars {l : Line} (h : Fits l.text) : '\n' ∉ l.chars := by
  intro hmem
  rcases List.mem_append.mp hmem with hindent | htext
  · exact absurd (List.eq_of_mem_replicate hindent) (by decide)
  · exact h.1 htext

end Line

namespace Script

theorem lineOf_chars {l : Line} (h : Fits l.text) : lineOf l.chars = l := by
  have hspan : ∀ cs : List Char, cs.head? ≠ some '\t' →
      cs.takeWhile (· == '\t') = [] ∧ cs.dropWhile (· == '\t') = cs := by
    intro cs hcs
    cases cs with
    | nil => exact ⟨rfl, rfl⟩
    | cons c cs =>
      have hc : ¬c = '\t' := fun hc => hcs (congrArg some hc)
      simp [hc]
  obtain ⟨htake, hdrop⟩ := hspan _ h.2
  simp [lineOf, Line.chars, htake, hdrop]

theorem splitOn_render {ls : List Line} (h : ∀ l ∈ ls, Fits l.text) :
    (Rule.render ls).toList.splitOn '\n' = ls.map Line.chars ++ [[]] := by
  induction ls with
  | nil => rfl
  | cons l ls ih =>
    obtain ⟨hl, hls⟩ := List.forall_mem_cons.mp h
    have hrender : (Rule.render (l :: ls)).toList =
        l.chars ++ '\n' :: (Rule.render ls).toList := by
      simp [Rule.render, Line.toList_render]
    have hchars : ∀ c ∈ l.chars, (c == '\n') = false := by
      intro c hc
      apply beq_false_of_ne
      rintro rfl
      exact Line.newline_not_mem_chars hl hc
    rw [hrender, List.splitOn,
      List.splitOnP_append_cons_of_forall_mem hchars _ (beq_self_eq_true _)]
    exact congrArg (l.chars :: ·) (ih hls)

/-- The lines of a text are those that were written. -/
theorem linesOf_render {ls : List Line} (h : ∀ l ∈ ls, Fits l.text) :
    linesOf (Rule.render ls) = ls := by
  rw [linesOf, splitOn_render h, List.dropLast_concat, List.map_map]
  exact (List.map_congr_left fun l hl => lineOf_chars (h l hl)).trans (List.map_id _)

theorem splitOnP_flatMap {α : Type} {p : α → Bool} {sep : α} (hsep : p sep = true)
    {first : List α} {others : List (List α)} (hfirst : ∀ x ∈ first, p x = false)
    (hothers : ∀ xs ∈ others, ∀ x ∈ xs, p x = false) :
    (first ++ others.flatMap (sep :: ·)).splitOnP p = first :: others := by
  induction others generalizing first with
  | nil => rw [List.flatMap_nil, List.append_nil, List.splitOnP_eq_singleton hfirst]
  | cons xs others ih =>
    obtain ⟨hxs, hothers⟩ := List.forall_mem_cons.mp hothers
    rw [List.flatMap_cons, List.cons_append,
      List.splitOnP_append_cons_of_forall_mem hfirst sep hsep, ih hxs hothers]

end Script

/-! ## The term in a line -/

namespace Term

/-- The term can be read back, and it stands in one line. -/
abbrev Inline (t : Term) : Prop := t.All (fun w => Unmarked w ∧ OneLine w) OneLine

theorem Inline.readable {t : Term} (h : t.Inline) : t.Readable :=
  h.mono (fun _ hw => hw.1) fun _ _ => trivial

theorem newline_not_mem_escape {cs : List Char} (h : '\n' ∉ cs) :
    '\n' ∉ cs.flatMap Text.escapeChar := by
  intro hmem
  obtain ⟨c, hc, hescape⟩ := List.mem_flatMap.mp hmem
  unfold Text.escapeChar at hescape
  split at hescape
  · rename_i hmark
    simp only [List.mem_cons, List.not_mem_nil, or_false] at hescape
    rcases hescape with hback | rfl
    · exact absurd hback (by decide)
    · exact h hc
  · rw [List.mem_singleton] at hescape
    exact h (hescape ▸ hc)

mutual

theorem Inline.oneLine_text : ∀ {t : Term}, t.Inline → OneLine t.text
  | .word _, h => h.2
  | .quoted content, h => by
    have hcontent := newline_not_mem_escape h
    rw [OneLine, toList_text_quoted]
    simp [hcontent]
  | .app head arg args, ⟨hhead, harg, hargs⟩ => by
    have hhead' : '\n' ∉ head.toList := hhead.2
    have harg' : '\n' ∉ arg.text.toList := Inline.oneLine_text harg
    have hargs' := newline_not_mem_rest hargs
    rw [OneLine, toList_text_app]
    simp [hhead', harg', hargs']

theorem newline_not_mem_rest : ∀ {ts : List Term},
    AllOf (fun w => Unmarked w ∧ OneLine w) OneLine ts → '\n' ∉ rest ts
  | [], _ => List.not_mem_nil
  | t :: ts, ⟨ht, hts⟩ => by
    have ht' : '\n' ∉ t.text.toList := Inline.oneLine_text ht
    have hts' : '\n' ∉ rest ts := newline_not_mem_rest hts
    have hrest : rest (t :: ts) = ',' :: ' ' :: (t.text.toList ++ rest ts) := by
      simp [rest, texts]
    rw [hrest]
    simp [ht', hts']

end

end Term

namespace Script

/-- The term in a line is the one that was written. -/
theorem termBefore_text {t : Term} (h : t.Readable) (depth : Nat) (stop : String) :
    termBefore stop ⟨depth, t.text ++ stop⟩ = some t := by
  have hsuffix : stop.toList.isSuffixOf (t.text ++ stop).toList = true := by
    rw [String.toList_append, List.isSuffixOf_iff_suffix]
    exact List.suffix_append _ _
  have htake : (t.text ++ stop).toList.take ((t.text ++ stop).toList.length - stop.toList.length) =
      t.text.toList := by
    simp
  rw [termBefore, if_pos hsuffix, htake, Term.read_text h]

/-- A call by another name neither opens nor closes a body. -/
theorem role_call {name : String} (h : name ∉ ["If", "While", "End"]) (args : List Term) :
    role (.call name args) = .plain := by
  simp only [List.mem_cons, List.not_mem_nil, or_false, not_or] at h
  obtain ⟨hif, hwhile, hend⟩ := h
  unfold role
  split
  · rename_i heq
    rcases args with _ | ⟨arg, args⟩ <;> cases heq
    exact absurd rfl hif
  · rename_i heq
    rcases args with _ | ⟨arg, args⟩ <;> cases heq
    exact absurd rfl hwhile
  · rename_i heq
    rcases args with _ | ⟨arg, args⟩ <;> cases heq
    exact absurd rfl hend
  · rfl

/-! ## Bodies and entries -/

namespace Step

mutual

/-- The terms in the step can be read back, and are not taken for anything else. -/
def Readable : Step → Prop
  | plain t => t.Inline ∧ t.text.toList.head? ≠ some '\t' ∧ role t = .plain
  | branch condition body | loop condition body => condition.Inline ∧ AllReadable body

/-- The terms in the steps can be read back, and are not taken for anything else. -/
def AllReadable : List Step → Prop
  | [] => True
  | s :: ss => s.Readable ∧ AllReadable ss

end

theorem allReadable_append {ss ts : List Step} (hss : AllReadable ss) (hts : AllReadable ts) :
    AllReadable (ss ++ ts) := by
  induction ss with
  | nil => exact hts
  | cons s ss ih => exact ⟨hss.1, ih hss.2⟩

end Step

namespace BodyReader

theorem run_append (r : BodyReader) (ls ms : List Line) :
    r.run (ls ++ ms) = (r.run ls).bind (·.run ms) := by
  rw [run, List.foldlM_append]
  rfl

theorem run_term {t : Term} (h : t.Readable) (depth : Nat) (r : BodyReader) :
    r.run [⟨depth, t.text ++ ";"⟩] = r.step t := by
  rw [run, List.foldlM_cons, termBefore_text h]
  exact Option.bind_fun_some _

/-- A body behind the term that opens it is read as the body of that step. -/
theorem run_enclosed {t : Term} {make : List Step → Step} (ht : t.Readable)
    (hrole : role t = .opens make) {depth : Nat} {ls : List Line} {body : List Step}
    (hbody : ∀ outer, run ⟨[], outer⟩ ls = some ⟨body.reverse ++ [], outer⟩) (steps : List Step)
    (outer : List OpenBody) :
    run ⟨steps, outer⟩ (⟨depth, t.text ++ ";"⟩ :: ls ++ [⟨depth, (Term.word "End").text ++ ";"⟩]) =
      some ⟨make body :: steps, outer⟩ := by
  have hopen : step ⟨steps, outer⟩ t = some ⟨[], ⟨make, steps⟩ :: outer⟩ := by
    simp only [step, hrole]
  have hend : (Term.word "End").Readable := by decide
  have hclose : step ⟨body.reverse, ⟨make, steps⟩ :: outer⟩ (.word "End") =
      some ⟨make body.reverse.reverse :: steps, outer⟩ := rfl
  rw [← List.singleton_append, List.append_assoc, run_append, run_term ht, hopen,
    Option.bind_some, run_append, hbody, Option.bind_some, List.append_nil,
    run_term hend, hclose, List.reverse_reverse]

mutual

/-- The reader goes over the lines of a step and puts it behind the steps it has read already. -/
theorem run_lines : ∀ {s : Step}, s.Readable → ∀ depth steps outer,
    run ⟨steps, outer⟩ (s.lines depth) = some ⟨s :: steps, outer⟩
  | .plain t, ⟨ht, _, hrole⟩, depth, steps, outer => by
    rw [Step.lines, run_term ht.readable]
    simp only [step, hrole]
  | .branch condition body, ⟨hcondition, hbody⟩, depth, steps, outer => by
    have hterm : (Term.app "If" condition []).Readable :=
      ⟨by decide, hcondition.readable, trivial⟩
    rw [Step.lines]
    exact run_enclosed hterm rfl (run_linesAll hbody (depth + 1) []) steps outer
  | .loop condition body, ⟨hcondition, hbody⟩, depth, steps, outer => by
    have hterm : (Term.app "While" condition []).Readable :=
      ⟨by decide, hcondition.readable, trivial⟩
    rw [Step.lines]
    exact run_enclosed hterm rfl (run_linesAll hbody (depth + 1) []) steps outer

/-- **The reader goes over the lines of a body**, whatever bodies are open around it. -/
theorem run_linesAll : ∀ {ss : List Step}, Step.AllReadable ss → ∀ depth steps outer,
    run ⟨steps, outer⟩ (Step.linesAll depth ss) = some ⟨ss.reverse ++ steps, outer⟩
  | [], _, _, _, _ => rfl
  | s :: ss, ⟨hs, hss⟩, depth, steps, outer => by
    rw [Step.linesAll, run_append, run_lines hs, Option.bind_some, run_linesAll hss,
      List.reverse_cons, List.append_assoc, List.singleton_append]

end

end BodyReader

theorem readBody_linesAll {ss : List Step} (h : Step.AllReadable ss) (depth : Nat) :
    readBody (Step.linesAll depth ss) = some ss := by
  rw [readBody, BodyReader.run_linesAll h, List.append_nil, Option.bind_some, BodyReader.finish,
    List.reverse_reverse]

/-- The texts in the entry can be read back. -/
structure Entry.Readable (e : Entry) : Prop where
  name : OneLine e.name
  trigger : Term.Unmarked e.trigger ∧ OneLine e.trigger
  unindented : e.trigger.toList.head? ≠ some '\t'
  body : Step.AllReadable e.body

/-- A paragraph is read back as the entry that was written. -/
theorem readEntry_lines {e : Entry} (h : e.Readable) : readEntry e.lines = some e := by
  have htitle : (Term.app "rule" (.quoted e.name) []).Readable := ⟨by decide, trivial, trivial⟩
  have htrigger : (Term.word e.trigger).Readable := h.trigger.1
  have hlength : (Step.linesAll 2 e.body ++ [Line.mk 1 "\x7d", ⟨0, "\x7d"⟩]).length - 2 =
      (Step.linesAll 2 e.body).length := by
    simp
  simp only [Entry.lines, List.cons_append, List.nil_append]
  rw [readEntry, termBefore_text htitle, termBefore_text htrigger, hlength, List.take_left,
    List.drop_left, readBody_linesAll h.body]
  rfl

/-! ## Scripts -/

/-- The text of a line that is not empty. -/
def Filled (s : String) : Prop := Fits s ∧ s.toList.isEmpty = false

instance (s : String) : Decidable (Filled s) :=
  inferInstanceAs (Decidable (Fits s ∧ s.toList.isEmpty = false))

theorem filled_append {s t : String} (hs : Fits s) (ht : Filled t) : Filled (s ++ t) := by
  refine ⟨Text.fits_append hs ht.1, ?_⟩
  simpa using fun _ => ht.2

theorem filled_enclosed {t : Term} (ht : Fits t.text) {depth : Nat} {ls : List Line}
    (hls : ∀ l ∈ ls, Filled l.text) :
    ∀ l ∈ (⟨depth, t.text ++ ";"⟩ :: ls ++ [⟨depth, (Term.word "End").text ++ ";"⟩] : List Line),
      Filled l.text := by
  have hend : Filled ((Term.word "End").text ++ ";") := by decide
  rw [List.forall_mem_append, List.forall_mem_cons, List.forall_mem_singleton]
  exact ⟨⟨filled_append ht (by decide), hls⟩, hend⟩

theorem fits_app {head : String} {arg : Term} (hhead : Term.Unmarked head) (hfits : Fits head)
    (harg : arg.Inline) : Fits (Term.app head arg []).text := by
  have hinline : (Term.app head arg []).Inline := ⟨⟨hhead, hfits.1⟩, harg, trivial⟩
  refine ⟨hinline.oneLine_text, ?_⟩
  rw [Term.toList_text_app]
  cases hchars : head.toList with
  | nil => simp
  | cons c cs => exact fun hc => hfits.2 (hchars ▸ hc)

mutual

theorem filled_lines : ∀ {s : Step}, s.Readable → ∀ depth, ∀ l ∈ s.lines depth, Filled l.text
  | .plain t, ⟨ht, hhead, _⟩, depth => by
    rw [Step.lines, List.forall_mem_singleton]
    exact filled_append ⟨ht.oneLine_text, hhead⟩ (by decide)
  | .branch condition body, ⟨hcondition, hbody⟩, depth => by
    rw [Step.lines]
    exact filled_enclosed (fits_app (by decide) (by decide) hcondition)
      (filled_linesAll hbody (depth + 1))
  | .loop condition body, ⟨hcondition, hbody⟩, depth => by
    rw [Step.lines]
    exact filled_enclosed (fits_app (by decide) (by decide) hcondition)
      (filled_linesAll hbody (depth + 1))

theorem filled_linesAll : ∀ {ss : List Step}, Step.AllReadable ss →
    ∀ depth, ∀ l ∈ Step.linesAll depth ss, Filled l.text
  | [], _, _ => by simp [Step.linesAll]
  | s :: ss, ⟨hs, hss⟩, depth => by
    rw [Step.linesAll, List.forall_mem_append]
    exact ⟨filled_lines hs depth, filled_linesAll hss depth⟩

end

theorem filled_entry {e : Entry} (h : e.Readable) : ∀ l ∈ e.lines, Filled l.text := by
  have htitle : Fits (Term.app "rule" (.quoted e.name) []).text :=
    fits_app (by decide) (by decide) h.name
  simp only [Entry.lines, List.forall_mem_append, List.forall_mem_cons]
  exact ⟨⟨⟨filled_append htitle (by decide), by decide,
    filled_append ⟨h.trigger.2, h.unindented⟩ (by decide), by decide, by decide, by decide,
    by decide, List.forall_mem_nil _⟩, filled_linesAll h.body 2⟩,
    by decide, by decide, List.forall_mem_nil _⟩

/-- **The paragraphs of a script** are its header and its entries. -/
theorem paragraphs_render {store : String} (hstore : OneLine store) {entries : List Entry}
    (hentries : ∀ e ∈ entries, e.Readable) :
    paragraphs (Rule.render (lines store entries)) =
      Rule.header store :: entries.map Entry.lines := by
  have hheader : ∀ l ∈ Rule.header store, Filled l.text := by
    have hstore' : Filled ("0: " ++ store) :=
      ⟨⟨Text.oneLine_append.mpr ⟨by decide, hstore⟩, by simp⟩, by simp⟩
    simp only [Rule.header, List.forall_mem_cons]
    exact ⟨by decide, by decide, hstore', by decide, List.forall_mem_nil _⟩
  have hlines : ∀ ls ∈ entries.map Entry.lines, ∀ l ∈ ls, Filled l.text := by
    intro ls hls
    obtain ⟨e, he, rfl⟩ := List.mem_map.mp hls
    exact filled_entry (hentries e he)
  have hfits : ∀ l ∈ lines store entries, Fits l.text := by
    intro l hl
    rcases List.mem_append.mp hl with hl | hl
    · exact (hheader l hl).1
    · obtain ⟨e, he, hl⟩ := List.mem_flatMap.mp hl
      rcases List.mem_cons.mp hl with rfl | hl
      · decide
      · exact (filled_entry (hentries e he) l hl).1
  -- No line of the header or of an entry is empty, so the text is cut between them only.
  rw [paragraphs, linesOf_render hfits, lines, ← List.flatMap_map Entry.lines (Line.mk 0 "" :: ·)]
  exact splitOnP_flatMap rfl (fun l hl => (hheader l hl).2)
    fun ls hls l hl => (hlines ls hls l hl).2

/-- **A script is read back** as it was written. -/
theorem read_render {store : String} (hstore : OneLine store) {entries : List Entry}
    (hentries : ∀ e ∈ entries, e.Readable) :
    read (Rule.render (lines store entries)) = some entries := by
  rw [read, paragraphs_render hstore hentries]
  show (entries.map Entry.lines).mapM readEntry = some entries
  clear hstore
  induction entries with
  | nil => rfl
  | cons e entries ih =>
    obtain ⟨he, hentries⟩ := List.forall_mem_cons.mp hentries
    rw [List.map_cons, List.mapM_cons, readEntry_lines he, ih hentries]
    rfl

/-! ## The indent -/

/-- Whether the line is read as one that opens a body. -/
def opens (l : Line) : Bool := (termBefore ";" l).any fun t => (role t).isOpening

/-- Whether the line is read as one that closes a body. -/
def closes (l : Line) : Bool := (termBefore ";" l).any fun t => (role t).isClosing

theorem opens_text {t : Term} (h : t.Readable) (depth : Nat) :
    opens ⟨depth, t.text ++ ";"⟩ = (role t).isOpening := by
  rw [opens, termBefore_text h, Option.any_some]

theorem closes_text {t : Term} (h : t.Readable) (depth : Nat) :
    closes ⟨depth, t.text ++ ";"⟩ = (role t).isClosing := by
  rw [closes, termBefore_text h, Option.any_some]

theorem closes_end (depth : Nat) : closes ⟨depth, (Term.word "End").text ++ ";"⟩ = true := by
  have hend : (Term.word "End").Readable := by decide
  exact closes_text hend depth

/-- No line is read as both. -/
theorem not_opens_and_closes (l : Line) : ¬(opens l = true ∧ closes l = true) := by
  rw [opens, closes]
  cases termBefore ";" l with
  | none => simp
  | some t =>
    rw [Option.any_some, Option.any_some]
    cases role t <;> simp [Role.isOpening, Role.isClosing]

/-- Each line is indented by the depth and all that is open around it, and what is opened in the
lines is closed in them. A line that closes a body does not stand in that body. -/
structure Indented (depth : Nat) (ls : List Line) : Prop where
  indent : ∀ before l after, ls = before ++ l :: after →
    l.depth + (before ++ [l]).countP closes = depth + before.countP opens
  balanced : ls.countP opens = ls.countP closes

namespace Indented

theorem nil (depth : Nat) : Indented depth [] := by
  constructor
  · intro before l after h
    exact absurd h (by simp)
  · rfl

theorem singleton {l : Line} (hopens : opens l = false) (hcloses : closes l = false) :
    Indented l.depth [l] := by
  constructor
  · intro before l' after h
    obtain ⟨rfl, rfl, rfl⟩ : before = [] ∧ l' = l ∧ after = [] := by
      simpa [List.append_eq_cons_iff] using h.symm
    simp [hcloses]
  · simp [hopens, hcloses]

/-- The lines of two bodies one after the other. -/
theorem append {depth : Nat} {ls ms : List Line} (hls : Indented depth ls)
    (hms : Indented depth ms) : Indented depth (ls ++ ms) := by
  constructor
  · intro before l after h
    rcases List.append_eq_append_iff.mp h with ⟨before', rfl, hms'⟩ | ⟨after', hls', hafter⟩
    · -- The line is one of the second body, and the first one is closed before it.
      have hindent := hms.indent before' l after hms'
      have hbalanced := hls.balanced
      simp only [List.countP_append, List.append_assoc] at hindent ⊢
      omega
    · cases after' with
      | nil =>
        rw [List.append_nil] at hls'
        subst hls'
        have hindent := hms.indent [] l after hafter.symm
        have hbalanced := hls.balanced
        simp only [List.countP_append, List.nil_append, List.countP_nil] at hindent ⊢
        omega
      | cons l' after' =>
        obtain ⟨rfl, rfl⟩ := List.cons.inj hafter
        exact hls.indent before l after' hls'
  · rw [List.countP_append, List.countP_append, hls.balanced, hms.balanced]

/-- The lines of a body between the one that opens it and the one that closes it. -/
theorem enclose {first last : Line} {depth : Nat} {ls : List Line} (hfirst : opens first = true)
    (hlast : closes last = true) (hdepth : first.depth = depth) (hdepth' : last.depth = depth)
    (hls : Indented (depth + 1) ls) : Indented depth (first :: (ls ++ [last])) := by
  have hfirst' : closes first = false :=
    Bool.eq_false_iff.mpr fun h => not_opens_and_closes first ⟨hfirst, h⟩
  have hlast' : opens last = false :=
    Bool.eq_false_iff.mpr fun h => not_opens_and_closes last ⟨h, hlast⟩
  have hbalanced := hls.balanced
  constructor
  · intro before l after h
    cases before with
    | nil =>
      obtain ⟨rfl, -⟩ := List.cons.inj h
      simp [hfirst', hdepth]
    | cons b before =>
      obtain ⟨rfl, htail⟩ := List.cons.inj h
      rcases List.append_eq_append_iff.mp htail with ⟨before', rfl, htail'⟩ | ⟨after', hls', hafter⟩
      · -- The line is the one that closes the body.
        obtain ⟨rfl, rfl, rfl⟩ : before' = [] ∧ l = last ∧ after = [] := by
          simpa [List.append_eq_cons_iff] using htail'.symm
        simp [List.countP_append, hfirst, hfirst', hlast]
        omega
      · cases after' with
        | nil =>
          obtain ⟨rfl, -⟩ := List.cons.inj hafter
          rw [List.append_nil] at hls'
          subst hls'
          simp [List.countP_append, hfirst, hfirst', hlast]
          omega
        | cons l' after' =>
          obtain ⟨rfl, rfl⟩ := List.cons.inj hafter
          have hindent := hls.indent before l after' hls'
          simp [hfirst, hfirst'] at hindent ⊢
          omega
  · simp [hfirst, hfirst', hlast, hlast', hbalanced]

end Indented

namespace Step

mutual

theorem indented_lines : ∀ {s : Step}, s.Readable → ∀ depth, Indented depth (s.lines depth)
  | .plain t, ⟨ht, _, hrole⟩, depth => by
    have hopens := opens_text ht.readable depth
    have hcloses := closes_text ht.readable depth
    rw [hrole] at hopens hcloses
    exact Indented.singleton hopens hcloses
  | .branch condition body, ⟨hcondition, hbody⟩, depth => by
    have hterm : (Term.app "If" condition []).Readable :=
      ⟨by decide, hcondition.readable, trivial⟩
    rw [Step.lines]
    exact Indented.enclose (opens_text hterm depth) (closes_end depth) rfl rfl
      (indented_linesAll hbody (depth + 1))
  | .loop condition body, ⟨hcondition, hbody⟩, depth => by
    have hterm : (Term.app "While" condition []).Readable :=
      ⟨by decide, hcondition.readable, trivial⟩
    rw [Step.lines]
    exact Indented.enclose (opens_text hterm depth) (closes_end depth) rfl rfl
      (indented_linesAll hbody (depth + 1))

/-- **The indent of a body.** Its lines are indented by its depth and all that is open around
them. -/
theorem indented_linesAll : ∀ {ss : List Step}, AllReadable ss →
    ∀ depth, Indented depth (linesAll depth ss)
  | [], _, depth => .nil depth
  | s :: ss, ⟨hs, hss⟩, depth => by
    rw [linesAll]
    exact (indented_lines hs depth).append (indented_linesAll hss depth)

end

end Step

end Script

end RuleScript
