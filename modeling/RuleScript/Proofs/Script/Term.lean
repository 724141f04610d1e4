import RuleScript.Text.Escape

/-!
# Terms of a rule text

What stands in a line of a rule text is a *term*: a word, a quoted text, or a word with other terms
in parentheses after it. The reader of terms knows nothing about rules. It goes through the
characters from left to right and knows only quotes with backslashes inside them, parentheses and
commas. Every word that is free of these marks, and every quoted text at all, is read back as it was
written.

## Main definitions

* `Term`: the terms, and `Term.text`: how they are written
* `Term.Reader.step`: what the reader does at one character
* `Term.read`: the term that a text writes
* `Term.All`: a property of the words in a term, and another of what is quoted in it

## Main results

* `Term.read_text`: what is written is read back
-/

namespace RuleScript

/-- What stands in a rule text where an action or a value is wanted. Parentheses are never empty. -/
inductive Term
  | word (text : String)
  | quoted (content : String)
  | app (head : String) (arg : Term) (args : List Term)

namespace Term

/-! ## Writing -/

mutual

/-- The text of a term. -/
def text : Term → String
  | word text => text
  | quoted content => "\"" ++ Text.escape content ++ "\""
  | app head arg args => head ++ "(" ++ ", ".intercalate (arg.text :: texts args) ++ ")"

/-- The texts of some terms. -/
def texts : List Term → List String
  | [] => []
  | t :: ts => t.text :: texts ts

end

/-- A word with arguments, or the bare word if there are none. -/
def call (head : String) : List Term → Term
  | [] => word head
  | arg :: args => app head arg args

/-- The characters of terms that stand behind another one. -/
def rest (ts : List Term) : List Char := (texts ts).flatMap fun s => ',' :: ' ' :: s.toList

theorem toList_intercalate (s : String) (ss : List String) :
    (", ".intercalate (s :: ss)).toList =
      s.toList ++ ss.flatMap fun s => ',' :: ' ' :: s.toList := by
  induction ss generalizing s with
  | nil => simp
  | cons u ss ih =>
    rw [String.intercalate_cons_cons, String.toList_append, ih]
    simp

theorem toList_text_app (head : String) (arg : Term) (args : List Term) :
    (app head arg args).text.toList =
      head.toList ++ '(' :: (arg.text.toList ++ (rest args ++ [')'])) := by
  simp only [text, String.toList_append, toList_intercalate, rest]
  simp

theorem toList_text_quoted (content : String) :
    (quoted content).text.toList =
      '"' :: (content.toList.flatMap Text.escapeChar ++ ['"']) := by
  simp [text, Text.escape]

/-! ## Reading -/

/-- A parenthesis that is open: the word before it, and the terms behind it so far, the last one
first. -/
structure Frame where
  head : String
  args : List Term

/-- What the reader is in the middle of. -/
inductive Mode
  /-- A word, its characters so far, the last one first. -/
  | word (chars : List Char)
  /-- A quoted text, its characters so far, the last one first. -/
  | quote (chars : List Char)
  /-- A quoted text behind a backslash. -/
  | escape (chars : List Char)
  /-- Behind a closing quote or parenthesis: the whole term. -/
  | done (t : Term)
  /-- Behind a comma. -/
  | comma

/-- The state of the reader: what it is in the middle of, and the open parentheses, the innermost
one first. -/
structure Reader where
  mode : Mode
  frames : List Frame

namespace Reader

/-- The reader at the start of a term. -/
def start (frames : List Frame) : Reader := ⟨.word [], frames⟩

/-- A term has ended before a comma or a closing parenthesis. -/
def close (t : Term) (c : Char) : List Frame → Option Reader
  | [] => none
  | f :: fs =>
    if c = ',' then some ⟨.comma, { f with args := t :: f.args } :: fs⟩
    else if c = ')' then some ⟨.done (call f.head (t :: f.args).reverse), fs⟩
    else none

/-- The reader behind one more character. -/
def step : Reader → Char → Option Reader
  | ⟨.word chars, fs⟩, c =>
    if c = '(' then some (start (⟨String.ofList chars.reverse, []⟩ :: fs))
    else if c = ',' ∨ c = ')' then close (.word (String.ofList chars.reverse)) c fs
    -- A quote opens a text only where a term starts.
    else if c = '"' then if chars.isEmpty then some ⟨.quote [], fs⟩ else none
    else some ⟨.word (c :: chars), fs⟩
  | ⟨.quote chars, fs⟩, c =>
    if c = '\\' then some ⟨.escape chars, fs⟩
    else if c = '"' then some ⟨.done (quoted (String.ofList chars.reverse)), fs⟩
    else some ⟨.quote (c :: chars), fs⟩
  | ⟨.escape chars, fs⟩, c => some ⟨.quote (c :: chars), fs⟩
  | ⟨.done t, fs⟩, c => close t c fs
  | ⟨.comma, fs⟩, c => if c = ' ' then some (start fs) else none

/-- The term that the reader has read, if it is not in the middle of one. -/
def finish : Reader → Option Term
  | ⟨.word chars, []⟩ => some (.word (String.ofList chars.reverse))
  | ⟨.done t, []⟩ => some t
  | _ => none

/-- The reader behind some more characters. -/
def run (r : Reader) (cs : List Char) : Option Reader := cs.foldlM step r

end Reader

/-- The term that a text writes. -/
def read (cs : List Char) : Option Term := ((Reader.start []).run cs).bind Reader.finish

/-! ## Words and quoted texts -/

mutual

/-- One property holds of all words in a term, and another of all that is quoted in it. -/
def All (W Q : String → Prop) : Term → Prop
  | word text => W text
  | quoted content => Q content
  | app head arg args => W head ∧ arg.All W Q ∧ AllOf W Q args

/-- One property holds of all words in some terms, and another of all that is quoted in them. -/
def AllOf (W Q : String → Prop) : List Term → Prop
  | [] => True
  | t :: ts => t.All W Q ∧ AllOf W Q ts

end

section All

variable {W Q W' Q' : String → Prop}

mutual

/-- The property of all words and all that is quoted can be checked. -/
def decideAll [DecidablePred W] [DecidablePred Q] : (t : Term) → Decidable (t.All W Q)
  | word text => inferInstanceAs (Decidable (W text))
  | quoted content => inferInstanceAs (Decidable (Q content))
  | app head arg args =>
    have := decideAll arg
    have := decideAllOf args
    inferInstanceAs (Decidable (W head ∧ arg.All W Q ∧ AllOf W Q args))

/-- The property of all words and all that is quoted can be checked. -/
def decideAllOf [DecidablePred W] [DecidablePred Q] : (ts : List Term) → Decidable (AllOf W Q ts)
  | [] => inferInstanceAs (Decidable True)
  | t :: ts =>
    have := decideAll t
    have := decideAllOf ts
    inferInstanceAs (Decidable (t.All W Q ∧ AllOf W Q ts))

end

instance [DecidablePred W] [DecidablePred Q] (t : Term) : Decidable (t.All W Q) := decideAll t

theorem all_call {head : String} {args : List Term} (hhead : W head) (hargs : AllOf W Q args) :
    (call head args).All W Q := by
  cases args with
  | nil => exact hhead
  | cons arg args => exact ⟨hhead, hargs⟩

mutual

theorem All.mono (hW : ∀ w, W w → W' w) (hQ : ∀ q, Q q → Q' q) :
    ∀ {t : Term}, t.All W Q → t.All W' Q'
  | .word w, h => hW w h
  | .quoted q, h => hQ q h
  | .app head _ _, ⟨hhead, harg, hargs⟩ => ⟨hW head hhead, harg.mono hW hQ, hargs.mono hW hQ⟩

theorem AllOf.mono (hW : ∀ w, W w → W' w) (hQ : ∀ q, Q q → Q' q) :
    ∀ {ts : List Term}, AllOf W Q ts → AllOf W' Q' ts
  | [], _ => trivial
  | _ :: _, ⟨h, hs⟩ => ⟨h.mono hW hQ, hs.mono hW hQ⟩

end

end All

/-! ## What is written is read back -/

/-- The characters that end a word. -/
def marks : List Char := ['(', ')', ',', '"']

/-- The text has none of the characters that end a word. -/
def Unmarked (text : String) : Prop := ∀ c ∈ text.toList, c ∉ marks

-- Only the characters of the text are tried, not every character there is.
instance (text : String) : Decidable (Unmarked text) := List.decidableBAll _ text.toList

/-- No word in the term holds a mark. What is quoted does not matter. -/
abbrev Readable (t : Term) : Prop := t.All Unmarked fun _ => True

namespace Reader

theorem run_append (r : Reader) (cs ds : List Char) :
    r.run (cs ++ ds) = (r.run cs).bind (·.run ds) := by
  rw [run, List.foldlM_append]
  rfl

theorem run_cons (r : Reader) (c : Char) (cs : List Char) :
    r.run (c :: cs) = (r.step c).bind (·.run cs) := by
  rw [run, List.foldlM_cons]
  rfl

theorem run_singleton (r : Reader) (c : Char) : r.run [c] = r.step c := by
  rw [run_cons]
  exact Option.bind_fun_some _

/-- A character that is no mark is one more of the word. -/
theorem step_word {c : Char} (hc : c ∉ marks) (chars : List Char) (fs : List Frame) :
    step ⟨.word chars, fs⟩ c = some ⟨.word (c :: chars), fs⟩ := by
  simp only [marks, List.mem_cons, List.not_mem_nil, or_false, not_or] at hc
  obtain ⟨hopen, hclose, hcomma, hquote⟩ := hc
  simp [step, hopen, hclose, hcomma, hquote]

theorem run_word {cs : List Char} (h : ∀ c ∈ cs, c ∉ marks) (chars : List Char)
    (fs : List Frame) :
    run ⟨.word chars, fs⟩ cs = some ⟨.word (cs.reverse ++ chars), fs⟩ := by
  induction cs generalizing chars with
  | nil => rfl
  | cons c cs ih =>
    obtain ⟨hc, hcs⟩ := List.forall_mem_cons.mp h
    rw [run_cons, step_word hc, Option.bind_some, ih hcs]
    simp

/-- An escaped character is one more of the quoted text, whatever it is. -/
theorem run_escapeChar (c : Char) (chars : List Char) (fs : List Frame) :
    run ⟨.quote chars, fs⟩ (Text.escapeChar c) = some ⟨.quote (c :: chars), fs⟩ := by
  unfold Text.escapeChar
  split
  · simp [run, step]
  · rename_i hc
    obtain ⟨hbackslash, hquote⟩ := not_or.mp hc
    simp [run, step, hbackslash, hquote]

theorem run_escape (cs chars : List Char) (fs : List Frame) :
    run ⟨.quote chars, fs⟩ (cs.flatMap Text.escapeChar) =
      some ⟨.quote (cs.reverse ++ chars), fs⟩ := by
  induction cs generalizing chars with
  | nil => rfl
  | cons c cs ih =>
    rw [List.flatMap_cons, run_append, run_escapeChar, Option.bind_some, ih]
    simp

/-- The reader behind a term. A word might still go on. -/
def behind : Term → List Frame → Reader
  | .word text, fs => ⟨.word text.toList.reverse, fs⟩
  | .quoted content, fs => ⟨.done (.quoted content), fs⟩
  | .app head arg args, fs => ⟨.done (.app head arg args), fs⟩

/-- A comma or a closing parenthesis ends the term before it. -/
theorem step_behind (t : Term) {c : Char} (hc : c = ',' ∨ c = ')') (fs : List Frame) :
    step (behind t fs) c = close t c fs := by
  cases t with
  | word text =>
    rcases hc with rfl | rfl <;> simp [behind, step]
  | quoted | app => rfl

theorem finish_behind (t : Term) : finish (behind t []) = some t := by
  cases t with
  | word text => simp [behind, finish]
  | quoted | app => rfl

mutual

/-- **The reader goes over a term** and is behind it then, whatever parentheses are open. -/
theorem run_text : ∀ {t : Term}, t.Readable →
    ∀ fs, (start fs).run t.text.toList = some (behind t fs)
  | .word text, h, fs => by
    rw [Term.text, start, run_word h, List.append_nil, behind]
  | .quoted content, _, fs => by
    -- Between the quotes every character is escaped, so the next quote that is not ends them.
    have hopen : (start fs).step '"' = some ⟨.quote [], fs⟩ := rfl
    have hclose : step ⟨.quote content.toList.reverse, fs⟩ '"' =
        some ⟨.done (.quoted content), fs⟩ := by
      simp [step]
    rw [toList_text_quoted, run_cons, hopen, Option.bind_some, run_append, run_escape,
      Option.bind_some, List.append_nil, run_singleton, hclose, behind]
  | .app head arg args, ⟨hhead, harg, hargs⟩, fs => by
    have hopen : step ⟨.word head.toList.reverse, fs⟩ '(' = some (start (⟨head, []⟩ :: fs)) := by
      simp [step]
    rw [toList_text_app, run_append, start, run_word hhead, Option.bind_some, List.append_nil,
      run_cons, hopen, Option.bind_some, run_append, run_text harg, Option.bind_some,
      run_rest hargs]
    rfl

/-- The reader goes over the terms behind another one up to the closing parenthesis, and puts them
behind those that it has read already. -/
theorem run_rest : ∀ {ts : List Term}, AllOf Unmarked (fun _ => True) ts → ∀ t head args fs,
    (behind t (⟨head, args⟩ :: fs)).run (rest ts ++ [')']) =
      some ⟨.done (call head (args.reverse ++ t :: ts)), fs⟩
  | [], _, t, head, args, fs => by
    have hclose : close t ')' (⟨head, args⟩ :: fs) =
        some ⟨.done (call head (t :: args).reverse), fs⟩ := rfl
    rw [rest, texts, List.flatMap_nil, List.nil_append, run_singleton, step_behind t (.inr rfl),
      hclose, List.reverse_cons]
  | u :: ts, ⟨hu, hts⟩, t, head, args, fs => by
    have hcomma : close t ',' (⟨head, args⟩ :: fs) = some ⟨.comma, ⟨head, t :: args⟩ :: fs⟩ := rfl
    have hspace : step ⟨.comma, ⟨head, t :: args⟩ :: fs⟩ ' ' =
        some (start (⟨head, t :: args⟩ :: fs)) := rfl
    have hrest : rest (u :: ts) ++ [')'] =
        ',' :: ' ' :: (u.text.toList ++ (rest ts ++ [')'])) := by
      simp [rest, texts]
    rw [hrest, run_cons, step_behind t (.inl rfl), hcomma, Option.bind_some, run_cons, hspace,
      Option.bind_some, run_append, run_text hu, Option.bind_some, run_rest hts,
      List.reverse_cons, List.append_assoc, List.singleton_append]

end

end Reader

/-- **What is written is read back.** -/
theorem read_text {t : Term} (h : t.Readable) : read t.text.toList = some t := by
  rw [read, Reader.run_text h, Option.bind_some, Reader.finish_behind]

end Term

end RuleScript
