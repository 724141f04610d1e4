import RuleScript.Decimal.Reader
import RuleScript.Json
import RuleScript.Options.Basic
import RuleScript.Options.Fault
import RuleScript.Text.Quoted

/-!
# Reading options

Options are a JSON object with a field per option, or a JSON array with the options in their order.
Options that are left out have their defaults. The reader knows which type it wants next, and so a
value of another type is refused where it is met.

## Main definitions

* `OptionsField`: the options by name
* `Options.ofText`: the options that a text describes
-/

namespace RuleScript

/-- Reading gives a value, mostly with what is left of the text, or the first error. -/
abbrev OptionsM := Except OptionsError

namespace OptionsReader

/-- Fails at a place. -/
def fail {α : Type} (fault : OptionsFault) (unread : List Char) : OptionsM α :=
  .error ⟨fault, unread⟩

/-- Fails at the next character, which counts as read. -/
def failNext {α : Type} (fault : OptionsFault) (unread : List Char) : OptionsM α :=
  .error ⟨fault, unread.tail⟩

/-- Passes over white space. -/
def skipBlank (cs : List Char) : List Char :=
  cs.dropWhile fun c => c == ' ' || c == '\n' || c == '\t' || c == '\r'

/-! ## Strings -/

/-- The value of four hexadecimal digits, with what follows them. -/
def hexEscape (cs : List Char) : OptionsM (Nat × List Char) :=
  if Text.width cs < 4 then fail .eofInString []
  else
    match Decimal.nat? 16 (cs.take 4) with
    | some n => .ok (n, cs.drop 4)
    | none => fail .invalidEscape (cs.drop 4)

/-- A character that has to follow the first half of a surrogate pair. -/
def pairMark (mark : Char) : List Char → OptionsM (List Char)
  | [] => fail .eofInString []
  | c :: cs => if c = mark then .ok cs else fail .hexEscapeEnd cs

/-- The character that an escape by number stands for: a surrogate has to be the first half of a
pair. -/
def unicodeEscape (cs : List Char) : OptionsM (Char × List Char) := do
  let (n, cs) ← hexEscape cs
  if 0xDC00 ≤ n ∧ n ≤ 0xDFFF then fail .loneSurrogate cs
  if n < 0xD800 ∨ 0xDBFF < n then return (Char.ofNat n, cs)
  let cs ← pairMark '\\' cs
  let cs ← pairMark 'u' cs
  let (m, cs) ← hexEscape cs
  if m < 0xDC00 ∨ 0xDFFF < m then fail .loneSurrogate cs
  return (Char.ofNat ((n - 0xD800) * 0x400 + (m - 0xDC00) + 0x10000), cs)

/-- The character that an escape stands for, behind the backslash. -/
def escape : List Char → OptionsM (Char × List Char)
  | [] => fail .eofInString []
  | c :: cs =>
    match c with
    | '"' => .ok ('"', cs)
    | '\\' => .ok ('\\', cs)
    | '/' => .ok ('/', cs)
    | 'b' => .ok ('\x08', cs)
    | 'f' => .ok ('\x0c', cs)
    | 'n' => .ok ('\n', cs)
    | 'r' => .ok ('\r', cs)
    | 't' => .ok ('\t', cs)
    | 'u' => unicodeEscape cs
    | _ => fail .invalidEscape cs

/-- Reads a string behind its opening quote, at most `limit` characters of it. -/
def stringBody : Nat → List Char → OptionsM (List Char × List Char)
  | 0, _ => fail .eofInString []
  | _, [] => fail .eofInString []
  | limit + 1, c :: cs =>
    if c = '"' then .ok ([], cs)
    else if c = '\\' then do
      let (e, cs) ← escape cs
      let (tail, cs) ← stringBody limit cs
      return (e :: tail, cs)
    else if c.toNat < 0x20 then fail .controlCharacter cs
    else do
      let (tail, cs) ← stringBody limit cs
      return (c :: tail, cs)

/-- Reads a string behind its opening quote. -/
def string (cs : List Char) : OptionsM (String × List Char) := do
  let (body, cs) ← stringBody (cs.length + 1) cs
  return (String.ofList body, cs)

/-! ## Numbers -/

/-- A number: a whole number, or one with a fraction, an exponent or too many digits. -/
inductive Number
  | whole (negative : Bool) (value : Nat)
  | real (value : Float)

/-- Takes digits as long as the number they write has 64 bits. -/
def takeDigits (value : Nat) : List Char → Nat × List Char
  | [] => (value, [])
  | c :: cs =>
    match Decimal.digitValue? 10 c with
    | none => (value, c :: cs)
    | some d =>
      if value * 10 + d < 0x10000000000000000 then takeDigits (value * 10 + d) cs
      else (value, c :: cs)

/-- The greatest power of ten that is a number. -/
def greatestPower : Nat := 308

/-- The number `10 ^ power`. -/
def powerOfTen (power : Nat) : Float := Float.ofScientific 1 false power

/-- The number `x / 10 ^ power`, in several steps if the power is no number. -/
def shrink (x : Float) (power : Nat) : Float :=
  if power ≤ greatestPower then x / powerOfTen power
  else if x == 0.0 then x
  else shrink (x / powerOfTen greatestPower) (power - greatestPower)
termination_by power
decreasing_by simp only [greatestPower] at *; omega

/-- The number `digits * 10 ^ exponent`; it is an error if it is too large. -/
def scale (negative : Bool) (digits : Nat) (exponent : Int) (cs : List Char) :
    OptionsM (Number × List Char) :=
  let sign (x : Float) : Float := if negative then -x else x
  if digits = 0 then .ok (.real (sign 0.0), cs)
  else if exponent < 0 then .ok (.real (sign (shrink (Float.ofNat digits) exponent.natAbs)), cs)
  else if greatestPower < exponent then fail .numberOutOfRange cs
  else
    let x := Float.ofNat digits * powerOfTen exponent.toNat
    if x.isFinite then .ok (.real (sign x), cs) else fail .numberOutOfRange cs

/-- Reads an exponent behind its mark. -/
def readExponent (negative : Bool) (digits : Nat) (exponent : Int) (cs : List Char) :
    OptionsM (Number × List Char) :=
  let (minus, cs) := Decimal.splitSign cs
  match cs.takeWhile Char.isDigit, cs with
  | [], [] => fail .eofInValue []
  | [], _ :: rest => fail .invalidNumber rest
  | ds, _ =>
    let n := Decimal.natOfDigits ds
    -- A larger exponent has the same outcome and need not be worked out.
    let n := min n 0x80000000
    let exponent := if minus then exponent - (n : Int) else exponent + (n : Int)
    scale negative digits exponent (cs.dropWhile Char.isDigit)

/-- Reads an exponent, if there is one. -/
def optionalExponent (negative : Bool) (digits : Nat) (exponent : Int) :
    List Char → OptionsM (Number × List Char)
  | 'e' :: cs | 'E' :: cs => readExponent negative digits exponent cs
  | cs => scale negative digits exponent cs

/-- Reads a fraction behind its point. -/
def readFraction (negative : Bool) (digits : Nat) (exponent : Int) (cs : List Char) :
    OptionsM (Number × List Char) :=
  match cs.takeWhile Char.isDigit, cs with
  | [], [] => fail .eofInValue []
  | [], c :: rest => failNext .invalidNumber (c :: rest)
  | _, _ =>
    let (value, rest) := takeDigits digits cs
    optionalExponent negative value (exponent - (cs.length - rest.length : Nat))
      (rest.dropWhile Char.isDigit)

/-- Reads what follows the digits of a number. -/
def behindDigits (negative : Bool) (digits : Nat) (cs : List Char) :
    OptionsM (Number × List Char) :=
  let dropped := cs.takeWhile Char.isDigit
  match cs.dropWhile Char.isDigit with
  | '.' :: rest => readFraction negative digits dropped.length rest
  | 'e' :: rest | 'E' :: rest => readExponent negative digits dropped.length rest
  | rest =>
    if dropped.isEmpty ∧ ¬(negative ∧ (digits = 0 ∨ 0x8000000000000000 < digits)) then
      .ok (.whole negative digits, rest)
    else scale negative digits dropped.length rest

/-- Reads a number behind its sign. -/
def number (negative : Bool) : List Char → OptionsM (Number × List Char)
  | [] => fail .eofInValue []
  | '0' :: cs =>
    if (cs.head?.map Char.isDigit).getD false then failNext .invalidNumber cs
    else behindDigits negative 0 cs
  | c :: cs =>
    if c.isDigit then
      let (digits, rest) := takeDigits 0 (c :: cs)
      behindDigits negative digits rest
    else fail .invalidNumber cs

/-- How a message names a number of the wrong type. -/
def Number.shown : Number → String
  | whole negative n => "integer `" ++ (if negative then "-" else "") ++ n.repr ++ "`"
  | real x => "floating point `" ++ Json.numberLayout.render x ++ "`"

/-! ## Values -/

/-- Reads the letters of a word. -/
def word : List Char → List Char → OptionsM (List Char)
  | [], cs => .ok cs
  | _ :: _, [] => fail .eofInValue []
  | w :: ws, c :: cs => if c = w then word ws cs else fail .expectedIdent cs

/-- The error that a value has the wrong type. The value is read first unless it holds others. -/
def wrongType {α : Type} (wanted : String) (cs : List Char) : OptionsM α := do
  match cs with
  | 'n' :: rest => fail (.wrongType "null" wanted) (← word "ull".toList rest)
  | 't' :: rest => fail (.wrongType "boolean `true`" wanted) (← word "rue".toList rest)
  | 'f' :: rest => fail (.wrongType "boolean `false`" wanted) (← word "alse".toList rest)
  | '-' :: rest =>
    let (n, unread) ← number true rest
    fail (.wrongType n.shown wanted) unread
  | '"' :: rest =>
    let (s, unread) ← string rest
    fail (.wrongType ("string " ++ Text.quoted s) wanted) unread
  | '[' :: _ => fail (.wrongType "sequence" wanted) cs
  | '\x7b' :: _ => fail (.wrongType "map" wanted) cs
  | c :: _ =>
    if c.isDigit then
      let (n, unread) ← number false cs
      fail (.wrongType n.shown wanted) unread
    else failNext .expectedValue cs
  | [] => fail .eofInValue []

/-- Reads a truth value. -/
def bool (cs : List Char) : OptionsM (Bool × List Char) := do
  match skipBlank cs with
  | 't' :: rest => return (true, ← word "rue".toList rest)
  | 'f' :: rest => return (false, ← word "alse".toList rest)
  | rest => wrongType "a boolean" rest

/-- Reads a text. -/
def text (cs : List Char) : OptionsM (String × List Char) :=
  match skipBlank cs with
  | '"' :: rest => string rest
  | rest => wrongType "a string" rest

/-- Reads a count. -/
def count (cs : List Char) : OptionsM (Nat × List Char) := do
  match skipBlank cs with
  | '-' :: rest =>
    let (n, unread) ← number true rest
    match n with
    | .whole _ _ => fail (.wrongValue n.shown "usize") unread
    | .real _ => fail (.wrongType n.shown "usize") unread
  | c :: rest =>
    if c.isDigit then
      let (n, unread) ← number false (c :: rest)
      match n with
      | .whole _ value => return (value, unread)
      | .real _ => fail (.wrongType n.shown "usize") unread
    else wrongType "usize" (c :: rest)
  | [] => fail .eofInValue []

end OptionsReader

/-- The options by name. -/
inductive OptionsField
  | optimize
  | variableArray
  | maxSlots
  | maxInlineDepth
deriving DecidableEq, Repr

namespace OptionsField

/-- All options in their order. -/
def all : List OptionsField := [optimize, variableArray, maxSlots, maxInlineDepth]

/-- The name of an option in a file. -/
def name : OptionsField → String
  | optimize => "optimize"
  | variableArray => "variable_array"
  | maxSlots => "max_slots"
  | maxInlineDepth => "max_inline_depth"

/-- The option of a name. -/
def ofName? (text : String) : Option OptionsField := all.find? (·.name = text)

/-- Reads the value of an option. -/
def read (options : Options) (field : OptionsField) (cs : List Char) :
    OptionsM (Options × List Char) := do
  match field with
  | optimize =>
    let (value, cs) ← OptionsReader.bool cs
    return ({ options with optimize := value }, cs)
  | variableArray =>
    let (value, cs) ← OptionsReader.text cs
    return ({ options with variableArray := value }, cs)
  | maxSlots =>
    let (value, cs) ← OptionsReader.count cs
    return ({ options with maxSlots := value }, cs)
  | maxInlineDepth =>
    let (value, cs) ← OptionsReader.count cs
    return ({ options with maxInlineDepth := value }, cs)

end OptionsField

namespace OptionsReader

/-! ## Arrays -/

/-- Moves on to the next item of an array, if there is one. -/
def nextItem (first : Bool) (cs : List Char) : OptionsM (Bool × List Char) :=
  match skipBlank cs with
  | [] => fail .eofInList []
  | ']' :: rest => .ok (false, ']' :: rest)
  | c :: rest =>
    if first then .ok (true, c :: rest)
    else if c = ',' then
      match skipBlank rest with
      | [] => fail .eofInValue []
      | ']' :: rest => failNext .trailingComma (']' :: rest)
      | rest => .ok (true, rest)
    else failNext .expectedListEnd (c :: rest)

/-- Reads the options of an array, as many as there are. -/
def items (first : Bool) (options : Options) :
    List OptionsField → List Char → OptionsM (Options × List Char)
  | [], cs => .ok (options, cs)
  | field :: fields, cs => do
    let (more, cs) ← nextItem first cs
    if more then
      let (options, cs) ← field.read options cs
      items false options fields cs
    else return (options, cs)

/-- Reads the end of an array. -/
def arrayEnd (cs : List Char) : OptionsM (List Char) :=
  match skipBlank cs with
  | [] => fail .eofInList []
  | ']' :: rest => .ok rest
  | ',' :: rest =>
    match skipBlank rest with
    | ']' :: rest => failNext .trailingComma (']' :: rest)
    | rest => failNext .trailingText rest
  | rest => failNext .trailingText rest

/-! ## Objects -/

/-- Moves on to the next field of an object and reads its name, if there is one. -/
def nextKey (first : Bool) (cs : List Char) : OptionsM (Option String × List Char) := do
  match skipBlank cs with
  | [] => fail .eofInObject []
  | '\x7d' :: rest => return (none, '\x7d' :: rest)
  | c :: rest =>
    if first then
      if c = '"' then
        let (key, rest) ← string rest
        return (some key, rest)
      else failNext .keyNotString (c :: rest)
    else if c = ',' then
      match skipBlank rest with
      | [] => fail .eofInValue []
      | '"' :: rest =>
        let (key, rest) ← string rest
        return (some key, rest)
      | '\x7d' :: rest => failNext .trailingComma ('\x7d' :: rest)
      | rest => failNext .keyNotString rest
    else failNext .expectedObjectEnd (c :: rest)

/-- Reads the colon behind a name. -/
def colon (cs : List Char) : OptionsM (List Char) :=
  match skipBlank cs with
  | [] => fail .eofInObject []
  | ':' :: rest => .ok rest
  | rest => failNext .expectedColon rest

/-- Where a name that is refused is reported: behind the white space that follows it, and behind the
end of the object if that is next. -/
def behindKey (cs : List Char) : List Char :=
  match skipBlank cs with
  | '\x7d' :: rest => rest
  | rest => rest

theorem length_erase_lt {field : OptionsField} {missing : List OptionsField}
    (h : field ∈ missing) : (missing.erase field).length < missing.length := by
  rw [List.length_erase_of_mem h]
  exact Nat.sub_lt (List.length_pos_of_mem h) Nat.one_pos

/-- Reads the fields of an object; each may be there once. -/
def fields (first : Bool) (missing : List OptionsField) (options : Options) (cs : List Char) :
    OptionsM (Options × List Char) := do
  let (key?, cs) ← nextKey first cs
  match key? with
  | none => return (options, cs)
  | some key =>
    match OptionsField.ofName? key with
    | none => fail (.unknownField key (OptionsField.all.map (·.name))) (behindKey cs)
    | some field =>
      if h : field ∈ missing then
        have _ := length_erase_lt h
        let cs ← colon cs
        let (options, cs) ← field.read options cs
        fields false (missing.erase field) options cs
      else fail (.duplicateField key) (behindKey cs)
termination_by missing.length

/-- Reads the end of an object. -/
def objectEnd (cs : List Char) : OptionsM (List Char) :=
  match skipBlank cs with
  | [] => fail .eofInObject []
  | '\x7d' :: rest => .ok rest
  | ',' :: rest => failNext .trailingComma (',' :: rest)
  | rest => failNext .trailingText rest

/-- Reads the options of an object or an array. -/
def document (cs : List Char) : OptionsM (Options × List Char) := do
  match skipBlank cs with
  | [] => fail .eofInValue []
  | '[' :: rest =>
    let (options, rest) ← items true {} OptionsField.all rest
    return (options, ← arrayEnd rest)
  | '\x7b' :: rest =>
    let (options, rest) ← fields true OptionsField.all {} rest
    return (options, ← objectEnd rest)
  | rest => wrongType "struct Options" rest

end OptionsReader

/-- The options that a text describes. -/
def Options.ofText (source : String) : Except OptionsError Options := do
  let (options, rest) ← OptionsReader.document source.toList
  match OptionsReader.skipBlank rest with
  | [] => return options
  | rest => OptionsReader.failNext .trailingText rest

end RuleScript
