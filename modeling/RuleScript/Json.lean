import RuleScript.Decimal.Layout

/-!
# JSON

JSON documents whose objects keep the order of their fields, and their two written forms: on one
line without blanks, and over several lines with an indent of two.

## Main definitions

* `Json`: the documents; a number is a count or a binary64 number
* `Json.compact`, `Json.pretty`: the written forms
* `Json.tagged`: a case of a sum, as an object with the case's name as its only field
-/

namespace RuleScript

/-- A JSON document. -/
inductive Json
  | null
  | bool (value : Bool)
  | nat (value : Nat)
  | number (value : Float)
  | str (value : String)
  | arr (items : List Json)
  | obj (fields : List (String × Json))
deriving Inhabited

namespace Json

/-- A case of a sum with what it holds. -/
def tagged (name : String) (value : Json) : Json := obj [(name, value)]

/-- A document that may be missing. -/
def ofOption : Option Json → Json
  | none => null
  | some j => j

/-- Numbers are written with a point or an exponent; the exponent has a sign and is for numbers
below `1e-5` and from `1e16` on. -/
def numberLayout : Decimal.Layout := ⟨.toEven, some (-5, 15), true, true⟩

/-- One character inside a string. Controls without a short escape are given by number. -/
def escapeChar (c : Char) : List Char :=
  match c with
  | '"' => ['\\', '"']
  | '\\' => ['\\', '\\']
  | '\x08' => ['\\', 'b']
  | '\x0c' => ['\\', 'f']
  | '\n' => ['\\', 'n']
  | '\r' => ['\\', 'r']
  | '\t' => ['\\', 't']
  | c =>
    if c.toNat < 0x20 then
      "\\u00".toList ++ [Nat.digitChar (c.toNat / 16), Nat.digitChar (c.toNat % 16)]
    else [c]

/-- A string with its quotes. -/
def quote (text : String) : String :=
  String.ofList ('"' :: text.toList.flatMap escapeChar ++ ['"'])

/-- The text of a document that is not an array or an object. A number that is not finite has no
written form and becomes null. -/
def scalar : Json → String
  | null => "null"
  | bool b => if b then "true" else "false"
  | nat n => n.repr
  | number x => if x.isFinite then numberLayout.render x else "null"
  | str s => quote s
  | arr _ | obj _ => ""

mutual

/-- The document on one line. -/
def compact : Json → String
  | arr items => "[" ++ compactItems items ++ "]"
  | obj fields => "\x7b" ++ compactFields fields ++ "\x7d"
  | j => j.scalar

/-- The items of an array with commas between them. -/
def compactItems : List Json → String
  | [] => ""
  | [j] => compact j
  | j :: js => compact j ++ "," ++ compactItems js

/-- The fields of an object with commas between them. -/
def compactFields : List (String × Json) → String
  | [] => ""
  | [(k, j)] => quote k ++ ":" ++ compact j
  | (k, j) :: fs => quote k ++ ":" ++ compact j ++ "," ++ compactFields fs

end

/-- The start of a line at a depth. -/
def newline (depth : Nat) : String := String.ofList ('\n' :: List.replicate (2 * depth) ' ')

mutual

/-- The document over several lines, inside `depth` others. -/
def prettyAt (depth : Nat) : Json → String
  | arr [] => "[]"
  | arr (j :: js) =>
    "[" ++ newline (depth + 1) ++ prettyAt (depth + 1) j ++ prettyItems (depth + 1) js
      ++ newline depth ++ "]"
  | obj [] => "\x7b\x7d"
  | obj ((k, j) :: fs) =>
    "\x7b" ++ newline (depth + 1) ++ quote k ++ ": " ++ prettyAt (depth + 1) j
      ++ prettyFields (depth + 1) fs ++ newline depth ++ "\x7d"
  | j => j.scalar

/-- The items of an array after the first. -/
def prettyItems (depth : Nat) : List Json → String
  | [] => ""
  | j :: js => "," ++ newline depth ++ prettyAt depth j ++ prettyItems depth js

/-- The fields of an object after the first. -/
def prettyFields (depth : Nat) : List (String × Json) → String
  | [] => ""
  | (k, j) :: fs =>
    "," ++ newline depth ++ quote k ++ ": " ++ prettyAt depth j ++ prettyFields depth fs

end

/-- The document over several lines. -/
def pretty (j : Json) : String := prettyAt 0 j

end Json

end RuleScript
