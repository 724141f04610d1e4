/-!
# Reading decimal numbers

The reader of decimal texts rounds the exact value of a text to the nearest binary64 number. The
plain form is digits with an optional fraction. The general form also has a sign, an exponent and
names for the numbers that are not finite.

## Main definitions

* `Decimal.ofDigits`: the value of a whole part and a fraction
* `Decimal.read?`: the value of a text in the general form
-/

namespace RuleScript

namespace Decimal

/-- The value of a digit in a base of at most thirty-six, letters of either case included. -/
def digitValue? (base : Nat) (c : Char) : Option Nat :=
  let value? :=
    if '0' ≤ c ∧ c ≤ '9' then some (c.toNat - '0'.toNat)
    else if 'a' ≤ c ∧ c ≤ 'z' then some (c.toNat - 'a'.toNat + 10)
    else if 'A' ≤ c ∧ c ≤ 'Z' then some (c.toNat - 'A'.toNat + 10)
    else none
  value?.filter (· < base)

/-- The number that digits write in a base, after the digits that gave `value`. -/
def natFrom? (base : Nat) (value : Nat) : List Char → Option Nat
  | [] => some value
  | c :: cs => do natFrom? base (value * base + (← digitValue? base c)) cs

/-- The number that a non-empty list of digits writes in a base. -/
def nat? (base : Nat) : List Char → Option Nat
  | [] => none
  | cs => natFrom? base 0 cs

/-- The number that decimal digits write; anything else counts as zero. -/
def natOfDigits (digits : List Char) : Nat := (natFrom? 10 0 digits).getD 0

/-- The number with this whole part and this fraction. -/
def ofDigits (whole fraction : List Char) : Float :=
  Float.ofScientific (natOfDigits (whole ++ fraction)) true fraction.length

/-- The number `digits * 10 ^ exponent`. An exponent outside the range of the numbers is cut short,
so that no power is taken that cannot matter. -/
def ofScaled (digits : Nat) (exponent : Int) : Float :=
  let length := (Nat.toDigits 10 digits).length
  if digits = 0 then 0.0
  else if 400 < exponent + length then Float.ofScientific 1 false 400
  else if exponent + length < -400 then 0.0
  else Float.ofScientific digits (exponent < 0) exponent.natAbs

/-- A sign in front of a text. -/
def splitSign : List Char → Bool × List Char
  | '-' :: cs => (true, cs)
  | '+' :: cs => (false, cs)
  | cs => (false, cs)

/-- The exponent part of a number text: nothing, or a mark, a sign and digits. -/
def readExponent? : List Char → Option Int
  | [] => some 0
  | c :: cs =>
    if c = 'e' ∨ c = 'E' then
      let (negative, digits) := splitSign cs
      (nat? 10 digits).map fun n => if negative then -(n : Int) else n
    else none

/-- The magnitude of a number text without its sign. -/
def readMagnitude? (cs : List Char) : Option Float :=
  let name := String.ofList (cs.map Char.toLower)
  if name = "nan" then some (0.0 / 0.0)
  else if name = "inf" ∨ name = "infinity" then some (1.0 / 0.0)
  else
    let whole := cs.takeWhile Char.isDigit
    let afterWhole := cs.dropWhile Char.isDigit
    let (fraction, tail) :=
      match afterWhole with
      | '.' :: ds => (ds.takeWhile Char.isDigit, ds.dropWhile Char.isDigit)
      | ds => ([], ds)
    if whole.isEmpty && fraction.isEmpty then none
    else (readExponent? tail).map fun e =>
      ofScaled (natOfDigits (whole ++ fraction)) (e - fraction.length)

/-- The number that a text writes, if it writes one. -/
def read? (text : String) : Option Float :=
  let (negative, cs) := splitSign text.toList
  (readMagnitude? cs).map fun x => if negative then -x else x

end Decimal

end RuleScript
