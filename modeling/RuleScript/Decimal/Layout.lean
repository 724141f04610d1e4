import RuleScript.Decimal.Shortest

/-!
# Number texts

A number is written with the digits of its shortest decimal. A layout says how those digits are laid
out; each format of the library that holds numbers has one.

## Main definitions

* `Layout`: the decisions of a format
* `Layout.render`: the text of a number
-/

namespace RuleScript

namespace Decimal

/-- Digits `d₀ d₁ …` that stand for `d₀.d₁… * 10 ^ exponent`, with no zero at the end unless the
number is zero. -/
structure Scientific where
  digits : List Char
  exponent : Int
deriving DecidableEq, Repr

/-- Drops the zeros at the end of a list of digits, but not the first digit. -/
def trimZeros (digits : List Char) : List Char :=
  match (digits.reverse.dropWhile (· == '0')).reverse with
  | [] => ['0']
  | ds => ds

/-- The scientific form of a decimal. -/
def Scaled.scientific (s : Scaled) : Scientific :=
  let digits := Nat.toDigits 10 s.digits
  ⟨trimZeros digits, if s.digits = 0 then 0 else s.exponent + (digits.length - 1 : Nat)⟩

/-- How a format lays out the digits of a number. -/
structure Layout where
  /-- Which of two equally near decimals is taken. -/
  tie : Tie
  /-- The least and the greatest exponent that is written without an exponent, if there is a
  limit. -/
  positional : Option (Int × Int)
  /-- Whether a whole number without exponent ends in `.0`. -/
  wholePoint : Bool
  /-- Whether a positive exponent has a plus sign. -/
  plusSign : Bool

namespace Layout

/-- Whether a number of this exponent is written without an exponent. -/
def isPositional (l : Layout) (exponent : Int) : Bool :=
  match l.positional with
  | none => true
  | some (low, high) => low ≤ exponent && exponent ≤ high

/-- The text of a number without exponent. -/
def positionalText (l : Layout) (s : Scientific) : List Char :=
  if s.exponent < 0 then
    '0' :: '.' :: List.replicate (-s.exponent - 1).toNat '0' ++ s.digits
  else
    let whole := s.exponent.toNat + 1
    if s.digits.length ≤ whole then
      s.digits ++ List.replicate (whole - s.digits.length) '0'
        ++ (if l.wholePoint then ['.', '0'] else [])
    else s.digits.take whole ++ '.' :: s.digits.drop whole

/-- The text of a number with exponent. -/
def scientificText (l : Layout) (s : Scientific) : List Char :=
  let mantissa :=
    match s.digits with
    | d :: e :: ds => d :: '.' :: e :: ds
    | ds => ds
  let sign := if s.exponent < 0 then ['-'] else if l.plusSign then ['+'] else []
  mantissa ++ 'e' :: sign ++ Nat.toDigits 10 s.exponent.natAbs

/-- The text of a magnitude. -/
def magnitudeText (l : Layout) (b : Binary) : List Char :=
  let s := if b.mantissa = 0 then (Scaled.mk 0 0).scientific else (b.shortest l.tie).scientific
  if l.isPositional s.exponent then l.positionalText s else l.scientificText s

/-- The text of a number. The sign of zero is kept, and the numbers that are not finite have
names. -/
def render (l : Layout) (x : Float) : String :=
  match Binary.ofFloat? x with
  | some b => String.ofList ((if isNegative x then ['-'] else []) ++ l.magnitudeText b)
  | none => if x.isNaN then "NaN" else if isNegative x then "-inf" else "inf"

end Layout

/-- The plainest layout: never an exponent, and a whole number has no point. -/
def plain : Layout := ⟨.up, none, false, false⟩

end Decimal

end RuleScript
