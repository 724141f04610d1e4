/-!
# The shortest decimal of a binary number

A binary64 number stands for an interval of reals: all those that round to it. Its shortest decimal
is the one of fewest digits inside that interval, and of those the one nearest to the number. All
arithmetic is exact and on natural numbers.

## Main definitions

* `Binary.ofFloat?`: a finite number as `mantissa * 2 ^ exponent`
* `Binary.shortest`: its shortest decimal
-/

namespace RuleScript

namespace Decimal

/-- The magnitude `digits * 10 ^ exponent`. -/
structure Scaled where
  digits : Nat
  exponent : Int
deriving DecidableEq, Repr

/-- What to do when two decimals are equally near. -/
inductive Tie
  | up
  | toEven
deriving DecidableEq, Repr

/-- The magnitude `mantissa * 2 ^ exponent` of a number. The number below it is only half as far
away as the one above when `narrowBelow` holds. -/
structure Binary where
  mantissa : Nat
  exponent : Int
  narrowBelow : Bool
deriving DecidableEq, Repr

/-- The smallest mantissa of a normal number, `2 ^ 52`. -/
def leastNormal : Nat := 0x10000000000000

/-- The magnitude of a finite number, read off its bits. -/
def Binary.ofFloat? (x : Float) : Option Binary :=
  let bits := x.toBits.toNat
  let fraction := bits % leastNormal
  let biased := bits / leastNormal % 2048
  -- The greatest exponent is that of infinity and of what is not a number, and the least one that
  -- of the subnormal numbers.
  if biased = 2047 then none
  else if biased = 0 then some ⟨fraction, -1074, false⟩
  else some ⟨leastNormal + fraction, biased - 1075, fraction == 0 && 1 < biased⟩

/-- The sign bit. -/
def isNegative (x : Float) : Bool := 0x8000000000000000 ≤ x.toBits.toNat

/-- How many decimal digits a number has. -/
def digitCount (n : Nat) : Nat := (Nat.toDigits 10 n).length

namespace Binary

/-- The factor that clears the denominators of `2 ^ (exponent - 2)` and `10 ^ power`. -/
def numeratorScale (b : Binary) (power : Int) : Nat :=
  Nat.pow 2 (b.exponent - 2).toNat * Nat.pow 10 (-power).toNat

/-- The width of one step of the decimal grid `10 ^ power`, on the scale of `numeratorScale`. -/
def gridStep (b : Binary) (power : Int) : Nat :=
  Nat.pow 2 (2 - b.exponent).toNat * Nat.pow 10 power.toNat

/-- The least `p` with the number below `10 ^ p`. -/
def magnitude (b : Binary) : Int :=
  let num := b.mantissa * Nat.pow 2 b.exponent.toNat
  let den := Nat.pow 2 (-b.exponent).toNat
  if den ≤ num then digitCount (num / den)
  else 1 - digitCount ((den + num - 1) / num - 1)

/-- Whether `n` steps of the grid lie in the interval of reals that round to the number. The ends
belong to it when the mantissa is even. -/
def contains (b : Binary) (power : Int) (n : Nat) : Bool :=
  let scale := b.numeratorScale power
  -- In quarters of the last place, half the way to the neighbour is two, or one if it is nearer.
  let low := (4 * b.mantissa - if b.narrowBelow then 1 else 2) * scale
  let high := (4 * b.mantissa + 2) * scale
  let point := n * b.gridStep power
  if b.mantissa % 2 = 0 then low ≤ point && point ≤ high else low < point && point < high

/-- Of the number's two neighbours on a decimal grid, the nearer one that rounds to the number. -/
def onGrid? (b : Binary) (tie : Tie) (power : Int) : Option Nat :=
  let value := 4 * b.mantissa * b.numeratorScale power
  let step := b.gridStep power
  let below := value / step
  let twice := 2 * (value % step)
  let belowFirst :=
    twice < step || (twice == step && match tie with | .up => false | .toEven => below % 2 == 0)
  let order := if belowFirst then [below, below + 1] else [below + 1, below]
  order.find? (b.contains power)

/-- The decimal of fewest digits that rounds to the number. Seventeen digits always suffice. -/
def shortest (b : Binary) (tie : Tie) : Scaled :=
  let top := b.magnitude
  let grids := (List.range 17).map fun (i : Nat) => top - 1 - (i : Int)
  match grids.findSome? fun power => (b.onGrid? tie power).map (Scaled.mk · power) with
  | some s => s
  | none => ⟨b.mantissa, b.exponent⟩

end Binary

end Decimal

end RuleScript
