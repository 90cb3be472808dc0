/-
  DurableStore.Score.Shortest
  ────────────────────────────────
  **DECIMALS THAT STAND FOR SCORES.**

  A decimal is `digits · 10^exponent`.  Every decimal has one nearest
  double (`Decimal.magnitude`), and a decimal READS BACK as a double when
  that is the nearest one.

  `shortest m` is the decimal with the fewest digits that reads back as
  magnitude `m`; of several with so many digits it is the nearest to the
  value, and of two equally near ones the greater.  It is found grid by
  grid: on the grid of `n` digits only the two neighbours of the value can
  be the answer.  Seventeen digits are enough for every double.
-/
import DurableStore.Score.Basic

namespace DurableStore

/-- The number `digits · 10^exponent`. -/
structure Decimal where
  digits : Nat
  exponent : Int
  deriving DecidableEq, Repr

namespace Decimal

open Score

/-! ## §1. From a decimal to a double. -/

/-- How many decimal digits a number has. -/
def digitCount (n : Nat) : Nat := (Nat.toDigits 10 n).length

/-- The position of the decimal point: a nonzero value lies below
`10^point` and not below `10^(point - 1)`. -/
def point (d : Decimal) : Int := (digitCount d.digits : Int) + d.exponent

/-- The magnitude of the double nearest to a decimal. -/
def magnitude (d : Decimal) : Nat :=
  nearestMagnitude (d.digits * Nat.pow 10 d.exponent.toNat * unity)
    (Nat.pow 10 (-d.exponent).toNat)

/-! ## §2. From a double to its shortest decimal. -/

/-- The position of the decimal point in the value of a magnitude. -/
def pointOf (m : Nat) : Int :=
  (digitCount (units m * Nat.pow 10 330 / unity) : Int) - 330

/-- The first of two decimals that reads back as a magnitude. -/
def firstReading? (m : Nat) (nearer other : Decimal) : Option Decimal :=
  if nearer.magnitude = m then some nearer
  else if other.magnitude = m then some other
  else none

/-- The decimal of `n` digits that reads back as `m`, if there is one: the
nearer neighbour on the grid if it does, else the other one. -/
def onGrid? (m n : Nat) : Option Decimal :=
  let exponent := pointOf m - (n : Int)
  let num := units m * Nat.pow 10 (-exponent).toNat
  let den := unity * Nat.pow 10 exponent.toNat
  let low : Decimal := ⟨num / den, exponent⟩
  let high : Decimal := ⟨num / den + 1, exponent⟩
  if 2 * (num % den) < den then firstReading? m low high else firstReading? m high low

/-- The value of a magnitude without any rounding. -/
def exact (m : Nat) : Decimal := ⟨units m * Nat.pow 5 1074, -1074⟩

/-- The shortest decimal that reads back as a magnitude. -/
def shortest (m : Nat) : Decimal :=
  ((List.range' 1 17).findSome? (onGrid? m)).getD (exact m)

/-! ## §3. Layout. -/

/-- Drops the zeros at the end of a list of digits. -/
def dropTrailingZeros (ds : Bytes) : Bytes := (ds.reverse.dropWhile (· == 48)).reverse

/-- The digits of a decimal without trailing zeros. -/
def significant (d : Decimal) : Bytes := dropTrailingZeros (Bytes.ofNat d.digits)

/-- The decimal written out, with a point only where digits follow it. -/
def positional (d : Decimal) : Bytes :=
  let ds := d.significant
  let point := d.point
  if point ≤ 0 then
    48 :: 46 :: (List.replicate (-point).toNat 48 ++ ds)
  else if ds.length ≤ point.toNat then
    ds ++ List.replicate (point.toNat - ds.length) 48
  else
    ds.take point.toNat ++ 46 :: ds.drop point.toNat

/-- The decimal with one digit before the point and a power of ten. -/
def scientific (d : Decimal) : Bytes :=
  let power := 101 :: Bytes.ofInt (d.point - 1)
  match d.significant with
  | [] => 48 :: power
  | [x] => x :: power
  | x :: xs => x :: 46 :: (xs ++ power)

end Decimal

end DurableStore
