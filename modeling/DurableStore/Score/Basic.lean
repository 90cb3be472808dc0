/-
  DurableStore.Score.Basic
  ────────────────────────────────
  **SCORES.**

  The score of a sorted-set member is a double, kept as its 64 bits.  Two
  scores are equal when their bits are, so the two zeros differ, and the
  order on scores is total:

      rank s < rank t   — `s` comes before `t`

  with −0 just before +0 and the infinities at the two ends.

  Below the sign bit the bits are a number, the MAGNITUDE.  Consecutive
  magnitudes are consecutive doubles, and every finite double is a whole
  number of units of 2^-1074:

      units m   — the value of magnitude `m` in units of 2^-1074

  All conversions between scores and decimals are made on `units`, in exact
  arithmetic of natural numbers.
-/
import DurableStore.Bytes.Decimal

namespace DurableStore

/-- A double, by its bits. -/
structure Score where
  bits : UInt64
  deriving DecidableEq, Repr

namespace Score

/-! ## §1. Sign and magnitude. -/

/-- The weight of the sign bit, 2^63. -/
abbrev signWeight : Nat := 0x8000000000000000

/-- How many doubles there are from a power of two up to the next, 2^52. -/
abbrev binade : Nat := 0x10000000000000

/-- The magnitude of the infinities; a greater magnitude is not a number. -/
def infinityMagnitude : Nat := 2047 * binade

/-- The score of a sign and a magnitude. -/
def ofMagnitude (negative : Bool) (m : Nat) : Score :=
  ⟨UInt64.ofNat (if negative then signWeight + m else m)⟩

/-- Whether the sign bit is set. -/
def isNegative (s : Score) : Bool := signWeight ≤ s.bits.toNat

/-- The bits below the sign. -/
def magnitude (s : Score) : Nat := s.bits.toNat % signWeight

theorem magnitude_ofMagnitude (negative : Bool) {m : Nat} (h : m < signWeight) :
    (ofMagnitude negative m).magnitude = m := by
  have hm : m < 9223372036854775808 := h
  cases negative <;> simp [ofMagnitude, magnitude, signWeight, UInt64.toNat_ofNat'] <;> omega

/-- Whether the bits spell no number. -/
def isNaN (s : Score) : Bool := infinityMagnitude < s.magnitude

/-- Whether the score is one of the two infinities. -/
def isInfinite (s : Score) : Bool := s.magnitude == infinityMagnitude

/-- The greatest score. -/
def infinity : Score := ofMagnitude false infinityMagnitude

/-- The least score. -/
def negInfinity : Score := ofMagnitude true infinityMagnitude

/-! ## §2. The total order. -/

/-- The place of a score among all scores: negative ones in falling, positive
ones in rising order of magnitude. -/
def rank (s : Score) : Nat :=
  if s.isNegative then 2 * signWeight - 1 - s.bits.toNat else signWeight + s.bits.toNat

/-! ## §3. Value. -/

/-- The value of a magnitude, as a multiple of 2^-1074. -/
def units (m : Nat) : Nat :=
  if m < binade then m else (binade + m % binade) * Nat.pow 2 (m / binade - 1)

/-- How many units make up one. -/
def unity : Nat := Nat.pow 2 1074

/-- The greatest magnitude whose value is at most `t` units. -/
def floorMagnitude (t : Nat) : Nat :=
  if t < 2 * binade then t
  else
    let shift := Nat.log2 t - 52
    shift * binade + t / Nat.pow 2 shift

/-- The magnitude nearest to `num / den` units.  Of two that are equally near
the even one is taken, and what is too large becomes infinite. -/
def nearestMagnitude (num den : Nat) : Nat :=
  let m := floorMagnitude (num / den)
  let above := 2 * (num - units m * den)
  let gap := (units (m + 1) - units m) * den
  let nearest :=
    if above < gap then m
    else if gap < above then m + 1
    else if m % 2 = 0 then m else m + 1
  min nearest infinityMagnitude

end Score

end DurableStore
