/-
  DurableStore.Score.Text
  ────────────────────────────────
  **SCORE TEXT.**

  A score is written with the fewest digits that read back as the same
  score, always written out in full: `1`, `0.1`, `100000000000000000000`,
  never with a power of ten.  Infinities are `inf` and `-inf`, and −0 is
  `-0`.

  The reader takes any decimal with an optional sign, point and power of
  ten, in either case, and the words `inf` and `infinity`.  It returns the
  nearest score.  What is not a number is refused: no stored score is NaN.
  A power of ten is read up to the digit that brings it to 65536, so that it
  stays small however long it is written.
-/
import DurableStore.Score.Shortest

namespace DurableStore.Score

/-! ## §1. Writing. -/

/-- The text of a score, with `layout` deciding how a finite nonzero value
is written. -/
def textWith (layout : Decimal → Bytes) (s : Score) : Bytes :=
  if s.isNaN then Bytes.ofString "NaN"
  else
    let body :=
      if s.isInfinite then Bytes.ofString "inf"
      else if s.magnitude = 0 then layout ⟨0, 0⟩
      else layout (Decimal.shortest s.magnitude)
    if s.isNegative then 45 :: body else body

/-- Zero is a single digit in either layout. -/
def positional (d : Decimal) : Bytes :=
  if d.digits = 0 then [48] else d.positional

/-- The text of a score, written out in full. -/
def format (s : Score) : Bytes := textWith positional s

/-- The text of a score with a power of ten, which stays short for every
score. -/
def formatShort (s : Score) : Bytes := textWith Decimal.scientific s

/-! ## §2. Reading. -/

/-- Whether a byte is an ASCII digit. -/
def isDigit (b : UInt8) : Bool := 48 ≤ b && b ≤ 57

/-- An optional sign: whether it is a minus, and what follows. -/
def splitSign : Bytes → Bool × Bytes
  | 43 :: rest => (false, rest)
  | 45 :: rest => (true, rest)
  | bs => (false, bs)

/-- A power of ten that has reached this is large enough: the digits after
those that reached it do not count. -/
def exponentLimit : Nat := 0x10000

/-- The power of ten with one more digit read. -/
def exponentDigit (n : Nat) (b : UInt8) : Nat :=
  if n < exponentLimit then 10 * n + (b.toNat - 48) else n

/-- The power of ten that one or more digits spell. -/
def exponentValue? (bs : Bytes) : Option Nat :=
  if bs ≠ [] ∧ bs.all isDigit then some (bs.foldl exponentDigit 0) else none

/-- The power of ten at the end of a number: absent, or `e` and a number. -/
def exponent? : Bytes → Option Int
  | [] => some 0
  | 101 :: rest =>
    let (negative, digits) := splitSign rest
    (exponentValue? digits).map fun n => if negative then -(n : Int) else n
  | _ => none

/-- The digits after a decimal point, if there is one, and what follows. -/
def splitFraction : Bytes → Bytes × Bytes
  | 46 :: rest => (rest.takeWhile isDigit, rest.dropWhile isDigit)
  | bs => ([], bs)

/-- An unsigned decimal with at least one digit. -/
def decimal? (bs : Bytes) : Option Decimal :=
  let whole := bs.takeWhile isDigit
  let (fraction, rest) := splitFraction (bs.dropWhile isDigit)
  match Bytes.digitsValue? (whole ++ fraction), exponent? rest with
  | some digits, some e => some ⟨digits, e - (fraction.length : Int)⟩
  | _, _ => none

/-- The magnitude of an unsigned number in lower case. -/
def magnitude? (bs : Bytes) : Option Nat :=
  if bs = Bytes.ofString "inf" ∨ bs = Bytes.ofString "infinity" then
    some infinityMagnitude
  else
    (decimal? bs).map Decimal.magnitude

/-- The score that a text spells, unless it spells none. -/
def parse? (bs : Bytes) : Option Score :=
  let (negative, body) := splitSign (Bytes.lower bs)
  (magnitude? body).map (ofMagnitude negative)

end DurableStore.Score
