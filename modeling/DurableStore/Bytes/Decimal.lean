/-
  DurableStore.Bytes.Decimal
  ────────────────────────────────
  **DECIMAL TEXT OF INTEGERS.**

  Lengths, offsets, deadlines and small values travel as decimal text.  The
  writer prints no leading zero and a minus sign only below zero.  The
  reader is more liberal: it takes leading zeros and a leading plus sign,
  and refuses a number outside the given bound.

      digitsValue? / ofNat   — digits only
      toNat?                 — an optional `+`, then digits, below a bound
      ofInt / toInt?         — with a sign, inside a two's complement range
-/
import DurableStore.Bytes.Basic

namespace DurableStore.Bytes

/-! ## §1. Digits. -/

/-- The value of an ASCII digit. -/
def digit? (b : UInt8) : Option Nat :=
  if 48 ≤ b ∧ b ≤ 57 then some (b.toNat - 48) else none

/-- Reads the digits that follow a number already read. -/
def digitsFrom? (acc : Nat) : Bytes → Option Nat
  | [] => some acc
  | b :: bs =>
    match digit? b with
    | some d => digitsFrom? (10 * acc + d) bs
    | none => none

/-- The number that one or more digits spell. -/
def digitsValue? : Bytes → Option Nat
  | [] => none
  | b :: bs => digitsFrom? 0 (b :: bs)

/-- The decimal text of a number, without leading zeros. -/
def ofNat (n : Nat) : Bytes :=
  (Nat.toDigits 10 n).map fun c => UInt8.ofNat c.toNat

/-- The decimal text of an integer. -/
def ofInt : Int → Bytes
  | .ofNat n => ofNat n
  | .negSucc n => 45 :: ofNat (n + 1)

/-! ## §2. Bounded readers. -/

/-- Reads a number below `bound`; one leading plus sign is allowed. -/
def toNat? (bound : Nat) (bs : Bytes) : Option Nat :=
  let digits := match bs with
    | 43 :: rest => rest
    | _ => bs
  match digitsValue? digits with
  | some n => if n < bound then some n else none
  | none => none

/-- Reads a signed number of `bits` bits; one leading sign is allowed. -/
def toInt? (bits : Nat) (bs : Bytes) : Option Int :=
  match bs with
  | 45 :: rest =>
    match digitsValue? rest with
    | some n => if n ≤ Nat.pow 2 (bits - 1) then some (-(n : Int)) else none
    | none => none
  | _ =>
    match toNat? (Nat.pow 2 (bits - 1)) bs with
    | some n => some (n : Int)
    | none => none

end DurableStore.Bytes
