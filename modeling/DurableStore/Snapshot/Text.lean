/-
  DurableStore.Snapshot.Text
  ────────────────────────────────
  **LENGTHS AND STRINGS.**

  A string begins with a byte whose two top bits select its form:

      00       a length below 64 in the same byte
      01       a length of 14 bits, continued in the next byte
      10       0x80: a length in 4 bytes; 0x81: a length in 8 bytes
      11       an integer of 1, 2 or 4 bytes, or a compressed string

  Lengths are written most significant byte first, integers least
  significant first.  The writer takes an integer if the bytes are its
  decimal text, a compressed string if that is wanted and the compressed
  bytes are fewer, else the bytes themselves.
-/
import DurableStore.Bytes.Decimal
import DurableStore.Snapshot.Reader

namespace DurableStore.Snapshot

/-! ## §1. Reading. -/

/-- What the first bytes of a string announce. -/
inductive StringForm where
  | plain (length : Nat)
  /-- An integer of so many bytes. -/
  | integer (width : Nat)
  | compressed
  deriving DecidableEq, Repr

/-- The form that a string begins with. -/
def readForm (r : Reader) : Except Fault (StringForm × Reader) := do
  let (first, r) ← r.byte
  let low := first.toNat % 64
  match first.toNat / 64 with
  | 0 => return (.plain low, r)
  | 1 =>
    let (second, r) ← r.byte
    return (.plain (low * 256 + second.toNat), r)
  | 2 =>
    match low with
    | 0 =>
      let (length, r) ← r.natBE 4
      return (.plain length, r)
    | 1 =>
      let (length, r) ← r.natBE 8
      return (.plain length, r)
    | _ => .error (.invalidLength first)
  | _ =>
    match low with
    | 0 => return (.integer 1, r)
    | 1 => return (.integer 2, r)
    | 2 => return (.integer 4, r)
    | 3 => return (.compressed, r)
    | other => .error (.unknownStringForm other)

/-- A length where nothing but a length may stand. -/
def readLength (r : Reader) : Except Fault (Nat × Reader) := do
  let (first, _) ← r.byte
  let (form, r) ← readForm r
  match form with
  | .plain length => return (length, r)
  | _ => .error (.invalidLength first)

/-- The bytes of a compressed string: two lengths and the compressed bytes. -/
def readCompressed (r : Reader) : Except Fault (Bytes × Reader) := do
  let (compressed, r) ← readLength r
  let (length, r) ← readLength r
  let (bytes, r) ← r.take compressed
  match Lzf.decompress bytes length with
  | .ok value => return (value, r)
  | .error fault => .error (.invalidLzf fault)

/-- A string in any of its forms; an integer stands for its decimal text. -/
def readString (r : Reader) : Except Fault (Bytes × Reader) := do
  let (form, r) ← readForm r
  match form with
  | .plain length => r.take length
  | .integer width =>
    let (value, r) ← r.intLE width
    return (Bytes.ofInt value, r)
  | .compressed => readCompressed r

/-! ## §2. Writing. -/

/-- A length in the shortest of its forms. -/
def writeLength (n : Nat) : Bytes :=
  if n < 64 then [UInt8.ofNat n]
  else if n < 16384 then [UInt8.ofNat (64 + n / 256), UInt8.ofNat (n % 256)]
  else if n < Bytes.u32Bound then 0x80 :: Bytes.ofNatBE 4 n
  else 0x81 :: Bytes.ofNatBE 8 n

/-- The 32-bit integer of which a byte string is the decimal text. -/
def inlineInteger? (value : Bytes) : Option Int :=
  match Bytes.toInt? 32 value with
  | some i => if Bytes.ofInt i = value then some i else none
  | none => none

/-- An integer in the least of the widths that hold it. -/
def writeInteger (i : Int) : Bytes :=
  if -128 ≤ i ∧ i < 128 then 0xC0 :: Bytes.ofNatLE 1 (Bytes.ofSigned 8 i)
  else if -32768 ≤ i ∧ i < 32768 then 0xC1 :: Bytes.ofNatLE 2 (Bytes.ofSigned 16 i)
  else 0xC2 :: Bytes.ofNatLE 4 (Bytes.ofSigned 32 i)

/-- A string by its length and bytes. -/
def writePlain (value : Bytes) : Bytes := writeLength value.length ++ value

/-- Strings of at most this length are not compressed. -/
def minCompressed : Nat := 20

/-- A string as an integer if it is the text of one, compressed if
compression is on and leaves fewer bytes, or as the bytes themselves. -/
def writeString (compression : Bool) (value : Bytes) : Bytes :=
  match inlineInteger? value with
  | some i => writeInteger i
  | none =>
    if compression && minCompressed < value.length then
      let compressed := Lzf.compress value
      if compressed.length < value.length then
        0xC3 :: (writeLength compressed.length ++ writeLength value.length ++ compressed)
      else writePlain value
    else writePlain value

end DurableStore.Snapshot
