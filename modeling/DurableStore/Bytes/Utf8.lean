/-
  DurableStore.Bytes.Utf8
  ────────────────────────────────
  **READING BYTES AS TEXT.**

  Names and identifiers arrive as bytes but are reported as text.  `text`
  reads well-formed UTF-8 and writes one replacement character (U+FFFD) for
  every maximal piece that starts like a character and does not finish as
  one: a stray byte, or the beginning of a sequence that breaks off.

  The reader is a fold over the bytes.  Its state is the unfinished
  character, if there is one: how many bytes are still to come, the range
  the next of them must lie in, and the bits read so far.  The range of the
  second byte is what excludes overlong forms, surrogates and numbers past
  U+10FFFF.
-/
import DurableStore.Bytes.Basic

namespace DurableStore.Bytes

/-- A multi-byte character of which some bytes are still to come. -/
structure PartialChar where
  /-- How many bytes are missing after the next one. -/
  more : Nat
  /-- The least value the next byte may have. -/
  low : UInt8
  /-- The greatest value the next byte may have. -/
  high : UInt8
  /-- The bits of the bytes read so far. -/
  bits : Nat
  deriving Repr, DecidableEq

/-- The character written for bytes that spell none. -/
def replacement : Char := Char.ofNat 0xFFFD

/-- The first byte of a character: either complete, or open, or invalid. -/
def startChar (b : UInt8) : List Char × Option PartialChar :=
  let n := b.toNat
  if n < 0x80 then ([Char.ofNat n], none)
  else if n < 0xC2 then ([replacement], none)
  else if n < 0xE0 then ([], some ⟨0, 0x80, 0xBF, n - 0xC0⟩)
  else if n = 0xE0 then ([], some ⟨1, 0xA0, 0xBF, 0⟩)
  else if n = 0xED then ([], some ⟨1, 0x80, 0x9F, 13⟩)
  else if n < 0xF0 then ([], some ⟨1, 0x80, 0xBF, n - 0xE0⟩)
  else if n = 0xF0 then ([], some ⟨2, 0x90, 0xBF, 0⟩)
  else if n < 0xF4 then ([], some ⟨2, 0x80, 0xBF, n - 0xF0⟩)
  else if n = 0xF4 then ([], some ⟨2, 0x80, 0x8F, 4⟩)
  else ([replacement], none)

/-- One byte after an unfinished character, or between characters. -/
def nextChar : Option PartialChar → UInt8 → List Char × Option PartialChar
  | none, b => startChar b
  | some p, b =>
    if p.low ≤ b ∧ b ≤ p.high then
      let bits := p.bits * 64 + (b.toNat - 0x80)
      match p.more with
      | 0 => ([Char.ofNat bits], none)
      | more + 1 => ([], some ⟨more, 0x80, 0xBF, bits⟩)
    else
      let (cs, open?) := startChar b
      (replacement :: cs, open?)

/-- The characters of a byte string that continues an unfinished one. -/
def charsFrom : Option PartialChar → Bytes → List Char
  | none, [] => []
  | some _, [] => [replacement]
  | p, b :: bs =>
    let (cs, open?) := nextChar p b
    cs ++ charsFrom open? bs

/-- The text of a byte string; what is not UTF-8 reads as U+FFFD. -/
def text (bs : Bytes) : String := String.ofList (charsFrom none bs)

end DurableStore.Bytes
