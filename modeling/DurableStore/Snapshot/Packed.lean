/-
  DurableStore.Snapshot.Packed
  ────────────────────────────────
  **PACKED CONTAINERS.**

  Small collections may be stored as one string that packs all their
  elements.  There are four such containers:

      ziplist   10 bytes of header with a count, entries that begin with the
                length of the entry before, and a final 0xFF
      listpack  6 bytes of header with a count, entries followed by their
                own length, and a final 0xFF
      zipmap    one byte of header, fields and values in turn, each value
                followed by unused space, and a final 0xFF
      intset    a width, a count, and integers of that width

  A decoder takes the whole container and returns its elements in order;
  integers come back as their decimal text.  A container that ends early
  is reported by its name and the place where it broke off.
-/
import DurableStore.Bytes.Decimal
import DurableStore.Snapshot.Reader

namespace DurableStore.Snapshot

/-- Runs a decoder on a container, so that running out of bytes is a fault of
the container. -/
def inContainer {α : Type} (container : Container) (blob : Bytes)
    (decode : Reader → Except Fault α) : Except Fault α :=
  match decode (Reader.start blob) with
  | .error (.unexpectedEnd position _) => .error (.invalidContainer container (.truncated position))
  | result => result

/-- The end marker of ziplists, listpacks and zipmaps. -/
def endMarker : UInt8 := 0xFF

/-- A count that stands for "too many to say". -/
def uncounted : Nat := 0xFFFF

/-- Checks the number of entries against the declared one. -/
def checkCount (container : Container) (declared : Nat) (entries : List Bytes) :
    Except Fault (List Bytes) :=
  if declared ≠ uncounted ∧ declared ≠ entries.length then
    .error (.invalidContainer container (.miscounted declared entries.length))
  else .ok entries

/-- A string of the given length. -/
def readBytes (r : Reader) (length : Nat) : Except Fault (Bytes × Reader) := r.take length

/-- An integer of the given width, as its decimal text. -/
def readDecimal (r : Reader) (width : Nat) : Except Fault (Bytes × Reader) := do
  let (value, r) ← r.intLE width
  return (Bytes.ofInt value, r)

/-! ## §1. Ziplists. -/

/-- The entry that a ziplist header byte announces. -/
def ziplistEntry (header : UInt8) (r : Reader) : Except Fault (Bytes × Reader) :=
  let h := header.toNat
  if h < 64 then readBytes r h
  else if h < 128 then do
    let (low, r) ← r.byte
    readBytes r (h % 64 * 256 + low.toNat)
  else if h < 192 then do
    let (length, r) ← r.natBE 4
    readBytes r length
  else if h = 0xC0 then readDecimal r 2
  else if h = 0xD0 then readDecimal r 4
  else if h = 0xE0 then readDecimal r 8
  else if h = 0xF0 then readDecimal r 3
  else if h = 0xFE then readDecimal r 1
  else if 0xF1 ≤ h ∧ h ≤ 0xFD then .ok (Bytes.ofNat (h % 16 - 1), r)
  else .error (.invalidContainer .ziplist (.unknownEntry header))

/-- The entries up to the end marker.  An entry takes at least two bytes, so
the length of the container bounds their number. -/
def ziplistEntries : Nat → Reader → Except Fault (List Bytes)
  | 0, r => .error (.unexpectedEnd r.position 1)
  | budget + 1, r => do
    let (first, r) ← r.byte
    if first = endMarker then return []
    -- The length of the entry before takes one byte, or five after 0xFE.
    let r := if first = 0xFE then r.skip 4 else r
    let (header, r) ← r.byte
    let (entry, r) ← ziplistEntry header r
    let entries ← ziplistEntries budget r
    return entry :: entries

/-- The elements of a ziplist. -/
def decodeZiplist (blob : Bytes) : Except Fault (List Bytes) :=
  inContainer .ziplist blob fun r => do
    let (header, r) ← r.take 10
    let entries ← ziplistEntries blob.length r
    checkCount .ziplist (Bytes.toNatLE (header.drop 8)) entries

/-! ## §2. Listpacks. -/

/-- The entry that a listpack header byte announces, and the number of bytes
that it takes with its header. -/
def listpackEntry (header : UInt8) (r : Reader) : Except Fault (Bytes × Nat × Reader) :=
  let h := header.toNat
  if h < 128 then .ok (Bytes.ofNat h, 1, r)
  else if h < 192 then do
    let (value, r) ← readBytes r (h % 64)
    return (value, 1 + h % 64, r)
  else if h < 224 then do
    let (low, r) ← r.byte
    return (Bytes.ofInt (Bytes.toSigned 13 (h % 32 * 256 + low.toNat)), 2, r)
  else if h < 240 then do
    let (low, r) ← r.byte
    let length := h % 16 * 256 + low.toNat
    let (value, r) ← readBytes r length
    return (value, 2 + length, r)
  else if h = 0xF0 then do
    let (length, r) ← r.natLE 4
    let (value, r) ← readBytes r length
    return (value, 5 + length, r)
  else if h ≤ 0xF4 then do
    let width := if h = 0xF4 then 8 else h - 0xF0 + 1
    let (value, r) ← readDecimal r width
    return (value, 1 + width, r)
  else .error (.invalidContainer .listpack (.unknownEntry header))

/-- How many bytes the length of an entry takes when written behind it. -/
def backLengthSize (length : Nat) : Nat :=
  if length ≤ 127 then 1
  else if length ≤ 16382 then 2
  else if length ≤ 2097150 then 3
  else if length ≤ 268435454 then 4
  else 5

/-- The entries up to the end marker.  An entry takes at least two bytes, so
the length of the container bounds their number. -/
def listpackEntries : Nat → Reader → Except Fault (List Bytes)
  | 0, r => .error (.unexpectedEnd r.position 1)
  | budget + 1, r => do
    let (header, r) ← r.byte
    if header = endMarker then return []
    let (entry, length, r) ← listpackEntry header r
    let entries ← listpackEntries budget (r.skip (backLengthSize length))
    return entry :: entries

/-- The elements of a listpack. -/
def decodeListpack (blob : Bytes) : Except Fault (List Bytes) :=
  inContainer .listpack blob fun r => do
    let (header, r) ← r.take 6
    let entries ← listpackEntries blob.length r
    checkCount .listpack (Bytes.toNatLE (header.drop 4)) entries

/-! ## §3. Zipmaps. -/

/-- A length in a zipmap, or the end marker. -/
def zipmapLength (r : Reader) : Except Fault (Option Nat × Reader) := do
  let (first, r) ← r.byte
  if first = endMarker then return (none, r)
  else if first = 0xFE then
    let (length, r) ← r.natLE 4
    return (some length, r)
  else return (some first.toNat, r)

/-- Fields and values in turn, up to the end marker.  A field with its value
takes at least three bytes, so the length of the container bounds their
number. -/
def zipmapEntries : Nat → Reader → Except Fault (List Bytes)
  | 0, r => .error (.unexpectedEnd r.position 1)
  | budget + 1, r => do
    match ← zipmapLength r with
    | (none, _) => return []
    | (some fieldLength, r) =>
      let (field, r) ← readBytes r fieldLength
      match ← zipmapLength r with
      | (none, _) => .error (.invalidContainer .zipmap .missingValue)
      | (some valueLength, r) =>
        let (unused, r) ← r.byte
        let (value, r) ← readBytes r valueLength
        let entries ← zipmapEntries budget (r.skip unused.toNat)
        return field :: value :: entries

/-- The fields and values of a zipmap, in turn. -/
def decodeZipmap (blob : Bytes) : Except Fault (List Bytes) :=
  inContainer .zipmap blob fun r => zipmapEntries (blob.length + 1) (r.skip 1)

/-! ## §4. Intsets. -/

/-- The elements of an intset. -/
def decodeIntset (blob : Bytes) : Except Fault (List Bytes) :=
  inContainer .intset blob fun r => do
    let (width, r) ← r.natLE 4
    let (count, r) ← r.natLE 4
    if width ≠ 2 ∧ width ≠ 4 ∧ width ≠ 8 then
      .error (.invalidContainer .intset (.invalidWidth width))
    else
      let (contents, _) ← r.take (count * width)
      return (Bytes.chunks width contents).map fun bytes =>
        Bytes.ofInt (Bytes.toSigned (8 * width) (Bytes.toNatLE bytes))

/-! ## §5. Pairs. -/

/-- The elements of a container in pairs. -/
def inPairs (container : Container) (entries : List Bytes) :
    Except Fault (List (Bytes × Bytes)) :=
  match Bytes.pairUp entries with
  | some pairs => .ok pairs
  | none => .error (.invalidContainer container .oddEntries)

end DurableStore.Snapshot
