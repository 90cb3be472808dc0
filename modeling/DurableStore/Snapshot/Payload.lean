/-
  DurableStore.Snapshot.Payload
  ────────────────────────────────
  **VALUES IN A SNAPSHOT FILE.**

  A value is announced by a type byte, which names its LAYOUT: the kind of
  value and the way its elements are stored, one by one or packed in a
  container.  All layouts of a kind are read, and one is written:

      string                     written
      list, set, hash            element by element: written;
                                 ziplist, listpack, quicklist, zipmap,
                                 intset: read
      sorted set                 scores as text: written;
                                 scores as 8 bytes, ziplist, listpack: read

  A score as text is a length byte and the text; three lengths that no
  text has stand for the scores that are not finite.
-/
import DurableStore.Score.Text
import DurableStore.Value.Basic
import DurableStore.Snapshot.Text
import DurableStore.Snapshot.Packed

namespace DurableStore.Snapshot

/-! ## §1. Layouts. -/

/-- The ways in which a value is stored. -/
inductive Layout where
  | string
  | list
  | set
  | sortedSetText
  | hash
  | sortedSetBinary
  | hashZipmap
  | listZiplist
  | setIntset
  | sortedSetZiplist
  | hashZiplist
  | quicklistZiplist
  | hashListpack
  | sortedSetListpack
  | quicklistListpack
  | setListpack
  deriving DecidableEq, Repr

/-- The type byte of a layout. -/
def Layout.code : Layout → UInt8
  | .string => 0
  | .list => 1
  | .set => 2
  | .sortedSetText => 3
  | .hash => 4
  | .sortedSetBinary => 5
  | .hashZipmap => 9
  | .listZiplist => 10
  | .setIntset => 11
  | .sortedSetZiplist => 12
  | .hashZiplist => 13
  | .quicklistZiplist => 14
  | .hashListpack => 16
  | .sortedSetListpack => 17
  | .quicklistListpack => 18
  | .setListpack => 20

/-- All layouts. -/
def Layout.all : List Layout :=
  [.string, .list, .set, .sortedSetText, .hash, .sortedSetBinary, .hashZipmap,
    .listZiplist, .setIntset, .sortedSetZiplist, .hashZiplist, .quicklistZiplist,
    .hashListpack, .sortedSetListpack, .quicklistListpack, .setListpack]

/-- The layout of a type byte. -/
def Layout.ofCode? (code : UInt8) : Option Layout :=
  Layout.all.find? fun layout => layout.code = code

/-- The type byte of a layout names that layout. -/
@[simp] theorem Layout.ofCode?_code (layout : Layout) : ofCode? layout.code = some layout := by
  cases layout <;> rfl

/-- The layout in which a value is written. -/
def Layout.ofValue : Value → Layout
  | .string _ => .string
  | .list _ => .list
  | .hash _ => .hash
  | .set _ => .set
  | .sortedSet _ => .sortedSetText

/-! ## §2. Scores. -/

/-- The length byte that stands for "not a number". -/
def scoreNaN : Nat := 253

/-- The length byte that stands for the greatest score. -/
def scoreInfinity : Nat := 254

/-- The length byte that stands for the least score. -/
def scoreNegInfinity : Nat := 255

/-- The score that a text spells. -/
def scoreOfText (text : Bytes) : Except Fault Score :=
  match Score.parse? text with
  | some score => .ok score
  | none => .error .invalidScore

/-- A score as a length byte and text. -/
def readTextScore (r : Reader) : Except Fault (Score × Reader) := do
  let (first, r) ← r.byte
  if first.toNat = scoreNaN then .error .invalidScore
  else if first.toNat = scoreInfinity then return (Score.infinity, r)
  else if first.toNat = scoreNegInfinity then return (Score.negInfinity, r)
  else
    let (text, r) ← r.take first.toNat
    let score ← scoreOfText text
    return (score, r)

/-- A score as the eight bytes of its bits. -/
def readBinaryScore (r : Reader) : Except Fault (Score × Reader) := do
  let (bits, r) ← r.natLE 8
  let score : Score := ⟨UInt64.ofNat bits⟩
  if score.isNaN then .error .invalidScore else return (score, r)

/-- The text of a score that is short enough for a length byte. -/
def scoreText (score : Score) : Bytes :=
  let text := score.format
  if text.length < scoreNaN then text else score.formatShort

/-- Writes a score as a length byte and text. -/
def writeTextScore (score : Score) : Bytes :=
  if score = Score.infinity then [UInt8.ofNat scoreInfinity]
  else if score = Score.negInfinity then [UInt8.ofNat scoreNegInfinity]
  else
    let text := scoreText score
    UInt8.ofNat text.length :: text

/-! ## §3. Reading. -/

/-- A count and so many strings. -/
def readStrings (r : Reader) : Except Fault (List Bytes × Reader) := do
  let (count, r) ← readLength r
  Reader.many readString count r

/-- Two strings. -/
def readPair (r : Reader) : Except Fault ((Bytes × Bytes) × Reader) := do
  let (first, r) ← readString r
  let (second, r) ← readString r
  return ((first, second), r)

/-- A count and so many pairs of strings.  A count of which the number of
strings does not fit in 64 bits is no length. -/
def readPairs (r : Reader) : Except Fault (List (Bytes × Bytes) × Reader) := do
  let (first, _) ← r.byte
  let (count, r) ← readLength r
  if Bytes.u64Bound ≤ count * 2 then .error (.invalidLength first)
  else Reader.many readPair count r

/-- A count and so many members with their scores. -/
def readScored (readScore : Reader → Except Fault (Score × Reader)) (r : Reader) :
    Except Fault (List (Bytes × Score) × Reader) := do
  let (count, r) ← readLength r
  Reader.many
    (fun r => do
      let (member, r) ← readString r
      let (score, r) ← readScore r
      return ((member, score), r))
    count r

/-- Members with score texts, as packed containers hold them. -/
def scored : List (Bytes × Bytes) → Except Fault (List (Bytes × Score))
  | [] => .ok []
  | (member, text) :: rest => do
    let score ← scoreOfText text
    let rest ← scored rest
    return (member, score) :: rest

/-- A packed node of a quicklist. -/
def readZiplistNode (r : Reader) : Except Fault (List Bytes × Reader) := do
  let (blob, r) ← readString r
  let items ← decodeZiplist blob
  return (items, r)

/-- A node of a quicklist that says whether it is packed: 1 announces a
single element, 2 a listpack. -/
def readTaggedNode (r : Reader) : Except Fault (List Bytes × Reader) := do
  let (kind, r) ← readLength r
  let (blob, r) ← readString r
  if kind = 1 then return ([blob], r)
  else if kind = 2 then
    let items ← decodeListpack blob
    return (items, r)
  else .error (.invalidContainer .quicklist (.unknownNode kind))

/-- A count and so many nodes, put together to one list. -/
def readNodes (node : Reader → Except Fault (List Bytes × Reader)) (r : Reader) :
    Except Fault (List Bytes × Reader) := do
  let (count, r) ← readLength r
  let (nodes, r) ← Reader.many node count r
  return (nodes.flatten, r)

/-- A value packed in a container, which is itself stored as a string. -/
def readPacked (decode : Bytes → Except Fault Value) (r : Reader) :
    Except Fault (Value × Reader) := do
  let (blob, r) ← readString r
  let value ← decode blob
  return (value, r)

/-- A hash packed in a container. -/
def unpackHash (container : Container) (decode : Bytes → Except Fault (List Bytes))
    (blob : Bytes) : Except Fault Value := do
  let entries ← decode blob
  let pairs ← inPairs container entries
  return .hash (ByteMap.ofList pairs)

/-- A sorted set packed in a container. -/
def unpackSortedSet (container : Container) (decode : Bytes → Except Fault (List Bytes))
    (blob : Bytes) : Except Fault Value := do
  let entries ← decode blob
  let pairs ← inPairs container entries
  let items ← scored pairs
  return .sortedSet (SortedSet.ofList items)

/-- A value in a given layout.  Of repeated fields and members the last one
counts. -/
def readValue (layout : Layout) (r : Reader) : Except Fault (Value × Reader) :=
  match layout with
  | .string => do
    let (value, r) ← readString r
    return (.string value, r)
  | .list => do
    let (items, r) ← readStrings r
    return (.list items, r)
  | .set => do
    let (items, r) ← readStrings r
    return (.set (ByteSet.ofList items), r)
  | .hash => do
    let (pairs, r) ← readPairs r
    return (.hash (ByteMap.ofList pairs), r)
  | .sortedSetText => do
    let (items, r) ← readScored readTextScore r
    return (.sortedSet (SortedSet.ofList items), r)
  | .sortedSetBinary => do
    let (items, r) ← readScored readBinaryScore r
    return (.sortedSet (SortedSet.ofList items), r)
  | .quicklistZiplist => do
    let (items, r) ← readNodes readZiplistNode r
    return (.list items, r)
  | .quicklistListpack => do
    let (items, r) ← readNodes readTaggedNode r
    return (.list items, r)
  | .listZiplist => readPacked (fun blob => Value.list <$> decodeZiplist blob) r
  | .setIntset => readPacked (fun blob => (.set ∘ ByteSet.ofList) <$> decodeIntset blob) r
  | .setListpack => readPacked (fun blob => (.set ∘ ByteSet.ofList) <$> decodeListpack blob) r
  | .hashZipmap => readPacked (unpackHash .zipmap decodeZipmap) r
  | .hashZiplist => readPacked (unpackHash .ziplist decodeZiplist) r
  | .hashListpack => readPacked (unpackHash .listpack decodeListpack) r
  | .sortedSetZiplist => readPacked (unpackSortedSet .ziplist decodeZiplist) r
  | .sortedSetListpack => readPacked (unpackSortedSet .listpack decodeListpack) r

/-! ## §4. Writing. -/

/-- The bytes of a value in the layout in which values are written. -/
def writeValue (compression : Bool) : Value → Bytes
  | .string bytes => writeString compression bytes
  | .list items => writeLength items.length ++ items.flatMap (writeString compression)
  | .set members =>
    writeLength members.size ++ members.members.flatMap (writeString compression)
  | .hash fields =>
    writeLength fields.size ++
      fields.toList.flatMap fun p => writeString compression p.1 ++ writeString compression p.2
  | .sortedSet members =>
    writeLength members.size ++
      members.toList.flatMap fun p => writeString compression p.1 ++ writeTextScore p.2

end DurableStore.Snapshot
