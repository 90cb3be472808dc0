/-
  DurableStore.Snapshot.Format
  ────────────────────────────────
  **THE SNAPSHOT FILE.**

      "REDIS" and a version of four digits
      items, each begun by one byte:
        FA  two strings of information about the file
        FB  two counts that announce the size of a database
        FC  a deadline in milliseconds for the next key
        FD  a deadline in seconds for the next key
        FE  the index of the database that the next keys belong to
        FF  the end, followed by a checksum
        any other byte is the type of a value: a key and the value follow

  The writer produces version 9, marks the checksum as not computed, and
  leaves out expired entries and empty databases.  The reader takes the
  versions 1 to 12, leaves out what has expired by now, and does not ask
  for the checksum: the end marker alone makes a file complete.

  Main definitions: `Snapshot.encode` and `Snapshot.decode`.
-/
import DurableStore.Bytes.Utf8
import DurableStore.Snapshot.Basic
import DurableStore.Snapshot.Payload

namespace DurableStore.Snapshot

/-! ## §1. Markers. -/

/-- The first five bytes of a snapshot file. -/
def magic : Bytes := Bytes.ofString "REDIS"

/-- The version that is written. -/
def writtenVersion : Bytes := Bytes.ofString "0009"

/-- The last version that is read. -/
def lastVersion : Nat := 12

/-- Begins two strings of information about the file. -/
def infoMarker : UInt8 := 0xFA

/-- Begins two counts that announce the size of a database. -/
def sizesMarker : UInt8 := 0xFB

/-- Begins a deadline in milliseconds. -/
def millisMarker : UInt8 := 0xFC

/-- Begins a deadline in seconds. -/
def secondsMarker : UInt8 := 0xFD

/-- Begins the index of a database. -/
def databaseMarker : UInt8 := 0xFE

/-- Ends the file. -/
def endOfFile : UInt8 := 0xFF

/-! ## §2. Writing. -/

/-- A piece of information about the file. -/
def writeInfo (key : String) (value : Bytes) : Bytes :=
  infoMarker :: (writeString false (Bytes.ofString key) ++ writeString false value)

/-- What stands before the databases. -/
def writePreamble (takenAt : Millis) : Bytes :=
  magic ++ writtenVersion ++
    writeInfo "redis-ver" (Bytes.ofString "7.2.0") ++
    writeInfo "redis-bits" (Bytes.ofNat 64) ++
    writeInfo "ctime" (Bytes.ofNat (takenAt.toNat / 1000))

/-- The deadline of the next key. -/
def writeDeadline : Option Millis → Bytes
  | some deadline => millisMarker :: Bytes.ofNatLE 8 deadline.toNat
  | none => []

/-- A key with its deadline and value. -/
def writeEntry (compression : Bool) (key : Bytes) (entry : Entry) : Bytes :=
  writeDeadline entry.expiresAt ++
    (Layout.ofValue entry.value).code ::
      (writeString compression key ++ writeValue compression entry.value)

/-- A database: its index, the number of its keys and of those that have a
deadline, and the keys. -/
def writeDatabase (compression : Bool) (index : Nat) (entries : List (Bytes × Entry)) :
    Bytes :=
  databaseMarker :: (writeLength index ++
    sizesMarker :: (writeLength entries.length ++
      writeLength (entries.countP fun p => p.2.expiresAt.isSome) ++
      entries.flatMap fun p => writeEntry compression p.1 p.2))

/-- The snapshot file of the live entries of a snapshot. -/
def encode (compression : Bool) (s : Snapshot) : Bytes :=
  writePreamble s.takenAt ++
    (s.liveDatabases.flatMap fun d => writeDatabase compression d.1 d.2) ++
    endOfFile :: List.replicate 8 0

/-! ## §3. Reading. -/

/-- One item of a snapshot file. -/
inductive Item where
  | info (key value : Bytes)
  | sizes (keys deadlines : Nat)
  | deadline (at_ : Millis)
  | database (index : Nat)
  | endOfFile
  | entry (key : Bytes) (value : Value)

/-- Checks the first five bytes and the version after them. -/
def readHeader (bytes : Bytes) : Except Fault Reader := do
  if bytes.take magic.length ≠ magic then .error .invalidMagic
  else
    let (text, r) ← ((Reader.start bytes).skip magic.length).take 4
    match Bytes.toNat? Bytes.u32Bound text with
    | some version =>
      if 1 ≤ version ∧ version ≤ lastVersion then return r
      else .error (.unsupportedVersion (Bytes.text text))
    | none => .error (.unsupportedVersion (Bytes.text text))

/-- The item at the front of the input. -/
def readItem (r : Reader) : Except Fault (Item × Reader) := do
  let (marker, r) ← r.byte
  if marker = infoMarker then
    let ((key, value), r) ← readPair r
    return (.info key value, r)
  else if marker = sizesMarker then
    let (keys, r) ← readLength r
    let (deadlines, r) ← readLength r
    return (.sizes keys deadlines, r)
  else if marker = millisMarker then
    let (millis, r) ← r.natLE 8
    return (.deadline (UInt64.ofNat millis), r)
  else if marker = secondsMarker then
    let (seconds, r) ← r.natLE 4
    return (.deadline (Millis.ofSeconds seconds), r)
  else if marker = databaseMarker then
    let (index, r) ← readLength r
    return (.database index, r)
  else if marker = endOfFile then return (.endOfFile, r)
  else
    let (key, r) ← readString r
    match Layout.ofCode? marker with
    | some layout =>
      let (value, r) ← readValue layout r
      return (.entry key value, r)
    | none => .error (.unsupportedType marker)

/-- A live entry of a snapshot file, with its database. -/
structure Record where
  database : Nat
  key : Bytes
  entry : Entry

/-- What the items read so far say about the next key. -/
structure Context where
  /-- The database that the next keys belong to. -/
  database : Nat
  /-- The deadline of the next key. -/
  deadline : Option Millis

/-- What a reader is told about the dataset it reads for. -/
structure Target where
  /-- The number of databases. -/
  databases : Nat
  /-- The present; what has expired by then is left out. -/
  now : Millis

/-- The record that a key makes: none if it has expired, and a fault if there
is no such database. -/
def Target.record? (t : Target) (c : Context) (key : Bytes) (value : Value) :
    Except Fault (Option Record) :=
  let entry := Entry.fresh value c.deadline
  if entry.isExpired t.now then .ok none
  else if c.database < t.databases then .ok (some ⟨c.database, key, entry⟩)
  else .error (.databaseOutOfRange c.database t.databases)

/-- What an item other than a key and the end says about the next key. -/
def Target.advance (t : Target) (c : Context) (item : Item) : Except Fault Context :=
  if c.deadline.isSome then .error .danglingDeadline
  else
    match item with
    | .deadline at_ => .ok { c with deadline := some at_ }
    | .database index =>
      if index < t.databases then .ok { c with database := index }
      else .error (.databaseOutOfRange index t.databases)
    | _ => .ok c

/-- The records up to the end marker, and the position of that marker.  An
item takes at least one byte, so the length of the input bounds their
number. -/
def Target.records (t : Target) : Nat → Context → Reader → Except Fault (List Record × Nat)
  | 0, _, r => .error (.unexpectedEnd r.position 1)
  | budget + 1, c, r => do
    let (item, next) ← readItem r
    match item with
    | .entry key value =>
      let record? ← t.record? c key value
      let (records, stop) ← t.records budget { c with deadline := none } next
      return (record?.toList ++ records, stop)
    | .endOfFile =>
      if c.deadline.isSome then .error .danglingDeadline
      else return ([], r.position)
    | item =>
      let c ← t.advance c item
      t.records budget c next

/-- The records of one database, in the order of the file. -/
def recordsOf (records : List Record) (index : Nat) : List (Bytes × Entry) :=
  (records.filter fun record => record.database = index).map fun record =>
    (record.key, record.entry)

/-- Reads a snapshot file up to its end marker, and tells where that is. -/
def decodeUpTo (databases : Nat) (now : Millis) (bytes : Bytes) :
    Except Fault (Snapshot × Nat) := do
  let r ← readHeader bytes
  let (records, stop) ← Target.records ⟨databases, now⟩ (bytes.length + 1) ⟨0, none⟩ r
  return (⟨now, (List.range databases).map (recordsOf records)⟩, stop)

/-- The snapshot that a file holds, for so many databases: every entry that
has not expired by now, in the order of the file. -/
def decode (databases : Nat) (now : Millis) (bytes : Bytes) : Except Fault Snapshot := do
  let (snapshot, _) ← decodeUpTo databases now bytes
  return snapshot

end DurableStore.Snapshot
