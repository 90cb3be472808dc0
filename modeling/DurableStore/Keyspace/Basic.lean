/-
  DurableStore.Keyspace.Basic
  ────────────────────────────────
  **THE KEYSPACE.**

  A keyspace is a fixed number of databases, each a map from key to entry
  together with the memory charged for it, and what they share: the clock
  reading, the memory ceiling with its policy, counters, and the notices
  for a listener.

  This file holds the state and the three steps that every operation is
  made of:

      visit    — look a key up: a live entry is touched, an expired one goes
      discard  — take an entry out, count it and report it
      update   — visit and change in place; an emptied collection goes

  An operation on a database that does not exist is refused and changes
  nothing.
-/
import DurableStore.Keyspace.Policy

namespace DurableStore

/-! ## §1. Errors and notices. -/

/-- Why an operation on the keyspace is refused. -/
inductive KeyspaceError where
  | databaseOutOfRange (index count : Nat)
  | wrongKind (expected found : Kind)
  | unknownPolicy (name : String)
  deriving DecidableEq, Repr

/-- The wording of an error. -/
def KeyspaceError.message : KeyspaceError → String
  | .databaseOutOfRange index count => s!"database index {index} out of range (0..{count})"
  | .wrongKind expected found =>
    s!"WRONGTYPE operation against a key holding {found.name}, expected {expected.name}"
  | .unknownPolicy name => s!"unknown eviction policy: {name}"

/-- The policy of a name, or the error that names it. -/
def EvictionPolicy.parse (name : String) : Except KeyspaceError EvictionPolicy :=
  match ofName? name with
  | some policy => .ok policy
  | none => .error (.unknownPolicy name)

/-- Fails unless the entry holds a value of the kind. -/
def Entry.expectKind (entry : Entry) (kind : Kind) : Except KeyspaceError Unit :=
  if entry.value.kind = kind then .ok () else .error (.wrongKind kind entry.value.kind)

/-- What can happen to a key. -/
inductive Event where
  /-- A key that did not exist was written. -/
  | new
  /-- An existing key was written over. -/
  | set
  /-- A key was removed on purpose. -/
  | del
  /-- A key was found past its deadline and removed. -/
  | expired
  /-- A key was removed to bring memory below the ceiling. -/
  | evicted
  deriving DecidableEq, Repr

/-- The name by which an event is reported. -/
def Event.name : Event → String
  | .new => "new"
  | .set => "set"
  | .del => "del"
  | .expired => "expired"
  | .evicted => "evicted"

/-- What a listener is told. -/
structure Notice where
  event : Event
  database : Nat
  key : Bytes
  deriving DecidableEq, Repr

/-! ## §2. Databases. -/

/-- One database. -/
structure Database where
  entries : ByteMap Entry
  /-- The memory charged for the entries. -/
  memory : Nat
  /-- Where the next eviction attempt begins to look. -/
  cursor : Nat
  deriving DecidableEq

namespace Database

/-- A database without keys. -/
def empty : Database := ⟨ByteMap.empty, 0, 0⟩

instance : Inhabited Database := ⟨empty⟩

/-- Stores an entry whose size is charged already. -/
def store (db : Database) (key : Bytes) (entry : Entry) : Database :=
  { db with entries := db.entries.insert key entry }

/-- Stores an entry in place of one of another size. -/
def replace (db : Database) (key : Bytes) (before after : Entry) : Database :=
  { db with
    entries := db.entries.insert key after
    memory :=
      if before.size key ≤ after.size key then
        db.memory + (after.size key - before.size key)
      else db.memory - (before.size key - after.size key) }

/-- Charges for an entry and stores it, with what it replaces taken off. -/
def insert (db : Database) (key : Bytes) (entry : Entry) : Database :=
  let charged := db.memory + entry.size key
  { db with
    entries := db.entries.insert key entry
    memory :=
      match db.entries.find? key with
      | some previous => charged - previous.size key
      | none => charged }

/-- Takes a key out, with what its entry was charged. -/
def erase (db : Database) (key : Bytes) (entry : Entry) : Database :=
  { db with entries := db.entries.erase key, memory := db.memory - entry.size key }

/-- The memory that the stored entries should be charged. -/
def entrySizes (db : Database) : Nat :=
  totalCost (fun p => p.2.size p.1) db.entries.toList

end Database

/-! ## §3. The state. -/

/-- Counters over the life of a keyspace. -/
structure Stats where
  hits : Nat
  misses : Nat
  expired : Nat
  evicted : Nat
  deriving DecidableEq, Repr

/-- Databases and what they share. -/
structure Keyspace where
  databases : List Database
  /-- The present clock reading. -/
  now : Millis
  /-- The memory ceiling; zero means that there is none. -/
  maxMemory : Nat
  policy : EvictionPolicy
  /-- How many writes the eviction check has counted. -/
  writes : Nat
  stats : Stats
  /-- Whether somebody listens; without a listener no notice is kept. -/
  listening : Bool
  /-- The notices since they were last taken, oldest first. -/
  notices : List Notice
  deriving DecidableEq

namespace Keyspace

/-- A keyspace without keys.  It has at least one database. -/
def new (count : Nat) (now : Millis) : Keyspace where
  databases := List.replicate (max count 1) Database.empty
  now
  maxMemory := 0
  policy := .noEviction
  writes := 0
  stats := ⟨0, 0, 0, 0⟩
  listening := false
  notices := []

/-- The keyspace at another clock reading. -/
def atTime (ks : Keyspace) (now : Millis) : Keyspace := { ks with now }

/-- The keyspace with a memory ceiling; zero disables eviction. -/
def withMaxMemory (ks : Keyspace) (maxMemory : Nat) : Keyspace := { ks with maxMemory }

/-- The keyspace with a policy for what to drop at the ceiling. -/
def withPolicy (ks : Keyspace) (policy : EvictionPolicy) : Keyspace := { ks with policy }

/-- The keyspace with a listener. -/
def withListener (ks : Keyspace) : Keyspace := { ks with listening := true }

/-- The notices since this was last asked, and the keyspace without them. -/
def takeNotices (ks : Keyspace) : List Notice × Keyspace :=
  (ks.notices, { ks with notices := [] })

/-- The number of databases. -/
def count (ks : Keyspace) : Nat := ks.databases.length

/-- The memory charged for all databases. -/
def usedMemory (ks : Keyspace) : Nat := totalCost Database.memory ks.databases

/-- A database by its index. -/
def database (ks : Keyspace) (i : Nat) : Except KeyspaceError Database :=
  match ks.databases[i]? with
  | some db => .ok db
  | none => .error (.databaseOutOfRange i ks.count)

/-- Changes one database. -/
def modifyDatabase (ks : Keyspace) (i : Nat) (f : Database → Database) : Keyspace :=
  { ks with databases := ks.databases.modify i f }

@[simp] theorem count_modifyDatabase (ks : Keyspace) (i : Nat) (f : Database → Database) :
    (ks.modifyDatabase i f).count = ks.count := by
  simp [modifyDatabase, count]

/-! ## §4. Steps. -/

/-- Tells the listener, if there is one. -/
def notify (ks : Keyspace) (i : Nat) (key : Bytes) (event : Event) : Keyspace :=
  if ks.listening then { ks with notices := ks.notices ++ [⟨event, i, key⟩] } else ks

/-- Counts a lookup that found a live entry. -/
def countHit (ks : Keyspace) : Keyspace :=
  { ks with stats := { ks.stats with hits := ks.stats.hits + 1 } }

/-- Counts a lookup that found none. -/
def countMiss (ks : Keyspace) : Keyspace :=
  { ks with stats := { ks.stats with misses := ks.stats.misses + 1 } }

/-- Counts a removal, if it is of a kind that is counted. -/
def countRemoval (ks : Keyspace) : Event → Keyspace
  | .expired => { ks with stats := { ks.stats with expired := ks.stats.expired + 1 } }
  | .evicted => { ks with stats := { ks.stats with evicted := ks.stats.evicted + 1 } }
  | _ => ks

/-- Takes an entry out of a database, counts that and reports it. -/
def discard (ks : Keyspace) (i : Nat) (key : Bytes) (entry : Entry) (event : Event) :
    Keyspace :=
  ((ks.modifyDatabase i (·.erase key entry)).countRemoval event).notify i key event

/-- Looks a key up.  A live entry is touched and counts as a hit; an expired
one is removed, and counts as a miss like a key that is not there. -/
def visit (ks : Keyspace) (i : Nat) (key : Bytes) :
    Except KeyspaceError (Keyspace × Option Entry) := do
  let db ← ks.database i
  match db.entries.find? key with
  | none => return (ks.countMiss, none)
  | some entry =>
    if entry.isExpired ks.now then
      return ((ks.discard i key entry .expired).countMiss, none)
    else
      let entry := entry.touch ks.now
      return ((ks.modifyDatabase i (·.store key entry)).countHit, some entry)

/-- Changes the live entry under a key in place, if there is one, and returns
what the change returns.  The memory follows the change in size, and a
collection that is left without elements is removed. -/
def update {α : Type} (ks : Keyspace) (i : Nat) (key : Bytes) (change : Entry → Entry × α) :
    Except KeyspaceError (Keyspace × Option α) := do
  let (ks, found) ← ks.visit i key
  match found with
  | none => return (ks, none)
  | some before =>
    let (after, result) := change before
    let ks := ks.modifyDatabase i (·.replace key before after)
    if after.value.isEmptyCollection then
      return (ks.discard i key after .del, some result)
    else return (ks, some result)

end Keyspace

end DurableStore
