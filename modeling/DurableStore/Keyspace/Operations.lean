/-
  DurableStore.Keyspace.Operations
  ────────────────────────────────
  **OPERATIONS ON THE KEYSPACE.**

  First the operations on one key, then those on whole databases.  An
  expired key is never seen: reading it removes it, writing over it counts
  as writing a new key, and listing leaves it out.  Only `size` counts keys
  that are expired and not yet removed.

      put / get / contains / remove / setExpiry
      size / entries / keys / clear / clearAll / swap
      snapshot / restore / sweep
-/
import DurableStore.Keyspace.Eviction
import DurableStore.Snapshot.Basic

namespace DurableStore.Keyspace

/-! ## §1. One key. -/

/-- The live entry under a key, touched. -/
def get (ks : Keyspace) (i : Nat) (key : Bytes) :
    Except KeyspaceError (Keyspace × Option Entry) :=
  ks.visit i key

/-- Whether there is a live entry under a key; it is touched. -/
def contains (ks : Keyspace) (i : Nat) (key : Bytes) :
    Except KeyspaceError (Keyspace × Bool) := do
  let (ks, found) ← ks.visit i key
  return (ks, found.isSome)

/-- Sets or removes the deadline of a live key; false if there is none. -/
def setExpiry (ks : Keyspace) (i : Nat) (key : Bytes) (expiresAt : Option Millis) :
    Except KeyspaceError (Keyspace × Bool) := do
  let (ks, found) ← ks.update i key fun entry => ({ entry with expiresAt }, ())
  return (ks, found.isSome)

/-- Writes an entry under a key, after making room for it if that is due. -/
def put (ks : Keyspace) (i : Nat) (key : Bytes) (entry : Entry) :
    Except KeyspaceError Keyspace := do
  let _ ← ks.database i
  let (ks, _) := ks.maybeEvict i
  let db ← ks.database i
  let event :=
    match db.entries.find? key with
    | some previous => if previous.isExpired ks.now then Event.new else Event.set
    | none => Event.new
  return (ks.modifyDatabase i (·.insert key (entry.touch ks.now))).notify i key event

/-- Removes a key and returns its entry if that was live. -/
def remove (ks : Keyspace) (i : Nat) (key : Bytes) :
    Except KeyspaceError (Keyspace × Option Entry) := do
  let db ← ks.database i
  match db.entries.find? key with
  | none => return (ks, none)
  | some entry =>
    if entry.isExpired ks.now then return (ks.discard i key entry .expired, none)
    else return (ks.discard i key entry .del, some entry)

/-! ## §2. Whole databases. -/

/-- The number of keys stored in a database. -/
def size (ks : Keyspace) (i : Nat) : Except KeyspaceError Nat := do
  let db ← ks.database i
  return db.entries.size

/-- The live entries of a database in key order, without touching them. -/
def entries (ks : Keyspace) (i : Nat) : Except KeyspaceError (List (Bytes × Entry)) := do
  let db ← ks.database i
  return Snapshot.liveAt ks.now db.entries.toList

/-- The keys of the live entries of a database, in order. -/
def keys (ks : Keyspace) (i : Nat) : Except KeyspaceError (List Bytes) := do
  let entries ← ks.entries i
  return entries.map Prod.fst

/-- Empties a database. -/
def clear (ks : Keyspace) (i : Nat) : Except KeyspaceError Keyspace := do
  let _ ← ks.database i
  return ks.modifyDatabase i fun _ => Database.empty

/-- Empties all databases. -/
def clearAll (ks : Keyspace) : Keyspace :=
  { ks with databases := ks.databases.map fun _ => Database.empty }

/-- Exchanges two databases. -/
def swap (ks : Keyspace) (a b : Nat) : Except KeyspaceError Keyspace := do
  let da ← ks.database a
  let db ← ks.database b
  return { ks with databases := (ks.databases.set a db).set b da }

/-- A copy of every live entry. -/
def snapshot (ks : Keyspace) : Snapshot where
  takenAt := ks.now
  databases := ks.databases.map fun db => Snapshot.liveAt ks.now db.entries.toList

/-- Adds a loaded entry to a database: charged and touched. -/
def load (now : Millis) (db : Database) (p : Bytes × Entry) : Database :=
  let entry := p.2.touch now
  { db with
    entries := db.entries.insert p.1 entry
    memory := db.memory + entry.size p.1 }

/-- A database made of the live entries of a list. -/
def loadAll (now : Millis) (entries : List (Bytes × Entry)) : Database :=
  (Snapshot.liveAt now entries).foldl (load now) Database.empty

/-- Replaces the whole dataset by a snapshot, without evicting anything or
telling anybody.  A snapshot with entries in a database that does not exist
is refused before anything changes. -/
def restore (ks : Keyspace) (s : Snapshot) : Except KeyspaceError Keyspace :=
  if (s.databases.drop ks.count).any fun entries => !entries.isEmpty then
    .error (.databaseOutOfRange (s.databases.length - 1) ks.count)
  else
    .ok { ks with
      databases := (List.range ks.count).map fun i =>
        loadAll ks.now (s.databases.getD i []) }

/-! ## §3. The sweep. -/

/-- Removes a key if it is expired. -/
def expire (ks : Keyspace) (i : Nat) (db : Database) (key : Bytes) : Keyspace :=
  match db.entries.find? key with
  | some entry => if entry.isExpired ks.now then ks.discard i key entry .expired else ks
  | none => ks

/-- Removes the expired keys of one database. -/
def sweepDatabase (ks : Keyspace) (i : Nat) : Keyspace :=
  match ks.databases[i]? with
  | some db => db.entries.keys.foldl (fun ks key => ks.expire i db key) ks
  | none => ks

/-- Removes all expired keys, and returns how many there were. -/
def sweep (ks : Keyspace) : Keyspace × Nat :=
  let swept := (List.range ks.count).foldl sweepDatabase ks
  (swept, swept.stats.expired - ks.stats.expired)

end DurableStore.Keyspace
