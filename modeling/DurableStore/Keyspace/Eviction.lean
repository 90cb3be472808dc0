/-
  DurableStore.Keyspace.Eviction
  ────────────────────────────────
  **EVICTION.**

  When the memory in use is above the ceiling, keys of one database are
  dropped until it is not, the database is empty, or a hundred attempts
  have been made.  An attempt takes a SAMPLE: the next few keys from the
  database's cursor on, wrapping around once at the end.  Of the sampled
  keys that the policy may drop, the least recently used one goes; if
  there is none, the attempt is spent and the cursor has moved on.

  Writes do not pay for this each time: only every fiftieth counted write
  looks at the memory at all.
-/
import DurableStore.Keyspace.Basic

namespace DurableStore

/-- The next keys from the cursor on, and the database with its cursor moved.
At the end of the database the sample goes on at the beginning, except when
it began there. -/
def Database.sample (db : Database) (size : Nat) : List (Bytes × Entry) × Database :=
  let entries := db.entries.toList
  let sampled := (entries.drop db.cursor).take size
  if sampled.length = size then
    (sampled, { db with cursor := db.cursor + size })
  else
    let missing := if 0 < db.cursor then size - sampled.length else 0
    (sampled ++ entries.take missing, { db with cursor := missing })

/-- The entry that was accessed the longest time ago; of several the first. -/
def leastRecent? : List (Bytes × Entry) → Option (Bytes × Entry)
  | [] => none
  | p :: rest =>
    match leastRecent? rest with
    | some q => if q.2.lastAccessed < p.2.lastAccessed then some q else some p
    | none => some p

namespace Keyspace

/-- How many attempts one round of eviction makes. -/
def maxAttempts : Nat := 100

/-- Only every so many writes look at the memory. -/
def checkInterval : Nat := 50

/-- One attempt at evicting: the keyspace after it, and whether a key went. -/
def attemptEviction (ks : Keyspace) (i : Nat) (db : Database) : Keyspace × Nat :=
  let (sampled, db) := db.sample ks.policy.sampleSize
  let ks := ks.modifyDatabase i fun _ => db
  match leastRecent? (sampled.filter fun p => ks.policy.isEligible p.2) with
  | some (key, entry) => (ks.discard i key entry .evicted, 1)
  | none => (ks, 0)

/-- Attempts for as long as memory is above the ceiling, the database holds a
key, and the budget lasts. -/
def evictUpTo : Nat → Keyspace → Nat → Keyspace × Nat
  | 0, ks, _ => (ks, 0)
  | budget + 1, ks, i =>
    match ks.databases[i]? with
    | none => (ks, 0)
    | some db =>
      if ks.usedMemory ≤ ks.maxMemory ∨ db.entries.isEmpty then (ks, 0)
      else
        let (ks, n) := ks.attemptEviction i db
        let (ks, m) := evictUpTo budget ks i
        (ks, n + m)

/-- Whether there is a ceiling and a policy that does something about it. -/
def mayEvict (ks : Keyspace) : Bool := ks.maxMemory ≠ 0 && ks.policy.canEvict

/-- One round of eviction in a database; returns how many keys went. -/
def evict (ks : Keyspace) (i : Nat) : Except KeyspaceError (Keyspace × Nat) := do
  let _ ← ks.database i
  if ks.mayEvict then return evictUpTo maxAttempts ks i else return (ks, 0)

/-- The keyspace after one more counted write. -/
def countWrite (ks : Keyspace) : Keyspace := { ks with writes := ks.writes + 1 }

/-- Whether a round of eviction is due at the write counted last. -/
def evictionDue (ks : Keyspace) : Bool :=
  ks.writes % checkInterval = 0 && ks.maxMemory < ks.usedMemory

/-- The check before a write: every fiftieth one that finds memory above the
ceiling runs a round of eviction.  The write is counted even if the round is
refused because there is no such database. -/
def maybeEvict (ks : Keyspace) (i : Nat) : Keyspace × Except KeyspaceError Nat :=
  if ks.mayEvict then
    let ks := ks.countWrite
    if ks.evictionDue then
      match ks.evict i with
      | .ok (ks, n) => (ks, .ok n)
      | .error error => (ks, .error error)
    else (ks, .ok 0)
  else (ks, .ok 0)

end Keyspace

end DurableStore
