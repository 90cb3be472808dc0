/-
  DurableStore.Snapshot.Basic
  ────────────────────────────────
  **SNAPSHOTS.**

  A snapshot is a copy of a whole dataset at one moment: for each database
  the list of its keys with their entries.  It may still hold entries that
  were already expired at that moment; whatever is made of a snapshot
  looks at its live entries only.
-/
import DurableStore.Value.Entry

namespace DurableStore

/-- A copy of a dataset at one moment. -/
structure Snapshot where
  /-- The clock reading when the copy was taken. -/
  takenAt : Millis
  /-- The entries of each database. -/
  databases : List (List (Bytes × Entry))
  deriving DecidableEq

namespace Snapshot

/-- The number of entries in all databases. -/
def keyCount (s : Snapshot) : Nat := s.databases.flatten.length

/-- The entries of a list that are not expired. -/
def liveAt (now : Millis) (entries : List (Bytes × Entry)) : List (Bytes × Entry) :=
  entries.filter fun p => !p.2.isExpired now

/-- The databases that hold a live entry, with their index and live entries. -/
def liveDatabases (s : Snapshot) : List (Nat × List (Bytes × Entry)) :=
  (s.databases.zipIdx.map fun d => (d.2, liveAt s.takenAt d.1)).filter
    fun d => !d.2.isEmpty

end Snapshot

end DurableStore
