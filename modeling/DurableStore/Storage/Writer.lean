/-
  DurableStore.Storage.Writer
  ────────────────────────────────
  **BUFFERED APPENDING.**

  Small records are collected and written together.  The buffer holds 8192
  bytes.  A record that does not fit into what is left of it causes the
  collected bytes to be written first, and a record as large as the whole
  buffer is written by itself.

  The order of bytes is never changed: the file's bytes followed by the
  collected ones are always the records in the order they were given.
-/
import DurableStore.Storage.Disk

namespace DurableStore

/-- A file opened for appending, with bytes not written yet. -/
structure Writer where
  handle : Handle
  pending : Bytes
  deriving DecidableEq, Repr

namespace Writer

/-- How many bytes the buffer holds. -/
def capacity : Nat := 8192

/-- A writer with an empty buffer. -/
def ofHandle (handle : Handle) : Writer := ⟨handle, []⟩

/-- Writes out the collected bytes. -/
def flush (w : Writer) (d : Disk) : Disk × Writer :=
  (d.append w.handle w.pending, { w with pending := [] })

/-- Collects a record for which there is room. -/
def collect (w : Writer) (record : Bytes) : Writer :=
  { w with pending := w.pending ++ record }

/-- Appends a record. -/
def write (w : Writer) (d : Disk) (record : Bytes) : Disk × Writer :=
  let spare := capacity - w.pending.length
  if record.length < spare then (d, w.collect record)
  else
    let (d, w) := if spare < record.length then w.flush d else (d, w)
    if capacity ≤ record.length then (d.append w.handle record, w)
    else (d, w.collect record)

end Writer

end DurableStore
