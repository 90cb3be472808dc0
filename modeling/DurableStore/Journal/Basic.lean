/-
  DurableStore.Journal.Basic
  ────────────────────────────────
  **THE DURABLE LOG.**

  A journal appends records to the file at its path.  A record is a command
  in wire form and belongs to a database; a `SELECT` is written before it
  when the record before belonged to another database or there was none.

  The log is COMPACTED while records go on being appended:

      idle  — beginCompaction →  compacting  — finishCompaction →  idle

  Between the two, every record is also kept in a side buffer.  The
  compaction is finished with a snapshot taken when it began: the commands
  that rebuild the snapshot and the side buffer make up a new file, which
  then takes the name of the log.  If anything obstructs that, the log goes
  on as it was.
-/
import DurableStore.Storage.Writer
import DurableStore.Journal.Reconstruction

namespace DurableStore

/-- Where a journal is in the cycle of a compaction. -/
inductive Phase where
  | idle
  | compacting
  deriving DecidableEq, Repr

/-- The name by which a phase is reported. -/
def Phase.name : Phase → String
  | .idle => "idle"
  | .compacting => "rewriting"

/-- Why an operation on a journal fails. -/
inductive JournalError where
  | disk (error : DiskError)
  | compactionInProgress
  | notCompacting
  deriving DecidableEq, Repr

/-- The wording of an error. -/
def JournalError.message : JournalError → String
  | .disk error => s!"durable log I/O error: {error.message}"
  | .compactionInProgress => "a log rewrite is already in progress"
  | .notCompacting => "no log rewrite has been started"

/-- An open log. -/
structure Journal where
  path : Path
  writer : Writer
  /-- The database of the last record. -/
  selected : Option Nat
  phase : Phase
  /-- The records since the compaction began. -/
  side : Bytes
  deriving DecidableEq, Repr

namespace Journal

/-! ## §1. Opening, appending, closing. -/

/-- Opens the log at a path; an absent one is created. -/
def open? (d : Disk) (path : Path) : Except DiskError (Disk × Journal) := do
  let (d, handle) ← d.openAppend path
  return (d, ⟨path, Writer.ofHandle handle, none, .idle, []⟩)

/-- Appends bytes to the log, and to the side buffer during a compaction. -/
def write (j : Journal) (d : Disk) (bytes : Bytes) : Disk × Journal :=
  let side := if j.phase = .compacting then j.side ++ bytes else j.side
  let (d, writer) := j.writer.write d bytes
  (d, { j with writer, side })

/-- Makes a database the one that the next record belongs to. -/
def select (j : Journal) (d : Disk) (database : Nat) : Disk × Journal :=
  if j.selected = some database then (d, j)
  else
    let (d, j) := j.write d (Wire.encode (Command.selecting database))
    (d, { j with selected := some database })

/-- Appends a record that belongs to a database. -/
def append (j : Journal) (d : Disk) (database : Nat) (record : Bytes) : Disk × Journal :=
  let (d, j) := j.select d database
  j.write d record

/-- Appends a command that belongs to a database. -/
def log (j : Journal) (d : Disk) (database : Nat) (command : Command) : Disk × Journal :=
  j.append d database (Wire.encode command)

/-- Writes out what has been collected. -/
def flush (j : Journal) (d : Disk) : Disk × Journal :=
  let (d, writer) := j.writer.flush d
  (d, { j with writer })

/-- Closes the log: what has been collected is written out. -/
def close (j : Journal) (d : Disk) : Disk := (j.flush d).1

/-- The bytes of the log: those in the file and those still collected. -/
def content (j : Journal) (d : Disk) : Bytes :=
  (d.bytes? j.path).getD [] ++ j.writer.pending

/-! ## §2. Compaction. -/

/-- Begins a compaction.  The snapshot that will finish it has to be taken
before anything more is appended. -/
def beginCompaction (j : Journal) : Except JournalError Journal :=
  match j.phase with
  | .compacting => .error .compactionInProgress
  | .idle => .ok { j with phase := .compacting, side := [], selected := none }

/-- The bytes that a compaction with the given snapshot puts in place of the log. -/
def compacted (j : Journal) (s : Snapshot) : Bytes := s.reconstructionBytes ++ j.side

/-- The journal back in the idle phase. -/
def settled (j : Journal) : Journal := { j with phase := .idle, side := [] }

/-- The end of a compaction that was obstructed: what was prepared is removed. -/
def abandon (j : Journal) (d : Disk) (error : DiskError) :
    Disk × Journal × Except JournalError Unit :=
  (d.discard j.path.temporary, j.settled, .error (.disk error))

/-- Finishes a compaction with the snapshot taken when it began. -/
def finishCompaction (j : Journal) (d : Disk) (s : Snapshot) :
    Disk × Journal × Except JournalError Unit :=
  match j.phase with
  | .idle => (d, j, .error .notCompacting)
  | .compacting =>
    match d.write j.path.temporary (j.compacted s) with
    | .error error => j.abandon d error
    | .ok d =>
      let (d, j) := j.flush d
      match d.openAppend j.path.temporary with
      | .error error => j.abandon d error
      | .ok (d, handle) =>
        match d.rename j.path.temporary j.path with
        | .error error => j.abandon d error
        | .ok d =>
          (d, { j.settled with writer := Writer.ofHandle handle }, .ok ())

/-- Compacts the log at once to the commands that rebuild a snapshot. -/
def compact (j : Journal) (d : Disk) (s : Snapshot) :
    Disk × Journal × Except JournalError Unit :=
  match j.beginCompaction with
  | .error error => (d, j, .error error)
  | .ok j => j.finishCompaction d s

end Journal

end DurableStore
