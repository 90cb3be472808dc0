/-
  DurableStore.Journal.Replay
  ────────────────────────────────
  **READING A LOG.**

  A log is read in pieces of 8192 bytes.  The commands that are complete
  are taken from the front of what has been read; then the next piece is
  appended to what is left.  The log ends at the end of the file, or at the
  first bytes that are no command.  If bytes are left over then, the log
  is TRUNCATED, as after an interrupted write: that is no error.

  Commands without any argument, not even a name, are passed over.
-/
import DurableStore.Wire.Command
import DurableStore.Storage.Disk

namespace DurableStore

/-- What was found in a log. -/
structure Replay where
  /-- The commands in order. -/
  commands : List Command
  /-- Whether bytes that are no command follow them. -/
  truncated : Bool
  /-- The length of the part that holds complete commands. -/
  validLength : Nat
  deriving DecidableEq, Repr

namespace Replay

/-- What is found where there is no log. -/
def nothing : Replay := ⟨[], false, 0⟩

/-- How many bytes are read at a time. -/
def pieceSize : Nat := 8192

/-- The commands found in `taken` bytes, before those found later. -/
def after (commands : List Command) (taken : Nat) (later : Replay) : Replay where
  commands := (commands.filter fun command => !command.isEmpty) ++ later.commands
  truncated := later.truncated
  validLength := taken + later.validLength

/-- Reads on: `left` is what has been read and not been used. -/
def ofPieces (left : Bytes) (pieces : List Bytes) : Replay :=
  let run := Wire.decodeAll left
  after run.commands (left.length - run.rest.length)
    (match run.fault, pieces with
      | some _, _ => ⟨[], true, 0⟩
      | none, [] => ⟨[], !run.rest.isEmpty, 0⟩
      | none, piece :: pieces => ofPieces (run.rest ++ piece) pieces)

/-- What is found in the bytes of a log. -/
def ofBytes (bytes : Bytes) : Replay := ofPieces [] (Bytes.chunks pieceSize bytes)

end Replay

/-- Reads the log at a path; an absent log holds nothing. -/
def Disk.replay (d : Disk) (path : Path) : Except DiskError Replay := do
  match ← d.read path with
  | some bytes => return Replay.ofBytes bytes
  | none => return Replay.nothing

end DurableStore
