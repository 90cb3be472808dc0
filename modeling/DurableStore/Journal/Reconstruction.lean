/-
  DurableStore.Journal.Reconstruction
  ────────────────────────────────
  **REBUILDING A DATASET BY COMMANDS.**

  Every entry can be rebuilt from nothing by commands of the log's own
  vocabulary.  A collection takes one command per element, so that no
  record grows with the collection.  The deadline comes last and is
  absolute, so that it means the same whenever the commands are applied.

      reconstruction s  — the commands that rebuild the live entries of a
                          snapshot, each database introduced by a SELECT
-/
import DurableStore.Score.Text
import DurableStore.Snapshot.Basic
import DurableStore.Command.Session

namespace DurableStore

/-- The commands that give a key a value, from nothing. -/
def Value.commands (key : Bytes) : Value → List Command
  | .string bytes => [[Bytes.ofString "SET", key, bytes]]
  | .list items => items.map fun item => [Bytes.ofString "RPUSH", key, item]
  | .hash fields => fields.toList.map fun p => [Bytes.ofString "HSET", key, p.1, p.2]
  | .set members => members.members.map fun member => [Bytes.ofString "SADD", key, member]
  | .sortedSet members =>
    members.toList.map fun p => [Bytes.ofString "ZADD", key, p.2.format, p.1]

/-- The command that gives a key a deadline. -/
def Entry.deadlineCommands (key : Bytes) (entry : Entry) : List Command :=
  match entry.expiresAt with
  | some deadline => [[Bytes.ofString "PEXPIREAT", key, Bytes.ofNat deadline.toNat]]
  | none => []

/-- The commands that rebuild an entry under a key, from nothing. -/
def Entry.commands (key : Bytes) (entry : Entry) : List Command :=
  entry.value.commands key ++ entry.deadlineCommands key

namespace Snapshot

/-- The commands that rebuild the live entries of a snapshot. -/
def reconstruction (s : Snapshot) : List Command :=
  s.liveDatabases.flatMap fun d =>
    Command.selecting d.1 :: d.2.flatMap fun p => p.2.commands p.1

/-- The commands that rebuild a snapshot, as they stand in a log. -/
def reconstructionBytes (s : Snapshot) : Bytes := s.reconstruction.flatMap Wire.encode

end Snapshot

end DurableStore
