/-
  DurableStore.Engine.Basic
  ────────────────────────────────
  **THE ENGINE.**

  An engine puts the parts together: a keyspace, the log that makes it
  durable, the replication stream with its backlog and followers, and the
  disk that the log and the snapshot file are on.

  Every write takes one path.  The change is made to the keyspace; keys that
  it caused to be evicted are logged as deletions; then the command goes to
  the backlog, to the log and to every follower.  So all of them see the
  writes in the order in which the keyspace made them.  The stream names a
  database before a command whenever the command before belonged to
  another one, or a follower has come in since.
-/
import DurableStore.Config.Basic
import DurableStore.Journal.Basic
import DurableStore.Journal.Replay
import DurableStore.Replication.Backlog
import DurableStore.Replication.Followers
import DurableStore.Replication.Psync
import DurableStore.Snapshot.Format

namespace DurableStore

/-! ## §1. State. -/

/-- Where the dataset came from when the engine was opened. -/
inductive LoadSource where
  | empty
  | snapshot (keys : Nat)
  | log (applied skipped : Nat) (truncated : Bool)
  deriving DecidableEq, Repr

/-- What happened when the dataset was loaded. -/
structure LoadReport where
  source : LoadSource
  /-- The logged commands that the fallback was handed, with the database. -/
  deferred : List (Nat × Command)
  deriving DecidableEq, Repr

/-- Why an operation of the engine fails. -/
inductive EngineError where
  | keyspace (error : KeyspaceError)
  | journal (error : JournalError)
  | snapshot (fault : Snapshot.Fault)
  | disk (error : DiskError)
  /-- The engine keeps no log. -/
  | appendOnlyDisabled
  deriving DecidableEq, Repr

/-- The wording of an error. -/
def EngineError.message : EngineError → String
  | .keyspace error => error.message
  | .journal error => error.message
  | .snapshot fault => fault.message
  | .disk error => s!"I/O error: {error.message}"
  | .appendOnlyDisabled => "append-only persistence is disabled"

/-- A keyspace with all that makes it durable and replicated. -/
structure Engine where
  config : Config
  keyspace : Keyspace
  disk : Disk
  /-- The log, if one is kept. -/
  journal : Option Journal
  backlog : Backlog
  followers : Followers
  /-- The database of the last command in the stream. -/
  streamDatabase : Option Nat
  /-- The name of the history that the followers follow. -/
  history : String
  load : LoadReport

/-- A change of the keyspace that may fail. -/
abbrev Mutation (ε α : Type) := Keyspace → Keyspace × Except ε α

namespace Engine

/-! ## §2. The log. -/

/-- Does something with the log, if one is kept. -/
def withJournal (e : Engine) (use : Journal → Disk → Disk × Journal) : Engine :=
  match e.journal with
  | none => e
  | some journal =>
    let (disk, journal) := use journal e.disk
    { e with disk, journal := some journal }

/-- Appends a record to the log, if one is kept. -/
def appendLog (e : Engine) (database : Nat) (record : Bytes) : Engine :=
  e.withJournal fun journal disk => journal.append disk database record

/-- Writes out what the log has collected. -/
def flushLog (e : Engine) : Engine := e.withJournal Journal.flush

/-- The command that repeats an eviction. -/
def evictionCommand (key : Bytes) : Command := [Bytes.ofString "DEL", key]

/-- Logs an eviction; nothing else that happens to a key is logged here. -/
def logNotice (e : Engine) (notice : Notice) : Engine :=
  if notice.event = .evicted then
    e.appendLog notice.database (Wire.encode (evictionCommand notice.key))
  else e

/-- Does something with the keyspace, and logs the evictions that it caused. -/
def onKeyspace {α : Type} (e : Engine) (use : Keyspace → Keyspace × α) : Engine × α :=
  let (keyspace, result) := use e.keyspace
  let (notices, keyspace) := keyspace.takeNotices
  (notices.foldl logNotice { e with keyspace }, result)

/-! ## §3. The write path. -/

/-- Sends bytes down the replication stream. -/
def send (e : Engine) (bytes : Bytes) : Engine :=
  { e with backlog := e.backlog.write bytes, followers := (e.followers.forward bytes).2 }

/-- Makes a database the one that the next command in the stream belongs to. -/
def selectStream (e : Engine) (database : Nat) : Engine :=
  if e.streamDatabase = some database then e
  else
    { e.send (Wire.encode (Command.selecting database)) with
      streamDatabase := some database }

/-- Hands a command that belongs to a database to all that follow the writes. -/
def propagate (e : Engine) (database : Nat) (record : Bytes) : Engine :=
  ((e.selectStream database).appendLog database record).send record

/-- Changes the keyspace and propagates the command, whatever the change
returns. -/
def write {α : Type} (e : Engine) (database : Nat) (mutation : Keyspace → Keyspace × α)
    (record : Bytes) : Engine × α :=
  let (e, result) := e.onKeyspace mutation
  (e.propagate database record, result)

/-- Changes the keyspace and propagates the command unless the change fails. -/
def tryWrite {ε α : Type} (e : Engine) (database : Nat) (mutation : Mutation ε α)
    (record : Bytes) : Engine × Except ε α :=
  let (e, result) := e.onKeyspace mutation
  match result with
  | .ok value => (e.propagate database record, .ok value)
  | .error error => (e, .error error)

/-- Applies a command to a database and propagates it unless it is refused. -/
def execute (e : Engine) (database : Nat) (command : Command) :
    Engine × Except CommandError Unit :=
  e.tryWrite database (command.effect database) (Wire.encode command)

/-! ## §4. Followers. -/

/-- The bytes that a follower missed, if it has followed this history up to
an offset that the backlog still reaches. -/
def missed? (e : Engine) (request : PsyncRequest) : Option Bytes :=
  match request.history, request.offset with
  | some history, some offset =>
    if history = e.history then e.backlog.readAll? offset else none
  | _, _ => none

/-- The snapshot file of the present dataset. -/
def encodeSnapshot (e : Engine) : Bytes :=
  Snapshot.encode e.config.compression e.keyspace.snapshot

/-- What a synchronization request is answered. -/
def outcome (e : Engine) (request : PsyncRequest) : PsyncOutcome :=
  match e.missed? request with
  | some missed => .resume e.history missed
  | none => .restart e.history e.backlog.offset e.encodeSnapshot

/-- Answers a synchronization request and registers the follower.  What the
follower is sent from now on begins exactly where the answer ends. -/
def psync (e : Engine) (request : PsyncRequest) : Engine × FollowerId × PsyncOutcome :=
  let outcome := e.outcome request
  let (id, followers) := e.followers.register
  ({ e with followers, streamDatabase := none }, id, outcome)

/-! ## §5. Compacting the log and saving. -/

/-- Begins a compaction of the log, and takes the snapshot to finish it with. -/
def beginCompaction (e : Engine) : Except EngineError (Engine × Snapshot) :=
  match e.journal with
  | none => .error .appendOnlyDisabled
  | some journal =>
    match journal.beginCompaction with
    | .error error => .error (.journal error)
    | .ok journal => .ok ({ e with journal := some journal }, e.keyspace.snapshot)

/-- Finishes a compaction of the log. -/
def finishCompaction (e : Engine) (s : Snapshot) : Engine × Except EngineError Unit :=
  match e.journal with
  | none => (e, .error .appendOnlyDisabled)
  | some journal =>
    match journal.finishCompaction e.disk s with
    | (disk, journal, .ok ()) => ({ e with disk, journal := some journal }, .ok ())
    | (disk, journal, .error error) =>
      ({ e with disk, journal := some journal }, .error (.journal error))

/-- Compacts the log to the present dataset. -/
def compactLog (e : Engine) : Engine × Except EngineError Unit :=
  match e.beginCompaction with
  | .error error => (e, .error error)
  | .ok (e, s) => e.finishCompaction s

/-- Writes the present dataset to the snapshot file, and returns how many
keys were saved. -/
def saveSnapshot (e : Engine) : Engine × Except EngineError Nat :=
  match e.disk.replace (Bytes.ofString e.config.snapshotPath) e.encodeSnapshot with
  | (disk, .ok ()) => ({ e with disk }, .ok e.keyspace.snapshot.keyCount)
  | (disk, .error error) => ({ e with disk }, .error (.disk error))

/-! ## §6. The passing of time. -/

/-- The engine at another clock reading. -/
def atTime (e : Engine) (now : Millis) : Engine :=
  { e with keyspace := e.keyspace.atTime now }

/-- Removes all expired keys; returns how many there were. -/
def sweep (e : Engine) : Engine × Nat := e.onKeyspace Keyspace.sweep

/-- How many periodic tasks an engine has: the sweep, and the flush of the
log if one is kept. -/
def taskCount (e : Engine) : Nat := if e.journal.isSome then 2 else 1

/-- Closes the engine; what the log has collected is written out. -/
def close (e : Engine) : Disk := e.flushLog.disk

end Engine

end DurableStore
