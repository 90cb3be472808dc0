/-
  DurableStore.Engine.Opening
  ────────────────────────────────
  **OPENING AN ENGINE.**

  An engine that keeps a log and finds one replays it; what is left over at
  its end is cut off, so that new records follow complete ones.  Otherwise
  the snapshot file is loaded, if there is one; and if a log is to be kept,
  it is then written anew from the loaded data.

  Opening is a sequence of effects on the disk, and each may be obstructed
  after the ones before took place.  So a failure returns the disk as it was
  left.
-/
import DurableStore.Engine.Basic

namespace DurableStore

/-- An opening that failed, and the disk that it left behind. -/
structure OpenFailure where
  error : EngineError
  disk : Disk

/-- A dataset that was loaded. -/
structure Loaded where
  keyspace : Keyspace
  disk : Disk
  report : LoadReport

namespace Loaded

/-- The path of the log. -/
def logPath (config : Config) : Path := Bytes.ofString config.logPath

/-- The path of the snapshot file. -/
def snapshotPath (config : Config) : Path := Bytes.ofString config.snapshotPath

/-- The keyspace into which a dataset is loaded. -/
def emptyKeyspace (config : Config) (now : Millis) : Keyspace :=
  ((Keyspace.new config.databases now).withMaxMemory config.maxMemory).withPolicy config.policy

/-- Whether a command was refused. -/
def isRefused : Except CommandError Unit → Bool
  | .ok () => false
  | .error _ => true

/-- Cuts off what follows the complete commands of a log. -/
def repair (d : Disk) (path : Path) (replay : Replay) : Except DiskError Disk :=
  if replay.truncated then d.truncate path replay.validLength else .ok d

/-- Replays a log, passing over the commands that are refused. -/
def ofLog (config : Config) (d : Disk) (now : Millis) (fallback : Option Fallback) :
    Except OpenFailure Loaded :=
  match d.replay (logPath config) with
  | .error error => .error ⟨.journal (.disk error), d⟩
  | .ok replay =>
    let (s, verdicts) :=
      (Session.start (emptyKeyspace config now) fallback).applyAll replay.commands
    match repair d (logPath config) replay with
    | .error error => .error ⟨.disk error, d⟩
    | .ok d =>
      let skipped := verdicts.countP isRefused
      let source := .log (replay.commands.length - skipped) skipped replay.truncated
      .ok ⟨s.keyspace, d, ⟨source, s.deferred⟩⟩

/-- Loads a snapshot file, if there is one. -/
def ofSnapshot (config : Config) (d : Disk) (now : Millis) : Except OpenFailure Loaded :=
  let ks := emptyKeyspace config now
  match d.read (snapshotPath config) with
  | .error error => .error ⟨.disk error, d⟩
  | .ok none => .ok ⟨ks, d, ⟨.empty, []⟩⟩
  | .ok (some bytes) =>
    match Snapshot.decode config.databases now bytes with
    | .error fault => .error ⟨.snapshot fault, d⟩
    | .ok s =>
      match ks.restore s with
      | .error error => .error ⟨.keyspace error, d⟩
      | .ok ks => .ok ⟨ks, d, ⟨.snapshot s.keyCount, []⟩⟩

/-- Loads the dataset: from the log if one is kept and present, else from the
snapshot file. -/
def load (config : Config) (d : Disk) (now : Millis) (fallback : Option Fallback) :
    Except OpenFailure Loaded :=
  if config.appendOnly && d.exists? (logPath config) then ofLog config d now fallback
  else ofSnapshot config d now

/-- Writes a new log from data that came from a snapshot file. -/
def seed (loaded : Loaded) (d : Disk) (journal : Journal) :
    Except OpenFailure (Disk × Journal) :=
  match loaded.report.source with
  | .snapshot _ =>
    match journal.compact d loaded.keyspace.snapshot with
    | (d, journal, .ok ()) => .ok (d, journal)
    | (d, journal, .error error) => .error ⟨.journal error, journal.close d⟩
  | _ => .ok (d, journal)

/-- Opens the log, if one is to be kept. -/
def openJournal (config : Config) (loaded : Loaded) :
    Except OpenFailure (Disk × Option Journal) :=
  if config.appendOnly then
    match Journal.open? loaded.disk (logPath config) with
    | .error error => .error ⟨.journal (.disk error), loaded.disk⟩
    | .ok (d, journal) => do
      let (d, journal) ← loaded.seed d journal
      return (d, some journal)
  else .ok (loaded.disk, none)

end Loaded

/-- Opens an engine on a disk at a clock reading.  `history` names the
history that its followers will follow. -/
def Engine.open? (config : Config) (d : Disk) (now : Millis) (history : String)
    (fallback : Option Fallback) : Except OpenFailure Engine := do
  let loaded ← Loaded.load config d now fallback
  let (disk, journal) ← Loaded.openJournal config loaded
  return {
    config
    keyspace := loaded.keyspace.withListener
    disk
    journal
    backlog := Backlog.new config.backlogSize
    followers := Followers.none
    streamDatabase := none
    history
    load := loaded.report }

end DurableStore
