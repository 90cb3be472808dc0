/-
  DurableStore.Main
  ────────────────────────────────
  **THE PROGRAM.**

  Opens an engine on the files that the command line names, tends it until
  the end of the standard input, and closes it.

  The engine works on a disk that is a value.  So the files are read into
  one before the engine is opened, and whatever a step changed on it is
  written back after the step.
-/
import Std.Time.DateTime.Timestamp
import DurableStore.Config.Sources
import DurableStore.Engine.Opening

namespace DurableStore.Program

/-! ## §1. The world outside. -/

/-- The clock reading. -/
def clock : IO Millis := do
  let now ← Std.Time.Timestamp.now
  return UInt64.ofNat now.toMillisecondsSinceUnixEpoch.val.toNat

/-- A new name for a history. -/
def drawHistory : IO String := do
  let draws ← (List.range historyLength).mapM fun _ => IO.rand 0 (historyAlphabet.length - 1)
  return historyName draws

/-- Puts on a disk what stands at a path: a file, or else nothing if nothing
stands there, or else a directory. -/
def fetch (d : Disk) (path : String) : IO Disk := do
  match ← (IO.FS.readBinFile path).toBaseIO with
  | .ok content =>
    match d.write (Bytes.ofString path) content.toList with
    | .ok d => return d
    | .error _ => return d
  | .error (.noFileOrDirectory ..) => return d
  | .error _ => return d.withDirectory (Bytes.ofString path)

/-- A path, after the paths of the directories on the way to it. -/
def wayTo (path : String) : List String :=
  let parts := path.splitOn "/"
  (List.range' 1 parts.length).map fun n => "/".intercalate (parts.take n)

/-- Writes a file back if its bytes are not what they were. -/
def store (old new : Disk) (path : String) : IO Unit := do
  let name := Bytes.ofString path
  match new.bytes? name with
  | none => return
  | some bytes =>
    if old.bytes? name = some bytes then return
    let prepared := Bytes.text (Path.temporary name)
    IO.FS.writeBinFile prepared (ByteArray.mk bytes.toArray)
    IO.FS.rename prepared path

/-- The paths of an engine's files. -/
def paths (config : Config) : List String := [config.logPath, config.snapshotPath]

/-- Writes back what changed on a disk. -/
def storeAll (config : Config) (old new : Disk) : IO Unit :=
  (paths config).forM (store old new)

/-- Reads the configuration file, if the command line may name one. -/
def readSource (args : List String) : IO (String → Except String String) := do
  match args with
  | [] => return fun _ => .error "no such file"
  | path :: _ =>
    match ← (IO.FS.readFile path).toBaseIO with
    | .ok text => return fun _ => .ok text
    | .error reason => return fun _ => .error (toString reason)

/-! ## §2. Tending an engine. -/

/-- When the periodic tasks are due, in milliseconds of a steady clock. -/
structure Due where
  sweep : Nat
  flush : Nat

/-- When the periodic tasks are due for the first time. -/
def Due.first (config : Config) (steady : Nat) : Due :=
  ⟨steady + config.sweepInterval, steady + config.flushInterval⟩

/-- Does what is due. -/
def tend (e : Engine) (now : Millis) (steady : Nat) (due : Due) : Engine × Due :=
  let e := e.atTime now
  let (e, due) :=
    if due.sweep ≤ steady then
      (e.sweep.1, { due with sweep := steady + e.config.sweepInterval })
    else (e, due)
  if due.flush ≤ steady then
    (e.flushLog, { due with flush := steady + e.config.flushInterval })
  else (e, due)

/-- Tends an engine until a task has finished. -/
partial def serve {α : Type} (e : Engine) (due : Due) (last : Task α) : IO Engine := do
  if ← IO.hasFinished last then return e
  IO.sleep 10
  let (next, due) := tend e (← clock) (← IO.monoMsNow) due
  storeAll e.config e.disk next.disk
  serve next due last

/-- Reads the standard input to its end. -/
partial def awaitEnd (input : IO.FS.Stream) : IO Unit := do
  let line ← input.getLine
  if line.isEmpty then return
  awaitEnd input

/-! ## §3. A run. -/

/-- Reports a failure and what caused it; returns the exit code. -/
def complain (failure cause : String) : IO UInt32 := do
  IO.eprintln s!"Error: {failure}\n\nCaused by:\n    {cause}"
  return 1

/-- Runs an engine with a configuration. -/
def run (config : Config) : IO UInt32 := do
  IO.println s!"starting engine dir={config.directory}"
  let disk ← ((paths config).flatMap wayTo).foldlM fetch Disk.empty
  match Engine.open? config disk (← clock) (← drawHistory) none with
  | .error failure =>
    storeAll config disk failure.disk
    complain "failed to load dataset" failure.error.message
  | .ok engine =>
    storeAll config disk engine.disk
    let last ← IO.asTask (awaitEnd (← IO.getStdin))
    let engine ← serve engine (Due.first config (← IO.monoMsNow)) last
    IO.println "shutting down"
    storeAll config engine.disk engine.close
    IO.println "engine shut down"
    return 0

end DurableStore.Program

/-- Runs the program. -/
def main (args : List String) : IO UInt32 := do
  let readSource ← DurableStore.Program.readSource args
  match DurableStore.Config.ofArgs readSource args with
  | .error error => DurableStore.Program.complain "invalid configuration" error.message
  | .ok config => DurableStore.Program.run config
