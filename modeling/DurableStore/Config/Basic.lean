/-
  DurableStore.Config.Basic
  ────────────────────────────────
  **CONFIGURATION.**

  A configuration is a record of settings with defaults.  It is changed by
  DIRECTIVES, each a name and a value in text; names are read in any case.
  Sizes of memory may carry a unit: `k`, `m` and `g` are powers of 1000,
  `kb`, `mb` and `gb` powers of 1024.
-/
import DurableStore.Bytes.Decimal
import DurableStore.Keyspace.Policy
import DurableStore.Text.Blank

namespace DurableStore

/-! ## §1. The record. -/

/-- The settings of an engine. -/
structure Config where
  /-- The number of databases. -/
  databases : Nat
  /-- The memory ceiling in bytes; zero means that there is none. -/
  maxMemory : Nat
  policy : EvictionPolicy
  /-- Where the files are. -/
  directory : String
  /-- Whether a log is kept. -/
  appendOnly : Bool
  logName : String
  snapshotName : String
  /-- How many bytes of the replication stream are kept. -/
  backlogSize : Nat
  /-- Milliseconds between two flushes of the log. -/
  flushInterval : Nat
  /-- Milliseconds between two sweeps for expired keys. -/
  sweepInterval : Nat
  /-- Whether strings in snapshots are compressed. -/
  compression : Bool
  deriving DecidableEq, Repr

namespace Config

/-- The settings without any directive. -/
def default : Config where
  databases := 16
  maxMemory := 0
  policy := .noEviction
  directory := "."
  appendOnly := false
  logName := "appendonly.aof"
  snapshotName := "dump.rdb"
  backlogSize := 1024 * 1024
  flushInterval := 1000
  sweepInterval := 100
  compression := true

instance : Inhabited Config := ⟨default⟩

/-! ## §2. Paths. -/

/-- The path of a name in a directory.  An absolute name stands for itself,
and a separator is put in between only where one is missing. -/
def joinPath (directory name : String) : String :=
  if name.toList.head? = some '/' then name
  else
    match directory.toList.getLast? with
    | none => name
    | some '/' => directory ++ name
    | some _ => directory ++ "/" ++ name

/-- The path of the log. -/
def logPath (c : Config) : String := joinPath c.directory c.logName

/-- The path of the snapshot. -/
def snapshotPath (c : Config) : String := joinPath c.directory c.snapshotName

/-! ## §3. Values. -/

/-- An unsigned 64-bit number. -/
def number? (value : String) : Option Nat := Bytes.toNat? Bytes.u64Bound (Bytes.ofString value)

/-- An unsigned 64-bit number that is not zero. -/
def positive? (value : String) : Option Nat :=
  match number? value with
  | some 0 => none
  | result => result

/-- The factor of a unit of memory. -/
def unitFactor? (unit : List Char) : Option Nat :=
  match String.ofList unit with
  | "" => some 1
  | "b" => some 1
  | "k" => some 1000
  | "kb" => some 1024
  | "m" => some (1000 * 1000)
  | "mb" => some (1024 * 1024)
  | "g" => some (1000 * 1000 * 1000)
  | "gb" => some (1024 * 1024 * 1024)
  | _ => none

/-- A size of memory: digits and a unit. -/
def memory? (value : String) : Option Nat :=
  let cs := Text.lower (Text.trim value.toList)
  let digits := cs.takeWhile Char.isDigit
  match unitFactor? (cs.dropWhile Char.isDigit), number? (String.ofList digits) with
  | some factor, some n => if n * factor < Bytes.u64Bound then some (n * factor) else none
  | _, _ => none

/-- A size of memory that is not zero. -/
def positiveMemory? (value : String) : Option Nat :=
  match memory? value with
  | some 0 => none
  | result => result

/-- A yes or a no. -/
def switch? (value : String) : Option Bool :=
  match String.ofList (Text.lower value.toList) with
  | "yes" | "true" | "1" => some true
  | "no" | "false" | "0" => some false
  | _ => none

/-! ## §4. Directives. -/

/-- Why a configuration is refused. -/
inductive Error where
  | invalidFlag (argument : String)
  | missingValue (name : String)
  | unknownDirective (name : String)
  | invalidValue (name value : String)
  | unreadableFile (path reason : String)
  deriving DecidableEq, Repr

/-- The wording of an error. -/
def Error.message : Error → String
  | .invalidFlag argument => s!"Invalid command line flag: {argument}"
  | .missingValue name => s!"Missing value for '{name}'"
  | .unknownDirective name => s!"Unknown configuration directive '{name}'"
  | .invalidValue name value => s!"Invalid value '{value}' for '{name}'"
  | .unreadableFile path reason => s!"Failed to read config file {path}: {reason}"

/-- What a directive sets. -/
inductive Directive where
  | databases
  | maxMemory
  | policy
  | directory
  | appendOnly
  | logName
  | snapshotName
  | backlogSize
  | flushInterval
  | sweepInterval
  | compression
  deriving DecidableEq, Repr

/-- The names of the directives. -/
def Directive.names : List (String × Directive) :=
  [("databases", .databases), ("maxmemory", .maxMemory), ("maxmemory-policy", .policy),
    ("dir", .directory), ("appendonly", .appendOnly), ("appendfilename", .logName),
    ("dbfilename", .snapshotName), ("repl-backlog-size", .backlogSize),
    ("appendfsync-interval-ms", .flushInterval),
    ("active-expire-interval-ms", .sweepInterval), ("rdbcompression", .compression)]

/-- The directive of a name in any case. -/
def Directive.ofName? (name : String) : Option Directive :=
  (Directive.names.find? fun p => p.1.toList = Text.lower name.toList).map Prod.snd

/-- The configuration with one setting changed, if the value is one. -/
def set? (c : Config) (value : String) : Directive → Option Config
  | .databases => (positive? value).map fun databases => { c with databases }
  | .maxMemory => (memory? value).map fun maxMemory => { c with maxMemory }
  | .policy => (EvictionPolicy.ofName? value).map fun policy => { c with policy }
  | .directory => some { c with directory := value }
  | .appendOnly => (switch? value).map fun appendOnly => { c with appendOnly }
  | .logName => some { c with logName := value }
  | .snapshotName => some { c with snapshotName := value }
  | .backlogSize => (positiveMemory? value).map fun backlogSize => { c with backlogSize }
  | .flushInterval => (positive? value).map fun flushInterval => { c with flushInterval }
  | .sweepInterval => (positive? value).map fun sweepInterval => { c with sweepInterval }
  | .compression => (switch? value).map fun compression => { c with compression }

/-- Applies one directive. -/
def apply (c : Config) (name value : String) : Except Error Config :=
  match Directive.ofName? name with
  | none => .error (.unknownDirective name)
  | some directive =>
    match c.set? value directive with
    | some c => .ok c
    | none => .error (.invalidValue name value)

/-- No directive leaves a configuration without a database. -/
theorem databases_pos_of_apply {c c' : Config} {name value : String} (hpos : 0 < c.databases)
    (h : c.apply name value = .ok c') : 0 < c'.databases := by
  unfold apply at h
  split at h
  · cases h
  rename_i directive _
  split at h
  · rename_i hset
    cases h
    unfold set? at hset
    cases directive with
    | databases =>
      obtain ⟨n, hn, rfl⟩ := Option.map_eq_some_iff.1 hset
      unfold positive? at hn
      split at hn
      · cases hn
      · rename_i hne
        exact Nat.pos_of_ne_zero fun hzero => hne (hzero ▸ hn)
    | directory | logName | snapshotName =>
      cases hset
      exact hpos
    | maxMemory | policy | appendOnly | backlogSize | flushInterval | sweepInterval | compression =>
      obtain ⟨-, -, rfl⟩ := Option.map_eq_some_iff.1 hset
      exact hpos
  · cases h

end Config

end DurableStore
