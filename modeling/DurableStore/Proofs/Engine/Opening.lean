/-
  DurableStore.Proofs.Engine.Opening
  ────────────────────────────────
  **WHAT AN OPENED ENGINE HOLDS.**

  Where there is a log, an engine that keeps one opens: it holds what the
  replay of the log leaves in an empty keyspace, and its own log goes on
  where the complete commands of the old one end (`open?_of_log`).  Where
  there is neither a log nor a snapshot file, it holds nothing and its log
  is empty (`open?_of_nothing`).
-/
import DurableStore.Engine.Opening
import DurableStore.Proofs.Journal.Content

namespace DurableStore

/-! ## §1. Cutting a log. -/

/-- **Cutting a file** changes that file only. -/
theorem Disk.truncate_spec {d : Disk} {path : Path} {l : Location} {id : Nat} {bytes : Bytes}
    (h : d.Holds path l id bytes) (n : Nat) :
    ∃ d', d.truncate path n = .ok d' ∧ ChangesAt d d' l ∧ d'.Holds path l id (bytes.take n) := by
  have hchange : ChangesAt d (d.place l (.file id (bytes.take n))) l :=
    changesAt_place h.ne_nil h.node
  refine ⟨_, ?_, hchange, place?_of_same hchange.same h.place, node?_place_self h.ne_nil⟩
  unfold truncate
  rw [place?_eq_ok_iff.1 h.place]
  dsimp only [bind, Except.bind]
  unfold present
  rw [h.node]
  rfl

/-- The part of a log that holds complete commands. -/
def Replay.intact (bytes : Bytes) : Bytes :=
  if (ofBytes bytes).truncated then bytes.take (ofBytes bytes).validLength else bytes

namespace Loaded

/-- A log is cut at the end of its complete commands. -/
theorem repair_spec {d : Disk} {path : Path} {l : Location} {id : Nat} {bytes : Bytes}
    (h : d.Holds path l id bytes) :
    ∃ d', repair d path (Replay.ofBytes bytes) = .ok d' ∧ (d.WellFormed → d'.WellFormed)
      ∧ d'.Holds path l id (Replay.intact bytes) := by
  unfold repair Replay.intact
  split
  · obtain ⟨d', htruncate, hchange, hholds⟩ :=
      Disk.truncate_spec h (Replay.ofBytes bytes).validLength
    exact ⟨d', htruncate, hchange.wellFormed, hholds⟩
  · exact ⟨d, rfl, fun hwf => hwf, h⟩

/-! ## §2. Loading. -/

/-- The session that has replayed the bytes of a log. -/
def replayed (config : Config) (now : Millis) (fallback : Option Fallback) (bytes : Bytes) :
    Session :=
  ((Session.start (emptyKeyspace config now) fallback).applyAll (Replay.ofBytes bytes).commands).1

variable {config : Config} {d : Disk}

/-- What is loaded where there is a log. -/
theorem load_of_log {l : Location} {id : Nat} {bytes : Bytes} (happend : config.appendOnly = true)
    (h : d.Holds (logPath config) l id bytes) (now : Millis) (fallback : Option Fallback) :
    ∃ loaded, Loaded.load config d now fallback = .ok loaded
      ∧ loaded.keyspace = (replayed config now fallback bytes).keyspace
      ∧ (∀ keys, loaded.report.source ≠ .snapshot keys)
      ∧ (d.WellFormed → loaded.disk.WellFormed)
      ∧ loaded.disk.Holds (logPath config) l id (Replay.intact bytes) := by
  have hreplay : d.replay (logPath config) = .ok (Replay.ofBytes bytes) := by
    unfold Disk.replay
    rw [Disk.read_of_holds h]
    rfl
  have hchoice : (config.appendOnly && d.exists? (logPath config)) = true := by
    rw [happend, Disk.exists?_of_holds h]
    rfl
  obtain ⟨d', hrepair, hwf, hholds⟩ := repair_spec h
  unfold load
  rw [if_pos hchoice]
  unfold ofLog
  rw [hreplay]
  dsimp only
  rw [hrepair]
  exact ⟨_, rfl, rfl, (fun _ heq => nomatch heq), hwf, hholds⟩

/-- Where there is no snapshot file, nothing is loaded from it. -/
theorem ofSnapshot_of_none (h : d.read (snapshotPath config) = .ok none) (now : Millis) :
    ofSnapshot config d now = .ok ⟨emptyKeyspace config now, d, ⟨.empty, []⟩⟩ := by
  unfold ofSnapshot
  rw [h]

/-- **How a snapshot file is loaded**: there is none, or it is decoded and restored. -/
theorem ofSnapshot_cases {now : Millis} {loaded : Loaded}
    (h : ofSnapshot config d now = .ok loaded) :
    (d.read (snapshotPath config) = .ok none
        ∧ loaded = ⟨emptyKeyspace config now, d, ⟨.empty, []⟩⟩)
      ∨ ∃ bytes s ks, d.read (snapshotPath config) = .ok (some bytes)
        ∧ Snapshot.decode config.databases now bytes = .ok s
        ∧ (emptyKeyspace config now).restore s = .ok ks
        ∧ loaded = ⟨ks, d, ⟨.snapshot s.keyCount, []⟩⟩ := by
  unfold ofSnapshot at h
  dsimp only at h
  split at h
  · cases h
  · rename_i hread
    cases h
    exact .inl ⟨hread, rfl⟩
  · rename_i bytes hread
    split at h
    · cases h
    · rename_i s hdecode
      split at h
      · cases h
      · rename_i ks hrestore
        cases h
        exact .inr ⟨bytes, s, ks, hread, hdecode, hrestore, rfl⟩

/-- What is loaded where there is nothing. -/
theorem load_of_nothing (hlog : d.exists? (logPath config) = false)
    (hsnapshot : d.read (snapshotPath config) = .ok none) (now : Millis)
    (fallback : Option Fallback) :
    load config d now fallback = .ok ⟨emptyKeyspace config now, d, ⟨.empty, []⟩⟩ := by
  unfold load
  rw [hlog, Bool.and_false, if_neg (by decide)]
  exact ofSnapshot_of_none hsnapshot now

/-- A log that is opened is not written anew, unless the data came from a
snapshot file. -/
theorem openJournal_eq {loaded : Loaded} (happend : config.appendOnly = true)
    (hsource : ∀ keys, loaded.report.source ≠ .snapshot keys) :
    openJournal config loaded
      = match Journal.open? loaded.disk (logPath config) with
        | .error error => .error ⟨.journal (.disk error), loaded.disk⟩
        | .ok (d, journal) => .ok (d, some journal) := by
  have hseed : ∀ d journal, loaded.seed d journal = .ok (d, journal) := by
    intro d journal
    unfold seed
    split
    · rename_i keys heq
      exact absurd heq (hsource keys)
    · rfl
  unfold openJournal
  rw [if_pos happend]
  cases Journal.open? loaded.disk (logPath config) with
  | error error => rfl
  | ok opened =>
    obtain ⟨disk, journal⟩ := opened
    dsimp only [bind, Except.bind]
    rw [hseed]
    rfl

/-- A log that is kept was opened, and then written from what was loaded if it was new. -/
theorem opened_of_openJournal {loaded : Loaded} (happend : config.appendOnly = true) {disk : Disk}
    {journal : Option Journal} (h : openJournal config loaded = .ok (disk, journal)) :
    ∃ d j j', Journal.open? loaded.disk (logPath config) = .ok (d, j)
      ∧ loaded.seed d j = .ok (disk, j') ∧ journal = some j' := by
  unfold openJournal at h
  rw [if_pos happend] at h
  split at h
  · cases h
  · rename_i d j hopen
    obtain ⟨⟨disk', j'⟩, hseed, h⟩ := exists_of_bind h
    cases h
    exact ⟨d, j, j', hopen, hseed, rfl⟩

end Loaded

/-! ## §3. Opening. -/

/-- What an engine that keeps a log is when it has just been opened. -/
structure Engine.Fresh (e : Engine) (config : Config) (ks : Keyspace) (content : Bytes) : Prop where
  journal : ∃ j, e.journal = some j ∧ j.path = Loaded.logPath config ∧ j.selected = none
    ∧ j.phase = .idle ∧ j.Carries e.disk content
  keyspace : e.keyspace = ks.withListener
  config_eq : e.config = config

namespace Engine

open Loaded

variable {config : Config} {d : Disk} {now : Millis}

/-- **What an engine is when it has just been opened.** -/
theorem opened_of_open? {history : String} {fallback : Option Fallback} {e : Engine}
    (h : Engine.open? config d now history fallback = .ok e) :
    ∃ loaded, Loaded.load config d now fallback = .ok loaded
      ∧ e.keyspace = loaded.keyspace.withListener ∧ e.load = loaded.report
      ∧ e.backlog = Backlog.new config.backlogSize ∧ e.followers = Followers.none
      ∧ e.streamDatabase = none ∧ e.history = history
      ∧ Loaded.openJournal config loaded = .ok (e.disk, e.journal) := by
  unfold Engine.open? at h
  obtain ⟨loaded, hload, h⟩ := exists_of_bind h
  obtain ⟨⟨disk, journal⟩, hjournal, h⟩ := exists_of_bind h
  cases h
  exact ⟨loaded, hload, rfl, rfl, rfl, rfl, rfl, rfl, hjournal⟩

/-- Closing an engine that keeps a log closes the log. -/
theorem close_eq {e : Engine} {j : Journal} (h : e.journal = some j) :
    e.close = j.close e.disk := by
  unfold Engine.close Engine.flushLog Engine.withJournal
  rw [h]
  rfl

/-- **An engine opens with what the log replays.** -/
theorem open?_of_log {l : Location} {id : Nat} {bytes : Bytes} (happend : config.appendOnly = true)
    (h : d.Holds (logPath config) l id bytes) (now : Millis) (history : String)
    (fallback : Option Fallback) :
    ∃ e, Engine.open? config d now history fallback = .ok e
      ∧ e.keyspace = (replayed config now fallback bytes).keyspace.withListener
      ∧ (d.WellFormed →
        e.Fresh config (replayed config now fallback bytes).keyspace (Replay.intact bytes)) := by
  obtain ⟨loaded, hload, hkeyspace, hsource, hwf, hholds⟩ := load_of_log happend h now fallback
  have hopen : Journal.open? loaded.disk (logPath config)
      = .ok (loaded.disk, ⟨logPath config, Writer.ofHandle ⟨id⟩, none, .idle, []⟩) := by
    unfold Journal.open?
    rw [Disk.openAppend_of_holds hholds]
    rfl
  have hjournal := openJournal_eq happend hsource
  rw [hopen] at hjournal
  have hlistened := congrArg Keyspace.withListener hkeyspace
  unfold Engine.open?
  rw [hload]
  dsimp only [bind, Except.bind]
  rw [hjournal]
  refine ⟨_, rfl, hlistened, ?_⟩
  intro hwf'
  have hcarries :
      (Writer.ofHandle ⟨id⟩).Carries loaded.disk (logPath config) (Replay.intact bytes) :=
    Writer.carries_of_holds (hwf hwf') hholds
  exact ⟨⟨_, rfl, rfl, rfl, rfl, hcarries⟩, hlistened, rfl⟩

/-- **An engine opens with nothing where there is nothing.** -/
theorem open?_of_nothing {history : String} {fallback : Option Fallback} {e : Engine}
    (happend : config.appendOnly = true)
    (hwf : d.WellFormed) (hlog : d.exists? (logPath config) = false)
    (hsnapshot : d.read (snapshotPath config) = .ok none)
    (h : Engine.open? config d now history fallback = .ok e) :
    e.Fresh config (emptyKeyspace config now) [] := by
  have habsent : d.bytes? (logPath config) = none := by
    unfold Disk.exists? at hlog
    unfold Disk.bytes?
    split at hlog
    · cases hlog
    · rename_i error herror
      rw [herror]
  have hsource : ∀ keys, LoadSource.empty ≠ .snapshot keys := fun _ heq => nomatch heq
  unfold Engine.open? at h
  rw [load_of_nothing hlog hsnapshot] at h
  dsimp only [bind, Except.bind] at h
  rw [openJournal_eq happend hsource] at h
  dsimp only at h
  cases hopen : Journal.open? d (logPath config) with
  | error error =>
    rw [hopen] at h
    cases h
  | ok opened =>
    obtain ⟨disk, journal⟩ := opened
    -- the log is new, and there is no snapshot to write it from
    obtain ⟨hcarries, hpath, hselected, hphase⟩ := Journal.open?_absent hwf habsent hopen
    rw [hopen] at h
    cases h
    exact ⟨⟨journal, rfl, hpath, hselected, hphase, hcarries⟩, rfl, rfl⟩

end Engine

/-! ## §4. Small disks, and a write. -/

/-- One database and a log. -/
def smallConfig :
    Config := { Config.default with databases := 1, appendOnly := true, backlogSize := 1 }

/-- One database, a log, and a ceiling that is always exceeded. -/
def tightConfig : Config := { smallConfig with maxMemory := 1, policy := .allKeysLru }

/-- A disk with a log of some commands, under the usual name. -/
def Disk.ofLog (commands : List Command) : Disk :=
  ⟨[([Bytes.ofString "appendonly.aof"], .file 0 (commands.flatMap Wire.encode))], 1⟩

/-- The engine that opens on an empty disk. -/
def Engine.blank (config : Config) (now : Millis) : Engine where
  config
  keyspace := (Loaded.emptyKeyspace config now).withListener
  disk := Disk.ofLog []
  journal := some ⟨Loaded.logPath config, Writer.ofHandle ⟨0⟩, none, .idle, []⟩
  backlog := Backlog.new config.backlogSize
  followers := Followers.none
  streamDatabase := none
  history := ""
  load := ⟨.empty, []⟩

theorem open?_smallConfig :
    Engine.open? smallConfig Disk.empty 50 "" none = .ok (Engine.blank smallConfig 50) := rfl

theorem open?_tightConfig :
    Engine.open? tightConfig Disk.empty 50 "" none = .ok (Engine.blank tightConfig 50) := rfl

/-- A write of a string under the key `k`. -/
def writeOf (value : String) : Command :=
  [Bytes.ofString "SET", Bytes.ofString "k", Bytes.ofString value]

theorem not_selects_writeOf (value : String) : ¬ (writeOf value).Selects := by
  show ¬ Command.Verb.ofName? (Bytes.ofString "SET") = some .select
  decide +kernel

theorem fits_writeOf {value : String} (h : (Bytes.ofString value).length < lengthBound) :
    Wire.Fits (writeOf value) :=
  Wire.fits_of_short (by decide) (Nat.le_succ 2)
    (List.forall_mem_cons.2 ⟨by decide, List.forall_mem_singleton.2 h⟩)

end DurableStore
