/-
  DurableStore.Proofs.Engine.Saving
  ────────────────────────────────
  **THE LAST GOOD SNAPSHOT.**

  An engine that keeps no log has only its snapshot file to come back from.
  Between two openings it is written to, it evicts what its ceiling and
  policy say, its clock moves, and it is saved; directories get in the way
  of a save and go again.  What the next opening loads was decided by the
  last save that succeeded, and by the clock of the opening:

      r.saved      — the keyspace at that save
      r.lastSaved  — what it held then
      r.Step r'    — one thing that can happen
      r.Guarded    — the snapshot file is the one of that keyspace

  A save of the same file is a replacement (`Disk.Guards`), so the run lemma
  is an induction over steps that leave the file alone or replace it.

  Main result:
    * `reopen_loads_last_save` — any run, any time of the next opening.
-/
import DurableStore.Config.Sources
import DurableStore.Proofs.Command.Operation
import DurableStore.Proofs.Engine.Reopening
import DurableStore.Proofs.Engine.Writes
import DurableStore.Proofs.Snapshot.Restore
import DurableStore.Proofs.Storage.Replacement

namespace DurableStore

open Loaded

/-! ## §1. An engine without a log. -/

namespace Engine

variable {e e' : Engine}

/-- Nothing changes but the keyspace and the stream, and there are as many databases. -/
structure Spares (e e' : Engine) : Prop where
  journal : e'.journal = none
  config : e'.config = e.config
  disk : e'.disk = e.disk
  count : e'.keyspace.count = e.keyspace.count

theorem Spares.trans {e'' : Engine} (h : e.Spares e') (h' : e'.Spares e'') : e.Spares e'' where
  journal := h'.journal
  config := h'.config.trans h.config
  disk := h'.disk.trans h.disk
  count := h'.count.trans h.count

theorem appendLog_of_none (h : e.journal = none) (database : Nat) (record : Bytes) :
    e.appendLog database record = e := by
  unfold appendLog withJournal
  rw [h]

theorem foldl_logNotice_of_none (h : e.journal = none) (notices : List Notice) :
    notices.foldl logNotice e = e := by
  induction notices with
  | nil => rfl
  | cons notice notices ih =>
    have hone : e.logNotice notice = e := by
      unfold logNotice
      split
      · exact appendLog_of_none h _ _
      · rfl
    rw [List.foldl_cons, hone, ih]

/-- **A change of the keyspace**, whatever it evicts. -/
theorem spares_onKeyspace {α : Type} (h : e.journal = none) {use : Keyspace → Keyspace × α}
    (hoperates : e.keyspace.Operates (use e.keyspace).1) : e.Spares (e.onKeyspace use).1 := by
  have hlogged := foldl_logNotice_of_none
    (e := { e with keyspace := (use e.keyspace).1.takeNotices.2 }) h (use e.keyspace).1.notices
  have hsame : (e.onKeyspace use).1 = { e with keyspace := (use e.keyspace).1.takeNotices.2 } :=
    hlogged
  rw [hsame]
  exact ⟨h, rfl, rfl, hoperates.count⟩

/-- **A write that is propagated.** -/
theorem spares_propagate (h : e.journal = none) (database : Nat) (record : Bytes) :
    e.Spares (e.propagate database record) := by
  obtain ⟨hkeyspace, hjournal, hdisk, hconfig⟩ := e.selectStream_keeps database
  unfold propagate
  rw [appendLog_of_none (hjournal.trans h)]
  exact ⟨hjournal.trans h, hconfig, hdisk, congrArg Keyspace.count hkeyspace⟩

theorem spares_write {α : Type} (h : e.journal = none) {mutation : Keyspace → Keyspace × α}
    (hoperates : e.keyspace.Operates (mutation e.keyspace).1) (database : Nat) (record : Bytes) :
    e.Spares (e.write database mutation record).1 := by
  have hchanged := spares_onKeyspace h hoperates
  exact hchanged.trans (spares_propagate hchanged.journal database record)

theorem spares_tryWrite {ε α : Type} (h : e.journal = none) {mutation : Mutation ε α}
    (hoperates : e.keyspace.Operates (mutation e.keyspace).1) (database : Nat) (record : Bytes) :
    e.Spares (e.tryWrite database mutation record).1 := by
  have hchanged := spares_onKeyspace h hoperates
  unfold tryWrite
  dsimp only
  split
  · exact hchanged.trans (spares_propagate hchanged.journal database record)
  · exact hchanged

/-- A save replaces the snapshot file, and changes nothing else. -/
theorem saveSnapshot_cases (e : Engine) :
    (∃ disk, e.disk.replace (snapshotPath e.config) e.encodeSnapshot = (disk, .ok ())
        ∧ e.saveSnapshot = ({ e with disk }, .ok e.keyspace.snapshot.keyCount))
      ∨ ∃ disk error, e.disk.replace (snapshotPath e.config) e.encodeSnapshot = (disk, .error error)
        ∧ e.saveSnapshot = ({ e with disk }, .error (.disk error)) := by
  unfold saveSnapshot snapshotPath
  generalize e.disk.replace (Bytes.ofString e.config.snapshotPath) e.encodeSnapshot = outcome
  obtain ⟨disk, result⟩ := outcome
  cases result with
  | ok done => exact .inl ⟨disk, rfl, rfl⟩
  | error error => exact .inr ⟨disk, error, rfl, rfl⟩

end Engine

/-! ## §2. Opening on a snapshot file. -/

namespace Engine

variable {config : Config} {d : Disk}

/-- Without a log an engine opens with what is loaded from the snapshot file. -/
theorem open?_of_ofSnapshot (hoff : config.appendOnly = false) {t : Millis} {loaded : Loaded}
    (h : ofSnapshot config d t = .ok loaded) (history : String) (fallback : Option Fallback) :
    ∃ e, Engine.open? config d t history fallback = .ok e
      ∧ e.keyspace = loaded.keyspace.withListener ∧ e.journal = none ∧ e.config = config
      ∧ e.disk = d := by
  have hnone : openJournal config loaded = .ok (loaded.disk, none) := by
    unfold openJournal
    rw [hoff, if_neg (by decide)]
  unfold Engine.open?
  rw [load_of_not_kept hoff, h]
  dsimp only [bind, Except.bind]
  rw [hnone]
  exact ⟨_, rfl, rfl, rfl, rfl, (ofSnapshot_spec h).1⟩

/-- **What is loaded from the snapshot file of a keyspace** is what is live of what the
keyspace held. -/
theorem ofSnapshot_encoded (hdatabases : 0 < config.databases) {ks : Keyspace}
    (hfits : ks.snapshot.Fits) (t : Millis) (hcount : (emptyKeyspace config t).count = ks.count)
    (hread : d.read (snapshotPath config)
      = .ok (some (Snapshot.encode config.compression ks.snapshot))) :
    ∃ loaded, ofSnapshot config d t = .ok loaded
      ∧ loaded.keyspace.contents t = (ks.contents ks.now).live t := by
  have hwidth : (emptyKeyspace config t).count = config.databases :=
    (count_emptyKeyspace config t).trans (Nat.max_eq_left hdatabases)
  obtain ⟨s, restored, hdecode, hrestore, hcontents⟩ :=
    Keyspace.restore_encoded config.compression hfits hcount
  rw [hwidth] at hdecode
  unfold ofSnapshot
  dsimp only
  rw [hread]
  dsimp only
  rw [show (emptyKeyspace config t).now = t from rfl] at hdecode hcontents
  rw [hdecode]
  dsimp only
  rw [hrestore]
  exact ⟨_, rfl, hcontents⟩

end Engine

/-! ## §3. Runs. -/

/-- An engine, and its keyspace at the last save that succeeded. -/
structure SavedEngine where
  engine : Engine
  saved : Option Keyspace

namespace SavedEngine

/-- What was held at the last save; nothing if there was none. -/
def lastSaved (s : SavedEngine) : Contents :=
  match s.saved with
  | none => Contents.none
  | some ks => ks.contents ks.now

/-- One thing that happens to an engine between two openings.  What is saved holds no score
that is not a number, and is no longer than memory allows. -/
inductive Step : SavedEngine → SavedEngine → Prop
  /-- A write that always takes place. -/
  | write {s : SavedEngine} {α : Type} {database : Nat} {record : Bytes}
      {mutation : Keyspace → Keyspace × α}
      (hoperates : s.engine.keyspace.Operates (mutation s.engine.keyspace).1) :
      Step s ⟨(s.engine.write database mutation record).1, s.saved⟩
  /-- A write that may fail. -/
  | tryWrite {s : SavedEngine} {ε α : Type} {database : Nat} {record : Bytes}
      {mutation : Mutation ε α}
      (hoperates : s.engine.keyspace.Operates (mutation s.engine.keyspace).1) :
      Step s ⟨(s.engine.tryWrite database mutation record).1, s.saved⟩
  /-- Keys are read, or a sweep takes place. -/
  | use {s : SavedEngine} {α : Type} {use : Keyspace → Keyspace × α}
      (hoperates : s.engine.keyspace.Operates (use s.engine.keyspace).1) :
      Step s ⟨(s.engine.onKeyspace use).1, s.saved⟩
  /-- A save that succeeds. -/
  | save {s : SavedEngine} {keys : Nat} (hfits : s.engine.keyspace.snapshot.Fits)
      (hresult : s.engine.saveSnapshot.2 = .ok keys) :
      Step s ⟨s.engine.saveSnapshot.1, some s.engine.keyspace⟩
  /-- A save that fails. -/
  | failSave {s : SavedEngine} {error : EngineError}
      (hresult : s.engine.saveSnapshot.2 = .error error) :
      Step s ⟨s.engine.saveSnapshot.1, s.saved⟩
  /-- A directory comes in the way of a save, or goes. -/
  | obstruct {s : SavedEngine} {disk : Disk}
      (hobstructs : s.engine.disk.Obstructs (snapshotPath s.engine.config) disk) :
      Step s ⟨{ s.engine with disk }, s.saved⟩
  /-- The clock shows another reading. -/
  | pass (s : SavedEngine) (now : Millis) : Step s ⟨s.engine.atTime now, s.saved⟩

/-- What happens in a row. -/
abbrev Runs : SavedEngine → SavedEngine → Prop := Relation.ReflTransGen Step

/-- The snapshot file is the one of the keyspace that was saved last. -/
structure Guarded (s : SavedEngine) (config : Config) (count : Nat) : Prop where
  journal : s.engine.journal = none
  config_eq : s.engine.config = config
  count_eq : s.engine.keyspace.count = count
  file : s.engine.disk.Guards (snapshotPath config)
    (s.saved.map fun ks => Snapshot.encode config.compression ks.snapshot)
  saved : ∀ ks, s.saved = some ks → ks.count = count ∧ ks.snapshot.Fits

variable {s s' : SavedEngine} {config : Config} {count : Nat}

/-- What spares the disk leaves the file as it is. -/
theorem Guarded.spares (h : s.Guarded config count) {e : Engine} (hspares : s.engine.Spares e) :
    Guarded ⟨e, s.saved⟩ config count where
  journal := hspares.journal
  config_eq := hspares.config.trans h.config_eq
  count_eq := hspares.count.trans h.count_eq
  file := by
    rw [hspares.disk]
    exact h.file
  saved := h.saved

/-- **One step** leaves the file alone, or replaces it by that of the present keyspace. -/
theorem Guarded.step (h : s.Guarded config count) (hstep : s.Step s') :
    s'.Guarded config count := by
  have hconfig := h.config_eq
  subst hconfig
  cases hstep with
  | write hoperates => exact h.spares (Engine.spares_write h.journal hoperates _ _)
  | tryWrite hoperates => exact h.spares (Engine.spares_tryWrite h.journal hoperates _ _)
  | use hoperates => exact h.spares (Engine.spares_onKeyspace h.journal hoperates)
  | save hfits hresult =>
    rcases s.engine.saveSnapshot_cases with ⟨disk, hreplace, hsave⟩ | ⟨disk, error, -, hsave⟩
    · rw [hsave]
      refine ⟨h.journal, rfl, h.count_eq, Disk.guards_replace hreplace, ?_⟩
      intro ks hks
      cases hks
      exact ⟨h.count_eq, hfits⟩
    · rw [hsave] at hresult
      cases hresult
  | failSave hresult =>
    rcases s.engine.saveSnapshot_cases with ⟨disk, -, hsave⟩ | ⟨disk, error, hreplace, hsave⟩
    · rw [hsave] at hresult
      cases hresult
    · rw [hsave]
      exact ⟨h.journal, rfl, h.count_eq, h.file.replace_error hreplace, h.saved⟩
  | obstruct hobstructs =>
    exact ⟨h.journal, rfl, h.count_eq, h.file.obstructs hobstructs, h.saved⟩
  | pass now => exact ⟨h.journal, rfl, h.count_eq, h.file, h.saved⟩

/-- **Any run**, by induction on its steps. -/
theorem Guarded.run (h : s.Guarded config count) (hruns : s.Runs s') : s'.Guarded config count := by
  induction hruns with
  | refl => exact h
  | tail _ hstep ih => exact ih.step hstep

end SavedEngine

/-! ## §4. Reopening. -/

open SavedEngine

/-- **Reopening loads the last good snapshot.**  An engine that keeps no log is opened where
there is no snapshot file.  After any run, with any ceiling and policy, whatever saves
succeeded and whatever obstructed the others, it opens again at any time — unless nothing
was saved and a directory still stands where the file should be.  In every database it
holds exactly what was held at the last save that succeeded and is live at that time;
nothing if there was none.  A configuration that was read in has a database
(`Config.databases_pos_of_ofArgs`). -/
theorem reopen_loads_last_save {config : Config} (hoff : config.appendOnly = false)
    (hdatabases : 0 < config.databases) {d : Disk} (hnone : d.read (snapshotPath config) = .ok none)
    {now : Millis} {history : String} {fallback : Option Fallback} {e : Engine}
    (hopen : Engine.open? config d now history fallback = .ok e)
    {r : SavedEngine} (hruns : Runs ⟨e, none⟩ r)
    (hremoved : r.saved = none → r.engine.disk.find (snapshotPath config) ≠ .ok .directory)
    (t : Millis) (history' : String) (fallback' : Option Fallback) :
    ∃ e', Engine.open? config r.engine.close t history' fallback' = .ok e'
      ∧ e'.keyspace.now = t ∧ e'.keyspace.count = e.keyspace.count
      ∧ e'.keyspace.contents t = r.lastSaved.live t := by
  -- the engine begins empty, and nothing is guarded
  have hstart : Guarded ⟨e, none⟩ config (max config.databases 1) := by
    obtain ⟨opened, hopened, hkeyspace, hjournal, hconfig, hdisk⟩ :=
      Engine.open?_of_ofSnapshot hoff (ofSnapshot_of_none hnone now) history fallback
    rw [hopen] at hopened
    cases hopened
    refine ⟨hjournal, hconfig, ?_, ?_, fun _ h => nomatch h⟩
    · show e.keyspace.count = _
      rw [hkeyspace]
      exact count_emptyKeyspace config now
    · show e.disk.Guards (snapshotPath config) none
      rw [hdisk]
      exact Disk.guards_of_read hnone
  -- what a run keeps: the file is the encoding of the keyspace that was saved last
  have hend := hstart.run hruns
  have hclosed : r.engine.close = r.engine.disk := by
    unfold Engine.close Engine.flushLog Engine.withJournal
    rw [hend.journal]
  rw [hclosed]
  -- so that keyspace is what is read from it; no file is no entries
  have hloads : ∃ loaded, ofSnapshot config r.engine.disk t = .ok loaded
      ∧ loaded.keyspace.contents t = r.lastSaved.live t := by
    have hfile := hend.file
    unfold lastSaved
    cases hsaved : r.saved with
    | none =>
      rw [hsaved] at hfile
      exact ⟨_, ofSnapshot_of_none (hfile.read fun _ => hremoved hsaved) t,
        contents_emptyKeyspace config t t⟩
    | some ks =>
      obtain ⟨hcount, hfits⟩ := hend.saved ks hsaved
      rw [hsaved] at hfile
      exact Engine.ofSnapshot_encoded hdatabases hfits t
        ((count_emptyKeyspace config t).trans hcount.symm) (hfile.read fun h => nomatch h)
  obtain ⟨loaded, hloaded, hcontents⟩ := hloads
  obtain ⟨-, hnow, hcount⟩ := ofSnapshot_spec hloaded
  obtain ⟨e', hopen', hkeyspace, -⟩ := Engine.open?_of_ofSnapshot hoff hloaded history' fallback'
  refine ⟨e', hopen', ?_⟩
  rw [hkeyspace]
  exact ⟨hnow, hcount.trans ((count_emptyKeyspace config t).trans hstart.count_eq.symm), hcontents⟩

/-- One database and no log. -/
def plainConfig : Config := { smallConfig with appendOnly := false }

/-- The engine that opens with it on an empty disk. -/
def plainEngine : Engine := { Engine.blank plainConfig 50 with disk := Disk.empty, journal := none }

/-- It can be asked for on the command line. -/
theorem ofArgs_plainConfig (readFile : String → Except String String) :
    Config.ofArgs readFile ["--databases", "1", "--repl-backlog-size", "1"] = .ok plainConfig := rfl

theorem open?_plainConfig :
    Engine.open? plainConfig Disk.empty 50 "" none = .ok plainEngine := rfl

/-- After a key was written. -/
def plainWritten : Engine := (plainEngine.execute 0 (writeOf "v")).1

/-- After that was saved, and a directory was made where the next save is prepared. -/
def plainObstructed : Engine :=
  { plainWritten.saveSnapshot.1 with
    disk := plainWritten.saveSnapshot.1.disk.withDirectory (snapshotPath plainConfig).temporary }

/-- After the key was written over, and could not be saved. -/
def savedInVain : SavedEngine :=
  ⟨(plainObstructed.execute 0 (writeOf "w")).1.saveSnapshot.1, some plainWritten.keyspace⟩

theorem runs_savedInVain : Runs ⟨plainEngine, none⟩ savedInVain := by
  have hsnapshot : plainWritten.keyspace.snapshot
      = ⟨50, [[([107], ⟨.string [118], none, 50⟩)]]⟩ := rfl
  have hfits : plainWritten.keyspace.snapshot.Fits := by
    rw [hsnapshot]
    refine ⟨by decide, by simp, by simp, ?_, ?_⟩
    · simp [Value.Sound]
    · simp [Value.count]
  have hsaved : plainWritten.saveSnapshot.2 = .ok 1 := rfl
  have hobstructs : plainWritten.saveSnapshot.1.disk.Obstructs (snapshotPath plainConfig)
      plainObstructed.disk := .make (.inr rfl) rfl
  have hfailed : (plainObstructed.execute 0 (writeOf "w")).1.saveSnapshot.2
      = .error (.disk .isDirectory) := rfl
  have hfirst : Runs ⟨plainEngine, none⟩ ⟨plainWritten, none⟩ :=
    .single (.tryWrite ((writeOf "v").operates_effect 0 _))
  have hsecond : Runs ⟨plainEngine, none⟩ ⟨plainObstructed, some plainWritten.keyspace⟩ :=
    (hfirst.tail (.save hfits hsaved)).tail (.obstruct hobstructs)
  have hthird : Step ⟨plainObstructed, some plainWritten.keyspace⟩
      ⟨(plainObstructed.execute 0 (writeOf "w")).1, some plainWritten.keyspace⟩ :=
    .tryWrite ((writeOf "w").operates_effect 0 _)
  exact (hsecond.tail hthird).tail (.failSave hfailed)

/-- What was saved first is loaded, although the key was written over since. -/
theorem reopen_loads_last_save_in_vain :
    ∃ e', Engine.open? plainConfig savedInVain.engine.close 70 "" none = .ok e'
      ∧ e'.keyspace.now = 70 ∧ e'.keyspace.count = plainEngine.keyspace.count
      ∧ e'.keyspace.contents 70 = savedInVain.lastSaved.live 70
      ∧ e'.keyspace.contents 70 0 (Bytes.ofString "k")
        = some ⟨.string (Bytes.ofString "v"), none⟩ := by
  have hkey : savedInVain.lastSaved.live 70 0 (Bytes.ofString "k")
      = some ⟨.string (Bytes.ofString "v"), none⟩ := rfl
  obtain ⟨e', hopen, hnow, hcount, hcontents⟩ :=
    reopen_loads_last_save rfl (Config.databases_pos_of_ofArgs (ofArgs_plainConfig .error)) rfl
      open?_plainConfig runs_savedInVain (fun h => nomatch h) 70 "" none
  refine ⟨e', hopen, hnow, hcount, hcontents, ?_⟩
  rw [hcontents]
  exact hkey

end DurableStore
