/-
  DurableStore.Proofs.Engine.Durability
  ────────────────────────────────
  **THE LOG ALWAYS HOLDS THE DATASET.**

  An engine that keeps a log goes through writes, compactions that begin
  and end at any distance, flushes, and being closed and opened again.  All
  the while the content of its log, replayed into an empty keyspace, gives
  the contents of the engine:

      Records content c selected      — of the log, at any time
      Records (s ++ side) c selected  — of what a compaction that began with
                                        the snapshot `s` will put in its place

  The second is what carries the first through the end of a compaction.  It
  holds when the compaction begins, because a reconstruction rebuilds the
  contents, and every record that is appended later goes to both.

  What else happens on the disk does not matter as long as it leaves the
  log alone.  So a compaction may be obstructed anywhere.

  Main results:
    * `Durable.step` — one step keeps the invariant;
    * `replay_eq_dataset` — after every run the log replays to the dataset;
    * `reopen_eq_dataset` — and the engine can be closed and opened again.
-/
import Mathlib.Logic.Relation
import DurableStore.Proofs.Engine.Records
import DurableStore.Proofs.Engine.Writes
import DurableStore.Proofs.Journal.Rebuild

namespace DurableStore

open Loaded

/-! ## §1. Runs. -/

/-- An engine, and the snapshot with which the compaction under way began. -/
structure LogRun where
  engine : Engine
  snapshot : Option Snapshot

/-- A disk on which the log of an engine is as the engine left it. -/
structure Engine.KeepsLog (e : Engine) (d : Disk) : Prop where
  wellFormed : d.WellFormed
  log : ∀ j l bytes, e.journal = some j → e.disk.Holds j.path l j.writer.handle.id bytes →
    d.Holds j.path l j.writer.handle.id bytes

/-- One thing that happens to an engine that keeps a log, while the clock is
held. -/
inductive LogRun.Step : LogRun → LogRun → Prop
  /-- A command is written to a database. -/
  | write {r : LogRun} (database : Nat) {command : Command} (hselect : ¬ command.Selects)
      (hfits : Wire.Fits command) :
      Step r { r with engine := (r.engine.execute database command).1 }
  /-- A compaction begins, and the dataset is copied. -/
  | begin {r : LogRun} {e : Engine} {s : Snapshot} (h : r.engine.beginCompaction = .ok (e, s)) :
      Step r ⟨e, some s⟩
  /-- A compaction ends as the disk lets it. -/
  | finish {r : LogRun} {s : Snapshot} (h : r.snapshot = some s) :
      Step r ⟨(r.engine.finishCompaction s).1, none⟩
  /-- A compaction is given up, for whatever obstructed it. -/
  | abandon {r : LogRun} {j : Journal} (h : r.engine.journal = some j)
      (hphase : j.phase = .compacting) (error : DiskError) :
      Step r ⟨{ r.engine with
        disk := (j.abandon r.engine.disk error).1
        journal := some (j.abandon r.engine.disk error).2.1 }, none⟩
  /-- Anything happens on the disk that leaves the log alone. -/
  | disturb {r : LogRun} {d : Disk} (h : r.engine.KeepsLog d) :
      Step r { r with engine := { r.engine with disk := d } }
  /-- What the log has collected is written out. -/
  | flush (r : LogRun) : Step r { r with engine := r.engine.flushLog }
  /-- The engine is closed, with or without a compaction under way, and opened
  again. -/
  | reopen {r : LogRun} {history : String} {fallback : Option Fallback} {e : Engine}
      (h : Engine.open? r.engine.config r.engine.close r.engine.keyspace.now history fallback = .ok e) :
      Step r ⟨e, none⟩

/-! ## §2. The invariant. -/

/-- The log is at its path, and both its content and what the compaction under
way will put in its place record some contents. -/
structure Logged (config : Config) (now : Millis) (snapshot : Option Snapshot) (d : Disk)
    (j : Journal) (c : Contents) (content : Bytes) : Prop where
  path : j.path = logPath config
  carries : j.Carries d content
  records : Records config now content c j.selected
  compacting : j.phase = .compacting →
    ∃ s, snapshot = some s ∧ Records config now (j.compacted s) c j.selected

/-- What holds of an engine at any time. -/
structure Durable (config : Config) (now : Millis) (r : LogRun) : Prop where
  config_eq : r.engine.config = config
  steady : Steady config now Datum.Storable r.engine.keyspace
  log : ∃ j content, r.engine.journal = some j
    ∧ Logged config now r.snapshot r.engine.disk j (r.engine.keyspace.contents now) content

variable {config : Config} {now : Millis}

/-! ## §3. Logs. -/

/-- **A reconstruction records the contents it was made of.** -/
theorem records_reconstruction (hregular : (emptyKeyspace config now).Regular) {ks : Keyspace}
    (h : Steady config now Datum.Storable ks) :
    Records config now ks.snapshot.reconstructionBytes (ks.contents now) none := by
  have hrecords := Records.kept hregular (h.mono fun _ _ hd => hd.toSound)
  rw [Contents.kept_of_storable h.each] at hrecords
  exact hrecords

variable {snapshot : Option Snapshot} {d : Disk} {j : Journal} {c : Contents} {content : Bytes}

/-- **A record that is appended is recorded in both.** -/
theorem Logged.append (h : Logged config now snapshot d j c content) {database : Nat}
    (hdatabase : database < (emptyKeyspace config now).count) {command : Command}
    (hselect : ¬ command.Selects) (hfits : Wire.Fits command)
    (hmeaning : command.meaning now (emptyKeyspace config now).count (c database) ≠ .refused) :
    Logged config now snapshot (j.append d database (Wire.encode command)).1
      (j.append d database (Wire.encode command)).2
      ((command.meaning now (emptyKeyspace config now).count (c database)).on database now c)
      (content ++ (Command.selection j.selected database ++ Wire.encode command)) := by
  have hwrote := Journal.wrote_append h.carries database (Wire.encode command)
  refine ⟨hwrote.path.trans h.path, hwrote.carries, ?_, ?_⟩
  · rw [hwrote.selected]
    exact h.records.record hdatabase hselect hfits hmeaning
  · intro hphase
    -- the side buffer gets the same bytes as the log
    have hbefore : j.phase = .compacting := hwrote.phase.symm.trans hphase
    obtain ⟨s, hsnapshot, hrecords⟩ := h.compacting hbefore
    refine ⟨s, hsnapshot, ?_⟩
    unfold Journal.compacted at hrecords ⊢
    rw [hwrote.selected, hwrote.side, if_pos hbefore, ← List.append_assoc]
    exact hrecords.record hdatabase hselect hfits hmeaning

/-- A log that is not being compacted. -/
theorem logged_of_idle (hpath : j.path = logPath config) (hcarries : j.Carries d content)
    (hrecords : Records config now content c j.selected) (hphase : j.phase = .idle) :
    Logged config now snapshot d j c content where
  path := hpath
  carries := hcarries
  records := hrecords
  compacting := by
    intro hcompacting
    rw [hphase] at hcompacting
    cases hcompacting

/-- **A compaction begins with the contents of now.** -/
theorem Logged.begin (hregular : (emptyKeyspace config now).Regular) {ks : Keyspace}
    (hsteady : Steady config now Datum.Storable ks)
    (h : Logged config now snapshot d j (ks.contents now) content) {j' : Journal}
    (hbegin : j.beginCompaction = .ok j') :
    Logged config now (some ks.snapshot) d j' (ks.contents now) content := by
  unfold Journal.beginCompaction at hbegin
  split at hbegin
  · cases hbegin
  · cases hbegin
    refine ⟨h.path, h.carries, h.records.forget, ?_⟩
    intro _
    -- the side buffer is empty, and the next record will name its database
    refine ⟨ks.snapshot, rfl, ?_⟩
    unfold Journal.compacted
    rw [List.append_nil]
    exact records_reconstruction hregular hsteady

/-- **A compaction ends with what records the contents**, whether it ends well
or is obstructed. -/
theorem Logged.finish (h : Logged config now snapshot d j c content) {s : Snapshot}
    (hsnapshot : snapshot = some s) (hphase : j.phase = .compacting) :
    ∃ content', Logged config now none (j.finishCompaction d s).1 (j.finishCompaction d s).2.1 c
      content' := by
  obtain ⟨s', hsnapshot', hcompacted⟩ := h.compacting hphase
  rw [hsnapshot] at hsnapshot'
  cases hsnapshot'
  rcases Journal.finishCompaction_spec h.carries hphase s with ⟨-, hsettles⟩ | ⟨error, -, hsettles⟩
  · -- the new log is in its place
    refine ⟨j.compacted s, logged_of_idle (hsettles.path.trans h.path) hsettles.carries ?_
      hsettles.phase⟩
    rw [hsettles.selected]
    exact hcompacted
  · -- the old one is still there
    refine ⟨content, logged_of_idle (hsettles.path.trans h.path) hsettles.carries ?_
      hsettles.phase⟩
    rw [hsettles.selected]
    exact h.records

/-! ## §4. Steps. -/

/-- What an engine holds when it has just been opened on what records it. -/
theorem durable_of_fresh {e : Engine} {ks : Keyspace} (h : e.Fresh config ks content)
    (hsteady : Steady config now Datum.Storable ks)
    (hrecords : Records config now content (ks.contents now) none) :
    Durable config now ⟨e, none⟩ := by
  obtain ⟨⟨j, hjournal, hpath, hselected, hphase, hcarries⟩, hkeyspace, hconfig⟩ := h
  refine ⟨hconfig, ?_, j, content, hjournal, ?_⟩
  · show Steady config now Datum.Storable e.keyspace
    rw [hkeyspace]
    exact hsteady.withListener
  · show Logged config now none e.disk j (e.keyspace.contents now) content
    rw [hkeyspace]
    refine logged_of_idle hpath hcarries ?_ hphase
    rw [hselected]
    exact hrecords

/-- **A durable engine can be closed and opened again**, and is durable then. -/
theorem Durable.reopen {r : LogRun} (h : Durable config now r) (happend : config.appendOnly = true)
    (history : String) (fallback : Option Fallback) :
    ∃ e, Engine.open? config r.engine.close now history fallback = .ok e
      ∧ Durable config now ⟨e, none⟩ ∧ e.keyspace.contents now = r.engine.keyspace.contents now := by
  obtain ⟨j, content, hjournal, hlogged⟩ := h.log
  -- closing writes out what was collected, so the file holds the whole content
  obtain ⟨hwf, l, hholds⟩ := Writer.Carries.flush hlogged.carries
  have hclose : r.engine.close = (j.writer.flush r.engine.disk).1 := Engine.close_eq hjournal
  rw [hlogged.path] at hholds
  obtain ⟨e, hopen, -, hfresh⟩ := Engine.open?_of_log happend hholds now history fallback
  have hfresh := hfresh hwf
  -- what only records is complete, so nothing is cut off
  rw [hlogged.records.intact] at hfresh
  have hstands := hlogged.records.stands fallback
  have hsteady : Steady config now Datum.Storable
      (replayed config now fallback content).keyspace := by
    refine ⟨hstands.now_eq, hstands.count_eq, hstands.regular, hstands.quiet, ?_⟩
    rw [hstands.contents_eq]
    exact h.steady.each
  have hrecords := hlogged.records.forget
  rw [← hstands.contents_eq] at hrecords
  rw [hclose]
  refine ⟨e, hopen, durable_of_fresh hfresh hsteady hrecords, ?_⟩
  rw [hfresh.keyspace]
  exact hstands.contents_eq

/-- **A write** is recorded, unless it is refused. -/
theorem Durable.write {r : LogRun} (h : Durable config now r) (database : Nat) {command : Command}
    (hselect : ¬ command.Selects) (hfits : Wire.Fits command) :
    Durable config now { r with engine := (r.engine.execute database command).1 } := by
  obtain ⟨j, content, hjournal, hlogged⟩ := h.log
  obtain ⟨ks, hkeeps, hcases⟩ :=
    Engine.execute_cases h.steady.regular h.steady.quiet database command
  rw [h.steady.now_eq, h.steady.count_eq] at hcases
  rcases hcases with ⟨hexecute, hcontents⟩ | ⟨hexecute, hdatabase, hmeaning, hcontents⟩
  · -- refused: the contents and the log are what they were
    rw [hexecute]
    refine ⟨h.config_eq, h.steady.keeps hkeeps (hcontents ▸ h.steady.each), j, content,
      hjournal, ?_⟩
    show Logged config now r.snapshot r.engine.disk j (ks.contents now) content
    rw [hcontents]
    exact hlogged
  · -- otherwise the record is appended, and the contents follow its meaning
    have hstorable : (ks.contents now).Storable := by
      rw [hcontents]
      exact h.steady.each.meaning Datum.lasting_storable hfits now _ database
    have hjournal' : (r.engine.withKeyspace ks).journal = some j := hjournal
    obtain ⟨hkeyspace, hconfig, hdisk, happended⟩ :=
      Engine.propagate_log hjournal' database (Wire.encode command)
    have hlogged' := hlogged.append hdatabase hselect hfits hmeaning
    rw [← hcontents] at hlogged'
    rw [hexecute]
    refine ⟨hconfig.trans h.config_eq, ?_, _,
      content ++ (Command.selection j.selected database ++ Wire.encode command), happended, ?_⟩
    · rw [hkeyspace]
      exact h.steady.keeps hkeeps hstorable
    · rw [hkeyspace, hdisk]
      exact hlogged'

/-- **A compaction begins.** -/
theorem Durable.begin (hregular : (emptyKeyspace config now).Regular) {r : LogRun}
    (h : Durable config now r) {e : Engine} {s : Snapshot}
    (hbegin : r.engine.beginCompaction = .ok (e, s)) : Durable config now ⟨e, some s⟩ := by
  obtain ⟨j, content, hjournal, hlogged⟩ := h.log
  unfold Engine.beginCompaction at hbegin
  rw [hjournal] at hbegin
  dsimp only at hbegin
  split at hbegin
  · cases hbegin
  · rename_i j' hbegun
    cases hbegin
    exact ⟨h.config_eq, h.steady, j', content, rfl, hlogged.begin hregular h.steady hbegun⟩

/-- **A compaction ends**, if one is under way. -/
theorem Durable.finish {r : LogRun} (h : Durable config now r) {s : Snapshot}
    (hsnapshot : r.snapshot = some s) :
    Durable config now ⟨(r.engine.finishCompaction s).1, none⟩ := by
  obtain ⟨j, content, hjournal, hlogged⟩ := h.log
  cases hphase : j.phase with
  | idle =>
    -- nothing is under way, and nothing happens
    have hsame : (r.engine.finishCompaction s).1 = r.engine := by
      unfold Engine.finishCompaction Journal.finishCompaction
      rw [hjournal]
      dsimp only
      rw [hphase]
      dsimp only
      rw [← hjournal]
    rw [hsame]
    exact ⟨h.config_eq, h.steady, j, content, hjournal,
      logged_of_idle hlogged.path hlogged.carries hlogged.records hphase⟩
  | compacting =>
    obtain ⟨content', hlogged'⟩ := hlogged.finish hsnapshot hphase
    have hfinished : (r.engine.finishCompaction s).1 = { r.engine with
        disk := (j.finishCompaction r.engine.disk s).1
        journal := some (j.finishCompaction r.engine.disk s).2.1 } := by
      unfold Engine.finishCompaction
      rw [hjournal]
      dsimp only
      split <;> rename_i hout <;> rw [hout]
    rw [hfinished]
    exact ⟨h.config_eq, h.steady, _, content', rfl, hlogged'⟩

/-- **A compaction is given up.** -/
theorem Durable.abandon {r : LogRun} (h : Durable config now r) {j : Journal}
    (hjournal : r.engine.journal = some j) (error : DiskError) :
    Durable config now ⟨{ r.engine with
      disk := (j.abandon r.engine.disk error).1
      journal := some (j.abandon r.engine.disk error).2.1 }, none⟩ := by
  obtain ⟨j', content, hsome, hlogged⟩ := h.log
  have hsame : j' = j := Option.some.inj (hsome.symm.trans hjournal)
  subst hsame
  have hsettles := Journal.settled_abandon hlogged.carries error
  refine ⟨h.config_eq, h.steady, _, content, rfl, ?_⟩
  refine logged_of_idle (hsettles.path.trans hlogged.path) hsettles.carries ?_ hsettles.phase
  rw [hsettles.selected]
  exact hlogged.records

/-- **Other files change.** -/
theorem Durable.disturb {r : LogRun} (h : Durable config now r) {d : Disk}
    (hkept : r.engine.KeepsLog d) :
    Durable config now { r with engine := { r.engine with disk := d } } := by
  obtain ⟨j, content, hjournal, hlogged⟩ := h.log
  obtain ⟨l, bytes, hholds, hcontent⟩ := hlogged.carries.file
  have hcarries : j.Carries d content :=
    ⟨hkept.wellFormed, l, bytes, hkept.log j l bytes hjournal hholds, hcontent⟩
  exact ⟨h.config_eq, h.steady, j, content, hjournal,
    ⟨hlogged.path, hcarries, hlogged.records, hlogged.compacting⟩⟩

/-- **The log is written out.** -/
theorem Durable.flush {r : LogRun} (h : Durable config now r) :
    Durable config now { r with engine := r.engine.flushLog } := by
  obtain ⟨j, content, hjournal, hlogged⟩ := h.log
  have hflushed : r.engine.flushLog = { r.engine with
      disk := (j.flush r.engine.disk).1
      journal := some (j.flush r.engine.disk).2 } := by
    unfold Engine.flushLog Engine.withJournal
    rw [hjournal]
  rw [hflushed]
  exact ⟨h.config_eq, h.steady, _, content, rfl,
    ⟨hlogged.path, Journal.carries_flush hlogged.carries, hlogged.records, hlogged.compacting⟩⟩

/-- **One step keeps the invariant.** -/
theorem Durable.step (hregular : (emptyKeyspace config now).Regular)
    (happend : config.appendOnly = true) {r r' : LogRun} (h : Durable config now r)
    (hstep : r.Step r') : Durable config now r' := by
  cases hstep with
  | write database hselect hfits => exact h.write database hselect hfits
  | begin hbegin => exact h.begin hregular hbegin
  | finish hsnapshot => exact h.finish hsnapshot
  | abandon hjournal _ error => exact h.abandon hjournal error
  | disturb hkept => exact h.disturb hkept
  | flush => exact h.flush
  | @reopen history fallback e hopen =>
    obtain ⟨e', hopen', hdurable, -⟩ := h.reopen happend history fallback
    rw [h.config_eq, h.steady.now_eq, hopen'] at hopen
    cases hopen
    exact hdurable

/-! ## §5. Runs from an empty directory. -/

/-- **Every run keeps the invariant**, by induction on the run. -/
theorem Durable.run (hregular : (emptyKeyspace config now).Regular)
    (happend : config.appendOnly = true) {r r' : LogRun} (h : Durable config now r)
    (hrun : Relation.ReflTransGen LogRun.Step r r') : Durable config now r' := by
  induction hrun with
  | refl => exact h
  | tail _ hstep ih => exact ih.step hregular happend hstep

/-- An engine that is opened where there is nothing is durable. -/
theorem durable_of_nothing (hregular : (emptyKeyspace config now).Regular)
    (happend : config.appendOnly = true) {d : Disk} (hwf : d.WellFormed)
    (hlog : d.exists? (logPath config) = false)
    (hsnapshot : d.read (snapshotPath config) = .ok none) {history : String}
    {fallback : Option Fallback} {e : Engine}
    (hopen : Engine.open? config d now history fallback = .ok e) : Durable config now ⟨e, none⟩ :=
  durable_of_fresh (Engine.open?_of_nothing happend hwf hlog hsnapshot hopen)
    (steady_emptyKeyspace hregular) (contents_emptyKeyspace config now now ▸ Records.nil hregular)

/-- **The log always reproduces the dataset.**  An engine that keeps a log and
evicts nothing is opened where there is neither a log nor a snapshot file.
After every run of writes, of compactions that begin and end anywhere, well
or not, of flushes, and of being closed and opened again, the content of
its log, replayed into an empty keyspace, gives its dataset. -/
theorem replay_eq_dataset (happend : config.appendOnly = true)
    (hevict : (emptyKeyspace config now).mayEvict = false)
    (hcount : (emptyKeyspace config now).count < Bytes.u64Bound) {d : Disk} (hwf : d.WellFormed)
    (hlog : d.exists? (logPath config) = false)
    (hsnapshot : d.read (snapshotPath config) = .ok none) {history : String}
    {fallback : Option Fallback} {e : Engine}
    (hopen : Engine.open? config d now history fallback = .ok e) {r : LogRun}
    (hrun : Relation.ReflTransGen LogRun.Step ⟨e, none⟩ r) :
    ∃ j, r.engine.journal = some j
      ∧ (replayed config now none (j.content r.engine.disk)).keyspace.dataset
          = r.engine.keyspace.dataset := by
  have hregular : (emptyKeyspace config now).Regular := ⟨hevict, hcount⟩
  have hdurable :=
    (durable_of_nothing hregular happend hwf hlog hsnapshot hopen).run hregular happend hrun
  obtain ⟨j, content, hjournal, hlogged⟩ := hdurable.log
  refine ⟨j, hjournal, ?_⟩
  rw [Journal.content_eq hlogged.carries]
  exact (hlogged.records.dataset_eq_iff none hdurable.steady.now_eq hdurable.steady.count_eq).2 rfl

/-- A write, and a compaction with another write between its ends. -/
def compactedRun : LogRun :=
  match ((Engine.blank smallConfig 50).execute 0 (writeOf "v")).1.beginCompaction with
  | .ok (e, s) => ⟨((e.execute 0 (writeOf "w")).1.finishCompaction s).1, none⟩
  | .error _ => ⟨Engine.blank smallConfig 50, none⟩

/-- The write that falls into the compaction is not lost. -/
theorem replay_eq_dataset_compactedRun :
    compactedRun.engine.keyspace.dataset
        = [[(Bytes.ofString "k", .string (Bytes.ofString "w"), none)]]
      ∧ ∃ j, compactedRun.engine.journal = some j
        ∧ (replayed smallConfig 50 none (j.content compactedRun.engine.disk)).keyspace.dataset
          = compactedRun.engine.keyspace.dataset := by
  have hfirst : LogRun.Step ⟨Engine.blank smallConfig 50, none⟩
      ⟨((Engine.blank smallConfig 50).execute 0 (writeOf "v")).1, none⟩ :=
    .write 0 (not_selects_writeOf "v") (fits_writeOf (by decide))
  refine ⟨by decide +kernel, replay_eq_dataset rfl (by decide) (by decide +kernel)
    Disk.wellFormed_empty (by decide +kernel) (by decide +kernel) open?_smallConfig ?_⟩
  exact .tail (.tail (.tail (.tail .refl hfirst) (.begin rfl))
    (.write 0 (not_selects_writeOf "w") (fits_writeOf (by decide)))) (.finish rfl)

/-- **After every run the engine can be closed and opened again**, and has the
same dataset then. -/
theorem reopen_eq_dataset (happend : config.appendOnly = true)
    (hevict : (emptyKeyspace config now).mayEvict = false)
    (hcount : (emptyKeyspace config now).count < Bytes.u64Bound) {d : Disk} (hwf : d.WellFormed)
    (hlog : d.exists? (logPath config) = false)
    (hsnapshot : d.read (snapshotPath config) = .ok none) {history : String}
    {fallback : Option Fallback} {e : Engine}
    (hopen : Engine.open? config d now history fallback = .ok e) {r : LogRun}
    (hrun : Relation.ReflTransGen LogRun.Step ⟨e, none⟩ r) (history' : String)
    (fallback' : Option Fallback) :
    ∃ e', Engine.open? config r.engine.close now history' fallback' = .ok e'
      ∧ e'.keyspace.dataset = r.engine.keyspace.dataset := by
  have hregular : (emptyKeyspace config now).Regular := ⟨hevict, hcount⟩
  have hdurable :=
    (durable_of_nothing hregular happend hwf hlog hsnapshot hopen).run hregular happend hrun
  obtain ⟨e', hopen', hdurable', hcontents⟩ := hdurable.reopen happend history' fallback'
  refine ⟨e', hopen', Keyspace.dataset_eq_iff.2 ⟨?_, ?_⟩⟩
  · exact hdurable'.steady.count_eq.trans hdurable.steady.count_eq.symm
  · rw [hdurable'.steady.now_eq, hdurable.steady.now_eq]
    exact hcontents

end DurableStore
