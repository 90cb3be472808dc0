/-
  DurableStore.Proofs.Engine.Repair
  ────────────────────────────────
  **A LOG IS REPAIRED BEFORE IT IS WRITTEN ON.**

  An engine opens on whatever its log holds.  What it records after that
  follows the complete commands that the replay found, and never stands
  behind bytes that cannot be read:

      logged selected writes       — the commands that a log takes in for
                                     some writes, with their SELECTs
      e.Step recorded e'           — one thing that can happen to an engine
      e.Runs writes e'             — what happens in a row, and the writes
                                     among it
      e.Logs path content selected — an engine whose log has some content

  All that a step can do to the log is in `Logs.keeps` and `Logs.records`;
  the run lemma is their induction.  Nothing is evicted here, so that the
  log holds the writes and nothing else.

  Main result:
    * `open?_repairs_log` — the file, and what it replays, after any run.
-/
import DurableStore.Proofs.Command.Operation
import DurableStore.Proofs.Engine.Records
import DurableStore.Proofs.Engine.Writes
import DurableStore.Proofs.Journal.Repair

namespace DurableStore

open Loaded

/-! ## §1. What a log takes in. -/

namespace Command

/-- A command that can be written down for a database, and is not passed over when
it is read. -/
structure Recordable (command : Command) (database : Nat) : Prop where
  nonempty : command ≠ []
  fits : Wire.Fits command
  database : database < Bytes.u64Bound

/-- The commands that a log takes in for some writes, given the database of the
record before. -/
def logged : Option Nat → List (Nat × Command) → List Command
  | _, [] => []
  | selected, (database, command) :: writes =>
    command.records selected database ++ logged (some database) writes

theorem nonempty_of_mem_records {command : Command} (h : command ≠ []) {selected : Option Nat}
    {database : Nat} : ∀ record ∈ command.records selected database, record ≠ [] := by
  intro record hrecord
  rcases List.mem_append.1 hrecord with hselect | hcommand
  · split at hselect
    · exact absurd hselect List.not_mem_nil
    · rw [List.mem_singleton.1 hselect]
      exact List.cons_ne_nil _ _
  · rw [List.mem_singleton.1 hcommand]
    exact h

variable {writes : List (Nat × Command)}

/-- All that a log takes in can be written down, and none of it is passed over. -/
theorem mem_logged (h : ∀ w ∈ writes, w.2.Recordable w.1) (selected : Option Nat) :
    ∀ record ∈ logged selected writes, Wire.Fits record ∧ record ≠ [] := by
  induction writes generalizing selected with
  | nil => exact fun _ hmem => absurd hmem List.not_mem_nil
  | cons w writes ih =>
    obtain ⟨hfirst, hrest⟩ := List.forall_mem_cons.1 h
    intro record hrecord
    rcases List.mem_append.1 hrecord with hnew | hlater
    · exact ⟨Wire.fits_of_mem_records hfirst.fits hfirst.database record hnew,
        nonempty_of_mem_records hfirst.nonempty record hnew⟩
    · exact ih hrest _ record hlater

end Command

namespace Replay

/-- What is kept of a log is what its replay calls its length. -/
theorem intact_eq (bytes : Bytes) : intact bytes = bytes.take (ofBytes bytes).validLength := by
  unfold intact
  split
  · rfl
  · -- nothing is left over, so the length is the whole length
    rename_i hwhole
    have hlength : (ofBytes bytes).validLength = bytes.length :=
      (ranges_reading [] bytes).whole (eq_false_of_ne_true hwhole)
    rw [hlength, List.take_length]

/-- **A repaired log replays what it replayed, and then what was added**, and it is complete. -/
theorem ofBytes_intact {new : List Command} (h : ∀ command ∈ new, Wire.Fits command ∧ command ≠ [])
    (bytes : Bytes) :
    ofBytes (intact bytes ++ new.flatMap Wire.encode)
      = ⟨(ofBytes bytes).commands ++ new, false,
          (intact bytes ++ new.flatMap Wire.encode).length⟩ := by
  have hnonempty : new.filter (fun command => !command.isEmpty) = new := by
    refine List.filter_eq_self.2 ?_
    intro command hmem
    simp [(h command hmem).2]
  have hlength : (intact bytes).length = (ofBytes bytes).validLength := by
    have hle : (ofBytes bytes).validLength ≤ bytes.length := (ranges_reading [] bytes).le
    rw [intact_eq, List.length_take]
    omega
  rw [List.length_append, hlength, intact_eq,
    ofBytes_followed (fun command hmem => (h command hmem).1)]
  unfold followedBy
  rw [hnonempty]

end Replay

/-! ## §2. Engines that keep a log. -/

/-- One thing that can happen to an engine, and the write that it records, if it does. -/
inductive Engine.Step : Engine → Option (Nat × Command) → Engine → Prop
  /-- A write that always takes place. -/
  | write {e : Engine} {α : Type} {database : Nat} {command : Command}
      {mutation : Keyspace → Keyspace × α} (hrecordable : command.Recordable database)
      (hoperates : e.keyspace.Operates (mutation e.keyspace).1) :
      Step e (some (database, command)) (e.write database mutation (Wire.encode command)).1
  /-- A write that may fail, and does not. -/
  | accept {e : Engine} {ε α : Type} {database : Nat} {command : Command}
      {mutation : Mutation ε α} {value : α} (hrecordable : command.Recordable database)
      (hoperates : e.keyspace.Operates (mutation e.keyspace).1)
      (hresult : (mutation e.keyspace).2 = .ok value) :
      Step e (some (database, command)) (e.tryWrite database mutation (Wire.encode command)).1
  /-- A write that fails. -/
  | refuse {e : Engine} {ε α : Type} {database : Nat} {record : Bytes}
      {mutation : Mutation ε α} {error : ε}
      (hoperates : e.keyspace.Operates (mutation e.keyspace).1)
      (hresult : (mutation e.keyspace).2 = .error error) :
      Step e none (e.tryWrite database mutation record).1
  /-- Keys are read, or a sweep takes place. -/
  | use {e : Engine} {α : Type} {use : Keyspace → Keyspace × α}
      (hoperates : e.keyspace.Operates (use e.keyspace).1) : Step e none (e.onKeyspace use).1
  | psync (e : Engine) (request : PsyncRequest) : Step e none (e.psync request).1
  | flush (e : Engine) : Step e none e.flushLog
  | pass (e : Engine) (now : Millis) : Step e none (e.atTime now)

/-- What happens to an engine in a row, and the writes that it records. -/
inductive Engine.Runs : Engine → List (Nat × Command) → Engine → Prop
  | nil (e : Engine) : Runs e [] e
  | step {e e' e'' : Engine} {recorded : Option (Nat × Command)} {writes : List (Nat × Command)}
      (hstep : e.Step recorded e') (hrest : Runs e' writes e'') :
      Runs e (recorded.toList ++ writes) e''

/-- An engine that evicts nothing, whose log is at a path and has some content. -/
structure Engine.Logs (e : Engine) (path : Path) (content : Bytes) (selected : Option Nat) :
    Prop where
  journal : ∃ j, e.journal = some j ∧ j.path = path ∧ j.selected = selected
    ∧ j.Carries e.disk content
  noEviction : e.keyspace.mayEvict = false
  quiet : e.keyspace.Quiet

namespace Engine

variable {e e' : Engine} {path : Path} {content : Bytes} {selected : Option Nat}
  {writes : List (Nat × Command)}

/-- Only what is written is recorded. -/
theorem Step.recordable {recorded : Option (Nat × Command)} (h : e.Step recorded e') :
    ∀ w ∈ recorded.toList, w.2.Recordable w.1 := by
  cases h with
  | write hrecordable => exact List.forall_mem_singleton.2 hrecordable
  | accept hrecordable => exact List.forall_mem_singleton.2 hrecordable
  | refuse | use | psync | flush | pass => exact fun _ hmem => absurd hmem List.not_mem_nil

theorem Runs.recordable (h : e.Runs writes e') : ∀ w ∈ writes, w.2.Recordable w.1 := by
  induction h with
  | nil => exact fun _ hmem => absurd hmem List.not_mem_nil
  | step hstep _ ih => exact List.forall_mem_append.2 ⟨hstep.recordable, ih⟩

/-! ### The parts of a step. -/

/-- Another keyspace, in which nothing can be evicted either. -/
theorem Logs.withKeyspace (h : e.Logs path content selected) {ks : Keyspace}
    (hkeeps : e.keyspace.Keeps ks) : (e.withKeyspace ks).Logs path content selected :=
  ⟨h.journal, hkeeps.mayEvict_eq.trans h.noEviction, hkeeps.quiet h.quiet⟩

/-- **A change of the keyspace** is not logged, since it evicts nothing. -/
theorem Logs.onKeyspace (h : e.Logs path content selected) {α : Type}
    {use : Keyspace → Keyspace × α} (hoperates : e.keyspace.Operates (use e.keyspace).1) :
    (e.onKeyspace use).1.Logs path content selected
      ∧ (e.onKeyspace use).2 = (use e.keyspace).2 := by
  have hkeeps := hoperates.keeps h.noEviction
  rw [onKeyspace_of_evicts e h.quiet hkeeps]
  exact ⟨h.withKeyspace (Keyspace.keeps_takeNotices hkeeps h.quiet), rfl⟩

/-- **A record** is logged behind the content. -/
theorem Logs.propagate (h : e.Logs path content selected) (database : Nat) (command : Command) :
    (e.propagate database (Wire.encode command)).Logs path
      (content ++ (command.records selected database).flatMap Wire.encode) (some database) := by
  obtain ⟨j, hjournal, hpath, hselected, hcarries⟩ := h.journal
  obtain ⟨hkeyspace, -, hdisk, hafter⟩ := propagate_log hjournal database (Wire.encode command)
  have hwrote := Journal.wrote_append hcarries database (Wire.encode command)
  refine ⟨⟨_, hafter, hwrote.path.trans hpath, hwrote.selected, ?_⟩, ?_, ?_⟩
  · rw [hdisk, Command.flatMap_records, ← hselected]
    exact hwrote.carries
  · rw [hkeyspace]
    exact h.noEviction
  · rw [hkeyspace]
    exact h.quiet

/-- Writing out what the log has collected does not change its content. -/
theorem Logs.flush (h : e.Logs path content selected) : e.flushLog.Logs path content selected := by
  obtain ⟨j, hjournal, hpath, hselected, hcarries⟩ := h.journal
  unfold flushLog withJournal
  rw [hjournal]
  exact ⟨⟨_, rfl, hpath, hselected, Journal.carries_flush hcarries⟩, h.noEviction, h.quiet⟩

/-- **Then the file is the content.** -/
theorem Logs.holds_flush (h : e.Logs path content selected) :
    ∃ l id, e.flushLog.disk.Holds path l id content := by
  obtain ⟨j, hjournal, rfl, -, hcarries⟩ := h.journal
  obtain ⟨-, l, hholds⟩ := Writer.Carries.flush hcarries
  refine ⟨l, j.writer.handle.id, ?_⟩
  unfold flushLog withJournal
  rw [hjournal]
  exact hholds

/-! ### Steps and runs. -/

/-- **A step that records nothing** keeps the content. -/
theorem Logs.keeps (h : e.Logs path content selected) (hstep : e.Step none e') :
    e'.Logs path content selected := by
  cases hstep with
  | refuse hoperates hresult =>
    -- what the failed mutation did to the keyspace stays, but is not logged
    obtain ⟨hlogs, hsame⟩ := h.onKeyspace hoperates
    unfold tryWrite
    dsimp only
    rw [hsame, hresult]
    exact hlogs
  | use hoperates => exact (h.onKeyspace hoperates).1
  | psync request =>
    -- the stream will name its database again, but the log knows its own
    exact ⟨h.journal, h.noEviction, h.quiet⟩
  | flush => exact h.flush
  | pass now => exact ⟨h.journal, h.noEviction, h.quiet⟩

/-- **A step that records a write** adds its records to the content. -/
theorem Logs.records (h : e.Logs path content selected) {database : Nat} {command : Command}
    (hstep : e.Step (some (database, command)) e') :
    e'.Logs path (content ++ (command.records selected database).flatMap Wire.encode)
      (some database) := by
  cases hstep with
  | write _ hoperates => exact (h.onKeyspace hoperates).1.propagate database command
  | accept _ hoperates hresult =>
    obtain ⟨hlogs, hsame⟩ := h.onKeyspace hoperates
    unfold tryWrite
    dsimp only
    rw [hsame, hresult]
    exact hlogs.propagate database command

/-- **A run adds the records of its writes**, by induction on it. -/
theorem Logs.run (h : e.Logs path content selected) (hruns : e.Runs writes e') :
    ∃ after, e'.Logs path (content ++ (Command.logged selected writes).flatMap Wire.encode)
      after := by
  induction hruns generalizing content selected with
  | nil e =>
    rw [Command.logged, List.flatMap_nil, List.append_nil]
    exact ⟨selected, h⟩
  | @step e e' e'' recorded writes hstep _ ih =>
    cases recorded with
    | none => exact ih (h.keeps hstep)
    | some w =>
      obtain ⟨after, hlogs⟩ := ih (h.records hstep)
      rw [List.append_assoc, ← List.flatMap_append] at hlogs
      exact ⟨after, hlogs⟩

/-! ## §3. Opening and writing on. -/

variable {config : Config} {d : Disk} {now : Millis}

/-- What a log replays is made of operations, so it evicts nothing. -/
theorem keeps_replayed {fallback : Option Fallback} (hfallback : OperatesOnly fallback)
    (hevict : (emptyKeyspace config now).mayEvict = false) (bytes : Bytes) :
    (emptyKeyspace config now).Keeps (replayed config now fallback bytes).keyspace := by
  have hoperates : (Session.start (emptyKeyspace config now) fallback).keyspace.Operates
      (replayed config now fallback bytes).keyspace := Session.operates_applyAll hfallback _
  exact hoperates.keeps hevict

/-- **An engine that opens on a log** keeps it, without what is not complete. -/
theorem logs_open? {l : Location} {id : Nat} {bytes : Bytes} (happend : config.appendOnly = true)
    (hevict : (emptyKeyspace config now).mayEvict = false) (hwf : d.WellFormed)
    (h : d.Holds (logPath config) l id bytes) (history : String) {fallback : Option Fallback}
    (hfallback : OperatesOnly fallback) :
    ∃ e, Engine.open? config d now history fallback = .ok e
      ∧ e.Logs (logPath config) (Replay.intact bytes) none := by
  obtain ⟨e, hopen, hkeyspace, hfresh⟩ := open?_of_log happend h now history fallback
  obtain ⟨j, hjournal, hpath, hselected, -, hcarries⟩ := (hfresh hwf).journal
  have hkeeps := keeps_replayed hfallback hevict bytes
  refine ⟨e, hopen, ⟨j, hjournal, hpath, hselected, hcarries⟩, ?_, ?_⟩
  · rw [hkeyspace]
    exact hkeeps.mayEvict_eq.trans hevict
  · have hquiet : (replayed config now fallback bytes).keyspace.Quiet := hkeeps.quiet rfl
    rw [hkeyspace]
    exact hquiet

/-- **Opening repairs any log before it is written on.**  An engine that keeps a log
and evicts nothing opens, whatever the file of its log holds.  Once what is
recorded after that is written out, the file is the part that its replay found
complete, and then the new records; the first write is preceded by a selection of
its database.  The file replays the commands that it replayed before and then the
new ones, and nothing in it is left over. -/
theorem open?_repairs_log (happend : config.appendOnly = true)
    (hevict : (emptyKeyspace config now).mayEvict = false) (hwf : d.WellFormed) {bytes : Bytes}
    (hbytes : d.bytes? (logPath config) = some bytes) (history : String)
    {fallback : Option Fallback} (hfallback : OperatesOnly fallback) :
    ∃ e, Engine.open? config d now history fallback = .ok e
      ∧ ∀ (writes : List (Nat × Command)) (e' : Engine), e.Runs writes e' →
        ∀ valid file, valid = bytes.take (Replay.ofBytes bytes).validLength →
          file = valid ++ (Command.logged none writes).flatMap Wire.encode →
          e'.flushLog.disk.bytes? (logPath config) = some file
            ∧ e'.flushLog.disk.replay (logPath config)
              = .ok ⟨(Replay.ofBytes bytes).commands ++ Command.logged none writes, false,
                  file.length⟩
            ∧ Replay.ofBytes valid = ⟨(Replay.ofBytes bytes).commands, false, valid.length⟩
            ∧ ∀ database command more, writes = (database, command) :: more →
              ∃ rest, file = valid
                ++ (Wire.encode (Command.selecting database) ++ (Wire.encode command ++ rest)) := by
  obtain ⟨l, id, hholds⟩ := Disk.holds_of_bytes? hbytes
  obtain ⟨e, hopen, hlogs⟩ := logs_open? happend hevict hwf hholds history hfallback
  refine ⟨e, hopen, ?_⟩
  intro writes e' hruns valid file hvalid hfile
  rw [← Replay.intact_eq] at hvalid
  obtain ⟨selected, hafter⟩ := hlogs.run hruns
  obtain ⟨l', id', hwritten⟩ := hafter.holds_flush
  rw [← hvalid, ← hfile] at hwritten
  have hreplay := Replay.ofBytes_intact (Command.mem_logged hruns.recordable none) bytes
  -- with no commands behind it: the part that is kept replays as it did
  have hempty : ∀ command ∈ ([] : List Command), Wire.Fits command ∧ command ≠ [] :=
    fun _ hmem => absurd hmem List.not_mem_nil
  have hnone := Replay.ofBytes_intact hempty bytes
  rw [← hvalid, List.flatMap_nil, List.append_nil, List.append_nil] at hnone
  rw [← hvalid, ← hfile] at hreplay
  refine ⟨Disk.bytes?_of_holds hwritten, ?_, hnone, ?_⟩
  · unfold Disk.replay
    rw [Disk.read_of_holds hwritten]
    show Except.ok (Replay.ofBytes file) = _
    rw [hreplay]
  · intro database command more hwrites
    -- a log that has just been opened does not know its database
    rw [hfile, hwrites]
    exact ⟨(Command.logged (some database) more).flatMap Wire.encode, rfl⟩

/-- A log that is damaged between two commands. -/
def damagedLog : Bytes :=
  Wire.encode (writeOf "1") ++ (Bytes.ofString "?" ++ Wire.encode (writeOf "2"))

/-- The command behind the damage is lost, and the next one takes its place. -/
theorem open?_repairs_log_damagedLog :
    ∃ d e e', Disk.empty.write (logPath smallConfig) damagedLog = .ok d
      ∧ Engine.open? smallConfig d 50 "" none = .ok e
      ∧ (e.write 0 ((writeOf "3").effect 0) (Wire.encode (writeOf "3"))).1 = e'
      ∧ e'.flushLog.disk.bytes? (logPath smallConfig) = some
          (Wire.encode (writeOf "1")
            ++ (Wire.encode (Command.selecting 0) ++ Wire.encode (writeOf "3")))
      ∧ e'.flushLog.disk.replay (logPath smallConfig)
        = .ok ⟨[writeOf "1", Command.selecting 0, writeOf "3"], false, 77⟩ := by
  obtain ⟨d, hwrite⟩ : ∃ d, Disk.empty.write (logPath smallConfig) damagedLog = .ok d := ⟨_, rfl⟩
  obtain ⟨l, id, -, hchange, hholds⟩ := Disk.write_spec hwrite
  have hfound : Replay.ofBytes damagedLog
      = ⟨[writeOf "1"], true, (Wire.encode (writeOf "1")).length⟩ := by decide +kernel
  have hvalid : damagedLog.take (Replay.ofBytes damagedLog).validLength
      = Wire.encode (writeOf "1") := by
    rw [hfound]
    exact List.take_left
  have happend : smallConfig.appendOnly = true := rfl
  have hevict : (emptyKeyspace smallConfig 50).mayEvict = false := rfl
  obtain ⟨e, hopen, hall⟩ := open?_repairs_log happend hevict
    (hchange.wellFormed Disk.wellFormed_empty) (Disk.bytes?_of_holds hholds) "" operatesOnly_none
  have hstep : e.Step (some (0, writeOf "3"))
      (e.write 0 ((writeOf "3").effect 0) (Wire.encode (writeOf "3"))).1 :=
    .write ⟨by decide, fits_writeOf (by decide), by decide⟩
      ((writeOf "3").operates_effect 0 e.keyspace)
  obtain ⟨hfile, hreplay, -, -⟩ := hall _ _ (.step hstep (.nil _)) _ _ hvalid.symm rfl
  rw [hfound] at hreplay
  exact ⟨d, e, _, hwrite, hopen, rfl, hfile, hreplay⟩

end Engine

end DurableStore
