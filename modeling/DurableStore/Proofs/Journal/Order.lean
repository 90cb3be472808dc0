/-
  DurableStore.Proofs.Journal.Order
  ────────────────────────────────
  **A LOG KEEPS EVERY RECORD IN ORDER.**

  A log that begins empty is appended to, flushed, compacted, closed and
  opened again, in any order.  What it holds, in its file and still
  collected, is at any time the reconstruction of the last snapshot it was
  compacted with and then every record appended since that compaction
  began, each under its own database:

      r.writes              — what a log should hold after a run
      Lists content …       — of the content of the log, at any time
      Lists (s ++ side) …   — of what a compaction under way, finished with
                              any snapshot `s`, will put in its place

  Both are kept with the one database that the log has selected, because a
  compaction forgets it when it begins: the first record after that names
  its database in the side buffer too.

  Main results:
    * `Kept.step` — one step keeps the invariant;
    * `log_keeps_order` — what the log holds after every run, and in which
      phase it is.
-/
import Mathlib.Logic.Relation
import DurableStore.Proofs.Journal.Attribution
import DurableStore.Proofs.Journal.Content

namespace DurableStore

/-! ## §1. Runs. -/

/-- A log, and what was done with it. -/
structure JournalRun where
  disk : Disk
  journal : Journal
  /-- The snapshot of the last compaction that ended well. -/
  base : Option Snapshot
  /-- The records that were appended since that compaction began, or ever. -/
  appended : List (Nat × Command)
  /-- The records that were appended since the compaction under way began. -/
  during : Option (List (Nat × Command))

namespace JournalRun

/-- A log that nothing was done with. -/
def opened (d : Disk) (j : Journal) : JournalRun := ⟨d, j, none, [], none⟩

/-- What the log should hold. -/
def writes (r : JournalRun) : List (Nat × Command) :=
  (match r.base with
    | some s => s.rebuilt
    | none => []) ++ r.appended

/-- One thing that is done with a log. -/
inductive Step : JournalRun → JournalRun → Prop
  /-- A command that selects no database is appended. -/
  | append {r : JournalRun} {database : Nat} (hdatabase : database < Bytes.u64Bound)
      {command : Command} (hselect : ¬ command.Selects) (hfits : Wire.Fits command) :
      Step r { r with
        disk := (r.journal.append r.disk database (Wire.encode command)).1
        journal := (r.journal.append r.disk database (Wire.encode command)).2
        appended := r.appended ++ [(database, command)]
        during := r.during.map (· ++ [(database, command)]) }
  /-- What is collected is written out. -/
  | flush (r : JournalRun) :
      Step r { r with disk := (r.journal.flush r.disk).1, journal := (r.journal.flush r.disk).2 }
  /-- A compaction begins. -/
  | begin {r : JournalRun} {j : Journal} (h : r.journal.beginCompaction = .ok j) :
      Step r { r with journal := j, during := some [] }
  /-- A compaction ends well, with any snapshot. -/
  | finish {r : JournalRun} {s : Snapshot} (hmemory : s.InMemory) {d : Disk} {j : Journal}
      (h : r.journal.finishCompaction r.disk s = (d, j, .ok ())) :
      Step r ⟨d, j, some s, r.during.getD [], none⟩
  /-- The disk obstructs the end of a compaction, or there was none under way. -/
  | obstruct {r : JournalRun} {s : Snapshot} {d : Disk} {j : Journal} {error : JournalError}
      (h : r.journal.finishCompaction r.disk s = (d, j, .error error)) :
      Step r { r with disk := d, journal := j, during := none }
  /-- A compaction is given up, for whatever obstructed it. -/
  | abandon {r : JournalRun} (hphase : r.journal.phase = .compacting) (error : DiskError) :
      Step r { r with
        disk := (r.journal.abandon r.disk error).1
        journal := (r.journal.abandon r.disk error).2.1
        during := none }
  /-- The log is closed and opened again. -/
  | reopen {r : JournalRun} {d : Disk} {j : Journal}
      (h : Journal.open? (r.journal.close r.disk) r.journal.path = .ok (d, j)) :
      Step r { r with disk := d, journal := j, during := none }
  /-- Anything happens on the disk that leaves the log alone. -/
  | disturb {r : JournalRun} {d : Disk} (hwf : d.WellFormed)
      (hlog : ∀ l bytes, r.disk.Holds r.journal.path l r.journal.writer.handle.id bytes →
        d.Holds r.journal.path l r.journal.writer.handle.id bytes) :
      Step r { r with disk := d }

/-! ## §2. The invariant. -/

/-- What holds of a log at any time. -/
structure Kept (r : JournalRun) : Prop where
  content : ∃ content, r.journal.Carries r.disk content
    ∧ Lists content r.writes r.journal.selected
  /-- Without a compaction under way the log is idle. -/
  idle : r.during = none → r.journal.phase = .idle
  /-- Whatever snapshot finishes a compaction, the side buffer goes on where that
  ends. -/
  compacting : ∀ later, r.during = some later → r.journal.phase = .compacting
    ∧ ∀ s : Snapshot, s.InMemory →
      Lists (r.journal.compacted s) (s.rebuilt ++ later) r.journal.selected

variable {r r' : JournalRun}

theorem Kept.phase_iff (h : r.Kept) : r.journal.phase = .compacting ↔ r.during.isSome = true := by
  cases hduring : r.during with
  | none =>
    have hidle := h.idle hduring
    rw [hidle]
    exact ⟨(fun heq => nomatch heq), fun heq => nomatch heq⟩
  | some later => exact ⟨fun _ => rfl, fun _ => (h.compacting later hduring).1⟩

/-- A log that begins empty. -/
theorem kept_opened {d disk : Disk} {path : Path} {j : Journal} (hwf : d.WellFormed)
    (hempty : (d.bytes? path).getD [] = []) (hopen : Journal.open? d path = .ok (disk, j)) :
    (opened disk j).Kept := by
  obtain ⟨hcarries, -, hselected, hphase⟩ := Journal.open?_spec hwf hopen
  rw [hempty] at hcarries
  refine ⟨⟨[], hcarries, ?_⟩, fun _ => hphase, fun later h => nomatch h⟩
  show Lists [] [] j.selected
  rw [hselected]
  exact Lists.nil

/-- **A record is added to the log, and during a compaction to the side buffer.** -/
theorem Kept.append (h : r.Kept) {database : Nat} (hdatabase : database < Bytes.u64Bound)
    {command : Command} (hselect : ¬ command.Selects) (hfits : Wire.Fits command) :
    Kept { r with
      disk := (r.journal.append r.disk database (Wire.encode command)).1
      journal := (r.journal.append r.disk database (Wire.encode command)).2
      appended := r.appended ++ [(database, command)]
      during := r.during.map (· ++ [(database, command)]) } := by
  obtain ⟨content, hcarries, hlists⟩ := h.content
  have hwrote := Journal.wrote_append hcarries database (Wire.encode command)
  refine ⟨⟨_, hwrote.carries, ?_⟩, ?_, ?_⟩
  · -- the log itself, in the database that it has selected
    have hrecord := hlists.record hdatabase hselect hfits
    show Lists _ _ (r.journal.append r.disk database (Wire.encode command)).2.selected
    rw [hwrote.selected]
    unfold writes at hrecord ⊢
    rw [List.append_assoc] at hrecord
    exact hrecord
  · intro hnone
    exact hwrote.phase.trans (h.idle (Option.map_eq_none_iff.1 hnone))
  · intro later hlater
    obtain ⟨before, hbefore, rfl⟩ := Option.map_eq_some_iff.1 hlater
    obtain ⟨hphase, hside⟩ := h.compacting before hbefore
    refine ⟨hwrote.phase.trans hphase, ?_⟩
    intro s hmemory
    -- the side buffer goes on where the snapshot ends, which has no database selected
    have hrecord := (hside s hmemory).record hdatabase hselect hfits
    show Lists (s.reconstructionBytes
        ++ (r.journal.append r.disk database (Wire.encode command)).2.side) _
      (r.journal.append r.disk database (Wire.encode command)).2.selected
    rw [hwrote.side, if_pos hphase, hwrote.selected,
      ← List.append_assoc s.reconstructionBytes, ← List.append_assoc s.rebuilt]
    exact hrecord

/-- **A compaction begins with an empty side buffer and no database selected.** -/
theorem Kept.begin (h : r.Kept) {j : Journal} (hbegin : r.journal.beginCompaction = .ok j) :
    Kept { r with journal := j, during := some [] } := by
  obtain ⟨content, hcarries, hlists⟩ := h.content
  unfold Journal.beginCompaction at hbegin
  split at hbegin
  · cases hbegin
  · cases hbegin
    refine ⟨⟨content, hcarries, hlists.forget⟩, (fun heq => nomatch heq), ?_⟩
    intro later hlater
    cases hlater
    refine ⟨rfl, ?_⟩
    intro s hmemory
    have hrebuilt := Lists.rebuilt hmemory
    show Lists (s.reconstructionBytes ++ []) (s.rebuilt ++ []) none
    rw [List.append_nil, List.append_nil]
    exact hrebuilt

/-- **A compaction that ends well** puts in place what it prepared. -/
theorem Kept.finish (h : r.Kept) {s : Snapshot} (hmemory : s.InMemory) {d : Disk} {j : Journal}
    (hfinish : r.journal.finishCompaction r.disk s = (d, j, .ok ())) :
    Kept ⟨d, j, some s, r.during.getD [], none⟩ := by
  obtain ⟨content, hcarries, -⟩ := h.content
  cases hduring : r.during with
  | none =>
    -- without a compaction under way there is none to end
    unfold Journal.finishCompaction at hfinish
    rw [h.idle hduring] at hfinish
    cases hfinish
  | some later =>
    obtain ⟨hphase, hside⟩ := h.compacting later hduring
    have hspec := Journal.finishCompaction_spec hcarries hphase s
    rw [hfinish] at hspec
    rcases hspec with ⟨-, hsettles⟩ | ⟨error, herror, -⟩
    · refine ⟨⟨_, hsettles.carries, ?_⟩, fun _ => hsettles.phase, fun _ heq => nomatch heq⟩
      show Lists _ (s.rebuilt ++ later) j.selected
      rw [hsettles.selected]
      exact hside s hmemory
    · cases herror

/-- A log that is idle again and holds what it held. -/
theorem Kept.settled (h : r.Kept) {d : Disk} {j : Journal}
    (hsettles : ∀ content, r.journal.Carries r.disk content → r.journal.Settles content d j) :
    Kept { r with disk := d, journal := j, during := none } := by
  obtain ⟨content, hcarries, hlists⟩ := h.content
  have hsettled := hsettles content hcarries
  refine ⟨⟨content, hsettled.carries, ?_⟩, fun _ => hsettled.phase, fun _ heq => nomatch heq⟩
  show Lists content r.writes j.selected
  rw [hsettled.selected]
  exact hlists

/-- **A compaction that is obstructed** leaves the log as it was. -/
theorem Kept.obstruct (h : r.Kept) {s : Snapshot} {d : Disk} {j : Journal} {error : JournalError}
    (hfinish : r.journal.finishCompaction r.disk s = (d, j, .error error)) :
    Kept { r with disk := d, journal := j, during := none } := by
  refine h.settled ?_
  intro content hcarries
  cases hphase : r.journal.phase with
  | idle =>
    -- there is no compaction to end, and nothing is done
    unfold Journal.finishCompaction at hfinish
    rw [hphase] at hfinish
    cases hfinish
    exact ⟨hcarries, rfl, rfl, hphase⟩
  | compacting =>
    have hspec := Journal.finishCompaction_spec hcarries hphase s
    rw [hfinish] at hspec
    rcases hspec with ⟨hok, -⟩ | ⟨-, -, hsettles⟩
    · cases hok
    · exact hsettles

/-- **A log that is closed and opened again** holds what it held, and knows no
database. -/
theorem Kept.reopen (h : r.Kept) {d : Disk} {j : Journal}
    (hopen : Journal.open? (r.journal.close r.disk) r.journal.path = .ok (d, j)) :
    Kept { r with disk := d, journal := j, during := none } := by
  obtain ⟨content, hcarries, hlists⟩ := h.content
  obtain ⟨handle, hreopened, hagain, -⟩ := Journal.open?_close hcarries
  rw [hreopened] at hopen
  cases hopen
  -- the side buffer is gone, but whatever is in it was appended to the log as well
  exact ⟨⟨content, hagain, hlists.forget⟩, fun _ => rfl, fun _ heq => nomatch heq⟩

/-- **One step.** -/
theorem Kept.step (h : r.Kept) (hstep : Step r r') : r'.Kept := by
  cases hstep with
  | append hdatabase hselect hfits => exact h.append hdatabase hselect hfits
  | flush =>
    obtain ⟨content, hcarries, hlists⟩ := h.content
    exact ⟨⟨content, Journal.carries_flush hcarries, hlists⟩, h.idle, h.compacting⟩
  | begin hbegin => exact h.begin hbegin
  | finish hmemory hfinish => exact h.finish hmemory hfinish
  | obstruct hfinish => exact h.obstruct hfinish
  | abandon hphase error =>
    exact h.settled fun content hcarries => Journal.settled_abandon hcarries error
  | reopen hopen => exact h.reopen hopen
  | disturb hwf hlog =>
    obtain ⟨content, ⟨-, l, bytes, hholds, hcontent⟩, hlists⟩ := h.content
    exact ⟨⟨content, ⟨hwf, l, bytes, hlog l bytes hholds, hcontent⟩, hlists⟩, h.idle, h.compacting⟩

/-- **Every run**, by induction on it. -/
theorem Kept.run (h : r.Kept) (hrun : Relation.ReflTransGen Step r r') : r'.Kept := by
  induction hrun with
  | refl => exact h
  | tail _ hstep ih => exact ih.step hstep

end JournalRun

/-! ## §3. What every log holds. -/

/-- However a compaction ends, the log is idle after it. -/
theorem Journal.phase_finishCompaction (j : Journal) (d : Disk) (s : Snapshot) :
    (j.finishCompaction d s).2.1.phase = .idle := by
  unfold finishCompaction
  cases hphase : j.phase with
  | idle => exact hphase
  | compacting =>
    dsimp only
    split
    · rfl
    · split
      · rfl
      · split <;> rfl

/-- **A log keeps every record in order and under its own database.**  After any
run its content decodes completely, to the commands of the last snapshot and
the records appended since.  It is in a compaction from when that begins until
it ends or the log is closed, and only then can a compaction be ended, and only
else be begun. -/
theorem log_keeps_order {d disk : Disk} {path : Path} {j : Journal} (hwf : d.WellFormed)
    (hempty : (d.bytes? path).getD [] = []) (hopen : Journal.open? d path = .ok (disk, j))
    {r : JournalRun} (hrun : Relation.ReflTransGen JournalRun.Step (.opened disk j) r)
    (now : Millis) :
    ((Wire.decodeAll (r.journal.content r.disk)).rest = []
        ∧ (Wire.decodeAll (r.journal.content r.disk)).fault = none
        ∧ Command.attributed now none (Wire.decodeAll (r.journal.content r.disk)).commands
          = Command.placed r.writes)
      ∧ (r.journal.phase = .compacting ↔ r.during.isSome = true)
      ∧ (r.journal.phase = .compacting →
        r.journal.beginCompaction = .error .compactionInProgress)
      ∧ (r.journal.phase = .idle → (∃ j', r.journal.beginCompaction = .ok j')
        ∧ ∀ s, r.journal.finishCompaction r.disk s = (r.disk, r.journal, .error .notCompacting))
      ∧ (∀ s, (r.journal.finishCompaction r.disk s).2.1.phase = .idle)
      ∧ ∃ reopened, Journal.open? (r.journal.close r.disk) r.journal.path = .ok reopened := by
  have hkept := (JournalRun.kept_opened hwf hempty hopen).run hrun
  obtain ⟨content, hcarries, hlists⟩ := hkept.content
  obtain ⟨handle, hreopen, -⟩ := Journal.open?_close hcarries
  refine ⟨?_, hkept.phase_iff, ?_, ?_, fun s => r.journal.phase_finishCompaction r.disk s,
    _, hreopen⟩
  · rw [Journal.content_eq hcarries]
    exact hlists.decodeAll now
  · intro hphase
    unfold Journal.beginCompaction
    rw [hphase]
  · intro hphase
    constructor
    · exact ⟨{ r.journal with phase := .compacting, side := [], selected := none }, by
        unfold Journal.beginCompaction
        rw [hphase]⟩
    · intro s
      unfold Journal.finishCompaction
      rw [hphase]

/-- A snapshot with one key in database 1. -/
def keySnapshot : Snapshot :=
  ⟨50, [[], [(Bytes.ofString "k", ⟨.string (Bytes.ofString "v"), none, 50⟩)]]⟩

/-- A log on an empty disk. -/
def freshRun : JournalRun :=
  .opened (Disk.ofLog []) ⟨Bytes.ofString "appendonly.aof", Writer.ofHandle ⟨0⟩, none, .idle, []⟩

/-- A run with one more record appended. -/
def JournalRun.logging (r : JournalRun) (database : Nat) (command : Command) : JournalRun :=
  let (d, j) := r.journal.log r.disk database command
  { r with
    disk := d
    journal := j
    appended := r.appended ++ [(database, command)]
    during := r.during.map (· ++ [(database, command)]) }

/-- A compaction begins behind a record, another database is written to during it, and it ends
well with a snapshot. -/
def keyRun : JournalRun :=
  let r := freshRun.logging 1 (writeOf "v")
  let j := { r.journal with phase := .compacting, side := [], selected := none }
  let r := JournalRun.logging { r with journal := j, during := some [] } 0 (writeOf "w")
  let (d, j, _) := r.journal.finishCompaction r.disk keySnapshot
  ⟨d, j, some keySnapshot, [(0, writeOf "w")], none⟩

/-- A record before a compaction, one during it in another database, and one after it:
the first is in the snapshot, and the last is in the database of the snapshot. -/
theorem log_keeps_order_keySnapshot :
    Relation.ReflTransGen JournalRun.Step freshRun keyRun
      ∧ Relation.ReflTransGen JournalRun.Step keyRun (keyRun.logging 1 (writeOf "x"))
      ∧ keyRun.base = some keySnapshot
      ∧ (keyRun.logging 1 (writeOf "x")).journal.phase = .idle
      ∧ Command.attributed 50 none
          (Wire.decodeAll ((keyRun.logging 1 (writeOf "x")).journal.content
            (keyRun.logging 1 (writeOf "x")).disk)).commands
        = [(some 1, writeOf "v"), (some 0, writeOf "w"), (some 1, writeOf "x")] := by
  have hopen : Journal.open? Disk.empty (Bytes.ofString "appendonly.aof")
      = .ok (Disk.ofLog [], freshRun.journal) := rfl
  have hmemory : keySnapshot.InMemory := ⟨by decide, by decide, by decide⟩
  have hcompacted : Relation.ReflTransGen JournalRun.Step freshRun keyRun :=
    .tail (.tail (.tail (.tail .refl
      (.append (show 1 < Bytes.u64Bound by decide) (not_selects_writeOf "v")
        (fits_writeOf (by decide)))) (.begin rfl))
      (.append (show 0 < Bytes.u64Bound by decide) (not_selects_writeOf "w")
        (fits_writeOf (by decide)))) (.finish hmemory rfl)
  have hlast : Relation.ReflTransGen JournalRun.Step keyRun (keyRun.logging 1 (writeOf "x")) :=
    .single (.append (show 1 < Bytes.u64Bound by decide) (not_selects_writeOf "x")
      (fits_writeOf (by decide)))
  exact ⟨hcompacted, hlast, rfl, rfl,
    (log_keeps_order Disk.wellFormed_empty rfl hopen (hcompacted.trans hlast) 50).1.2.2⟩

end DurableStore
