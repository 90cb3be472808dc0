/-
  DurableStore.Proofs.Journal.Content
  ────────────────────────────────
  **WHAT A LOG HOLDS.**

  The content of a log is what its file holds and what its writer has
  collected, in this order.  It does not show when the writer writes out:

      w.Carries d path content   — the file at the path is the writer's, and
                                   with the collected bytes it is the content

  A record is added at the end of the content, and during a compaction at
  the end of the side buffer (`wrote_append`).  A compaction that ends well
  puts the reconstruction and the side buffer in place of the content; one
  that is obstructed, wherever that happens, leaves the content as it was
  (`finishCompaction_spec`, `settled_abandon`).  A log that is closed and
  opened again holds what it held (`open?_close`).
-/
import DurableStore.Journal.Basic
import DurableStore.Proofs.Command.Stream
import DurableStore.Proofs.Storage.LogFile

namespace DurableStore

/-! ## §1. Writers. -/

/-- The file at a path is the one that a writer writes to, and the content is
what the file holds and then what the writer has collected. -/
structure Writer.Carries (w : Writer) (d : Disk) (path : Path) (content : Bytes) : Prop where
  wellFormed : d.WellFormed
  file : ∃ l bytes, d.Holds path l w.handle.id bytes ∧ bytes ++ w.pending = content

namespace Writer

variable {w : Writer} {d : Disk} {path : Path} {content : Bytes}

/-- Nothing is collected: the file holds the content. -/
theorem Carries.flush (h : w.Carries d path content) :
    (w.flush d).1.WellFormed ∧ ∃ l, (w.flush d).1.Holds path l w.handle.id content := by
  obtain ⟨l, bytes, hholds, rfl⟩ := h.file
  obtain ⟨hchange, hafter⟩ := Disk.append_spec h.wellFormed hholds w.pending
  exact ⟨hchange.wellFormed h.wellFormed, l, hafter⟩

theorem carries_of_holds {l : Location} {handle : Handle} (hwf : d.WellFormed)
    (h : d.Holds path l handle.id content) : (ofHandle handle).Carries d path content :=
  ⟨hwf, l, content, h, List.append_nil content⟩

theorem carries_flush (h : w.Carries d path content) :
    (w.flush d).2.Carries (w.flush d).1 path content := by
  obtain ⟨hwf, l, hholds⟩ := h.flush
  exact ⟨hwf, l, content, hholds, List.append_nil content⟩

theorem carries_collect (h : w.Carries d path content) (record : Bytes) :
    (w.collect record).Carries d path (content ++ record) := by
  obtain ⟨l, bytes, hholds, rfl⟩ := h.file
  exact ⟨h.wellFormed, l, bytes, hholds, (List.append_assoc _ _ _).symm⟩

/-- Bytes may pass by the buffer when nothing is in it. -/
theorem carries_append (h : w.Carries d path content) (hempty : w.pending = []) (record : Bytes) :
    w.Carries (d.append w.handle record) path (content ++ record) := by
  obtain ⟨l, bytes, hholds, rfl⟩ := h.file
  obtain ⟨hchange, hafter⟩ := Disk.append_spec h.wellFormed hholds record
  refine ⟨hchange.wellFormed h.wellFormed, l, bytes ++ record, hafter, ?_⟩
  rw [hempty, List.append_nil, List.append_nil]

/-- **The order of bytes is never changed.** -/
theorem carries_write (h : w.Carries d path content) (record : Bytes) :
    (w.write d record).2.Carries (w.write d record).1 path (content ++ record)
      ∧ (w.write d record).2.handle = w.handle := by
  unfold write
  dsimp only
  split
  · exact ⟨carries_collect h record, rfl⟩
  · rename_i hfull
    by_cases hspare : capacity - w.pending.length < record.length
    · -- what was collected goes first
      rw [if_pos hspare]
      split
      · exact ⟨carries_append (carries_flush h) rfl record, rfl⟩
      · exact ⟨carries_collect (carries_flush h) record, rfl⟩
    · rw [if_neg hspare]
      split
      · -- a record of the size of the buffer fits only into an empty one
        rename_i hlarge
        have hempty : w.pending = [] := by
          refine List.eq_nil_of_length_eq_zero ?_
          have hcapacity : 0 < capacity := by decide
          omega
        exact ⟨carries_append h hempty record, rfl⟩
      · exact ⟨carries_collect h record, rfl⟩

end Writer

/-! ## §2. Appending. -/

namespace Journal

variable {j : Journal} {d : Disk} {content : Bytes}

/-- The log of a journal is at its path and holds some content. -/
def Carries (j : Journal) (d : Disk) (content : Bytes) : Prop := j.writer.Carries d j.path content

theorem content_eq (h : j.Carries d content) : j.content d = content := by
  obtain ⟨l, bytes, hholds, hcontent⟩ := h.file
  unfold Journal.content
  rw [Disk.bytes?_of_holds hholds]
  exact hcontent

/-- What a journal is after bytes were added to the content. -/
structure Wrote (j : Journal) (content bytes : Bytes) (selected : Option Nat)
    (outcome : Disk × Journal) : Prop where
  carries : outcome.2.Carries outcome.1 (content ++ bytes)
  path : outcome.2.path = j.path
  selected : outcome.2.selected = selected
  phase : outcome.2.phase = j.phase
  side : outcome.2.side = if j.phase = .compacting then j.side ++ bytes else j.side

theorem wrote_write (h : j.Carries d content) (bytes : Bytes) :
    j.Wrote content bytes j.selected (j.write d bytes) := by
  obtain ⟨hcarries, -⟩ := Writer.carries_write h bytes
  exact ⟨hcarries, rfl, rfl, rfl, rfl⟩

theorem wrote_select (h : j.Carries d content) (database : Nat) :
    j.Wrote content (Command.selection j.selected database) (some database) (j.select d database) := by
  unfold select Command.selection
  split
  · -- the log is in that database already
    rename_i hsame
    refine ⟨?_, rfl, hsame, rfl, ?_⟩
    · rw [List.append_nil]
      exact h
    · rw [List.append_nil]
      exact (ite_self _).symm
  · obtain ⟨hcarries, hpath, -, hphase, hside⟩ :=
      wrote_write h (Wire.encode (Command.selecting database))
    exact ⟨hcarries, hpath, rfl, hphase, hside⟩

/-- **A record is added at the end.** -/
theorem wrote_append (h : j.Carries d content) (database : Nat) (record : Bytes) :
    j.Wrote content (Command.selection j.selected database ++ record) (some database)
      (j.append d database record) := by
  have hselect := wrote_select h database
  have hwrite := wrote_write hselect.carries record
  unfold append
  refine ⟨?_, hwrite.path.trans hselect.path, hwrite.selected.trans hselect.selected,
    hwrite.phase.trans hselect.phase, ?_⟩
  · rw [← List.append_assoc]
    exact hwrite.carries
  · have hside := hwrite.side
    rw [hselect.phase, hselect.side] at hside
    rw [hside]
    split
    · rw [List.append_assoc]
    · rfl

theorem carries_flush (h : j.Carries d content) : (j.flush d).2.Carries (j.flush d).1 content :=
  Writer.carries_flush h

/-! ## §3. Compaction. -/

/-- What a journal is after a compaction, however that ended. -/
structure Settles (j : Journal) (content : Bytes) (disk : Disk) (after : Journal) : Prop where
  carries : after.Carries disk content
  path : after.path = j.path
  selected : after.selected = j.selected
  phase : after.phase = .idle

/-- **A compaction that is given up leaves the content as it was.** -/
theorem settled_abandon (h : j.Carries d content) (error : DiskError) :
    j.Settles content (j.abandon d error).1 (j.abandon d error).2.1 := by
  obtain ⟨l, bytes, hholds, hcontent⟩ := h.file
  refine ⟨?_, rfl, rfl, rfl⟩
  show j.writer.Carries (d.discard j.path.temporary) j.path content
  -- the file that is removed has another place than the log
  obtain ⟨hwf, hkept⟩ := hholds.discard fun k => Disk.ne_of_place?_temporary hholds.place
  exact ⟨hwf h.wellFormed, l, bytes, hkept, hcontent⟩

/-- Once the new content stands beside the log, nothing obstructs the compaction. -/
theorem finishCompaction_of_write {d₁ : Disk} {k l : Location} {id old : Nat}
    {bytes before : Bytes} {s : Snapshot} (hphase : j.phase = .compacting)
    (hwrite : d.write j.path.temporary (j.compacted s) = .ok d₁)
    (hbeside : (j.flush d₁).1.Holds j.path.temporary k id bytes)
    (hlog : (j.flush d₁).1.Holds j.path l old before) (hne : k ≠ l) :
    ∃ d₂, j.finishCompaction d s = (d₂, { j.settled with writer := Writer.ofHandle ⟨id⟩ }, .ok ())
      ∧ d₂.Holds j.path l id bytes ∧ Disk.SameDirectories (j.flush d₁).1 d₂
      ∧ ((j.flush d₁).1.WellFormed → d₂.WellFormed) := by
  obtain ⟨d₂, hrename, hrenamed, hsame, hwf⟩ := Disk.rename_spec hbeside hlog hne
  refine ⟨d₂, ?_, hrenamed, hsame, hwf⟩
  unfold finishCompaction
  rw [hphase]
  dsimp only
  rw [hwrite]
  have hopen : (j.flush d₁).1.openAppend (j.flush d₁).2.path.temporary
      = .ok ((j.flush d₁).1, ⟨id⟩) := Disk.openAppend_of_holds hbeside
  dsimp only
  rw [hopen]
  dsimp only
  rw [show (j.flush d₁).2.path = j.path from rfl, hrename]
  rfl

/-- A compaction is obstructed where the new content cannot be written. -/
theorem finishCompaction_of_error {error : DiskError} {s : Snapshot}
    (hphase : j.phase = .compacting)
    (hwrite : d.write j.path.temporary (j.compacted s) = .error error) :
    j.finishCompaction d s = j.abandon d error := by
  unfold finishCompaction
  rw [hphase]
  dsimp only
  rw [hwrite]

/-- **A compaction ends well** once the new content could be written, and only files have
changed then. -/
theorem finishCompaction_ok (h : j.Carries d content) (hphase : j.phase = .compacting)
    {s : Snapshot} {d₁ : Disk} (hwrite : d.write j.path.temporary (j.compacted s) = .ok d₁) :
    ∃ d₂ id, j.finishCompaction d s
        = (d₂, { j.settled with writer := Writer.ofHandle ⟨id⟩ }, .ok ())
      ∧ (Writer.ofHandle ⟨id⟩).Carries d₂ j.path (j.compacted s) ∧ Disk.SameDirectories d d₂ := by
  -- the new content stands beside the log, and stays there while the log is written out
  obtain ⟨l, bytes, hholds, -⟩ := h.file
  obtain ⟨k, id, hplace, hwritten, htemporary⟩ := Disk.write_spec hwrite
  have hne := Disk.ne_of_place?_temporary hholds.place hplace
  have hwf := hwritten.wellFormed h.wellFormed
  obtain ⟨hflushed, hlog⟩ :=
    Disk.append_spec hwf (hholds.elsewhere hwritten hne) j.writer.pending
  obtain ⟨d₂, hfinish, hrenamed, hsame, hwf₂⟩ :=
    finishCompaction_of_write hphase hwrite (htemporary.elsewhere hflushed hne.symm) hlog hne
  exact ⟨d₂, id, hfinish, Writer.carries_of_holds (hwf₂ (hflushed.wellFormed hwf)) hrenamed,
    hwritten.same.trans (hflushed.same.trans hsame)⟩

/-- **How a compaction ends**: the new content is there, or the old one is. -/
theorem finishCompaction_spec (h : j.Carries d content) (hphase : j.phase = .compacting)
    (s : Snapshot) :
    ((j.finishCompaction d s).2.2 = .ok ()
        ∧ j.Settles (j.compacted s) (j.finishCompaction d s).1 (j.finishCompaction d s).2.1)
      ∨ ∃ error, (j.finishCompaction d s).2.2 = .error (.disk error)
        ∧ j.Settles content (j.finishCompaction d s).1 (j.finishCompaction d s).2.1 := by
  cases hwrite : d.write j.path.temporary (j.compacted s) with
  | error error =>
    rw [finishCompaction_of_error hphase hwrite]
    exact .inr ⟨error, rfl, settled_abandon h error⟩
  | ok d₁ =>
    obtain ⟨d₂, id, hfinish, hcarries, -⟩ := finishCompaction_ok h hphase hwrite
    rw [hfinish]
    exact .inl ⟨rfl, hcarries, rfl, rfl, rfl⟩

/-- A log that is compacted at once has nothing in its side buffer. -/
theorem compact_eq (hphase : j.phase = .idle) (d : Disk) (s : Snapshot) :
    j.compact d s = Journal.finishCompaction
      { j with phase := .compacting, side := [], selected := none } d s := by
  unfold compact beginCompaction
  rw [hphase]

/-- **A log that was compacted** is the reconstruction, and only files have changed. -/
theorem compact_spec (h : j.Carries d content) (hphase : j.phase = .idle) {s : Snapshot}
    (hok : (j.compact d s).2.2 = .ok ()) :
    (j.compact d s).2.1.Carries (j.compact d s).1 s.reconstructionBytes
      ∧ (j.compact d s).2.1.path = j.path ∧ Disk.SameDirectories d (j.compact d s).1 := by
  rw [compact_eq hphase] at hok ⊢
  cases hwrite : d.write j.path.temporary (s.reconstructionBytes ++ []) with
  | error error =>
    rw [finishCompaction_of_error
      (j := { j with phase := .compacting, side := [], selected := none }) rfl hwrite] at hok
    cases hok
  | ok d₁ =>
    obtain ⟨d₂, id, hfinish, hcarries, hsame⟩ := finishCompaction_ok
      (j := { j with phase := .compacting, side := [], selected := none }) h rfl hwrite
    have hbytes : Journal.compacted { j with phase := .compacting, side := [], selected := none } s
        = s.reconstructionBytes := List.append_nil _
    rw [hbytes] at hcarries
    rw [hfinish]
    exact ⟨hcarries, rfl, hsame⟩

/-- **A log with nothing collected** is compacted, or the disk stays as it was. -/
theorem compact_cases {l : Location} {bytes : Bytes} (hphase : j.phase = .idle)
    (hpending : j.writer.pending = []) (hholds : d.Holds j.path l j.writer.handle.id bytes)
    (s : Snapshot) :
    (j.compact d s).2.2 = .ok ()
      ∨ ∃ error after, j.compact d s = (d, after, .error error) ∧ after.close d = d := by
  have hclose : ∀ handle : Handle, d.append handle j.writer.pending = d := by
    intro handle
    rw [hpending, Disk.append_nil]
  rw [compact_eq hphase]
  cases hwrite : d.write j.path.temporary (s.reconstructionBytes ++ []) with
  | error error =>
    rw [finishCompaction_of_error
      (j := { j with phase := .compacting, side := [], selected := none }) rfl hwrite]
    unfold abandon
    dsimp only
    rw [Disk.discard_of_write_error hwrite]
    -- nothing was written, and nothing waits to be
    exact .inr ⟨_, _, rfl, hclose _⟩
  | ok d₁ =>
    obtain ⟨k, id, hplace, hwritten, htemporary⟩ := Disk.write_spec hwrite
    have hne := Disk.ne_of_place?_temporary hholds.place hplace
    -- nothing waits to be written, so the log is as it was when it is replaced
    have hflush : (d₁.append j.writer.handle j.writer.pending) = d₁ := by
      rw [hpending, Disk.append_nil]
    obtain ⟨d₂, hfinish, -, -, -⟩ := finishCompaction_of_write (d := d) (s := s)
      (j := { j with phase := .compacting, side := [], selected := none }) rfl hwrite
      (hflush.symm ▸ htemporary) (hflush.symm ▸ hholds.elsewhere hwritten hne) hne
    rw [hfinish]
    exact .inl rfl

/-! ## §4. Opening and closing. -/

/-- **A log that is closed** has its content in its file, and only that file has changed. -/
theorem holds_close (h : j.Carries d content) :
    ∃ l, (j.close d).Holds j.path l j.writer.handle.id content
      ∧ Disk.SameDirectories d (j.close d) := by
  obtain ⟨l, bytes, hholds, rfl⟩ := h.file
  obtain ⟨hchange, hafter⟩ := Disk.append_spec h.wellFormed hholds j.writer.pending
  exact ⟨l, hafter, hchange.same⟩

/-- **A log that is closed and opened again holds what it held.** -/
theorem open?_close (h : j.Carries d content) :
    ∃ handle, Journal.open? (j.close d) j.path
        = .ok (j.close d, ⟨j.path, Writer.ofHandle handle, none, .idle, []⟩)
      ∧ (⟨j.path, Writer.ofHandle handle, none, .idle, []⟩ : Journal).Carries (j.close d) content
      ∧ (j.close d).find j.path = .ok (.file handle.id content) := by
  obtain ⟨hwf, l, hholds⟩ := Writer.Carries.flush h
  refine ⟨j.writer.handle, ?_, Writer.carries_of_holds hwf hholds, Disk.find_of_holds hholds⟩
  have hopen := Disk.openAppend_of_holds hholds
  unfold Journal.open?
  rw [show j.close d = (j.writer.flush d).1 from rfl, hopen]
  rfl

/-- A log that is opened has a place, and nothing else has changed. -/
theorem open?_place {disk : Disk} {path : Path} (hopen : Journal.open? d path = .ok (disk, j)) :
    ∃ l, d.place? path = .ok l ∧ Disk.ChangesAt d disk l := by
  unfold Journal.open? at hopen
  obtain ⟨⟨d', handle⟩, hfile, hopen⟩ := exists_of_bind hopen
  cases hopen
  obtain ⟨l, hplace, -, hchange⟩ := Disk.openAppend_spec hfile
  exact ⟨l, hplace, hchange⟩

/-- **A log that is opened** holds what its file holds. -/
theorem open?_spec {disk : Disk} {path : Path} (hwf : d.WellFormed)
    (hopen : Journal.open? d path = .ok (disk, j)) :
    j.Carries disk ((d.bytes? path).getD []) ∧ j.path = path ∧ j.selected = none
      ∧ j.phase = .idle := by
  unfold Journal.open? at hopen
  obtain ⟨⟨d', handle⟩, hfile, hopen⟩ := exists_of_bind hopen
  cases hopen
  obtain ⟨l, hplace, hholds, hchange⟩ := Disk.openAppend_spec hfile
  exact ⟨Writer.carries_of_holds (hchange.wellFormed hwf) hholds, rfl, rfl, rfl⟩

/-- A log that is new is empty. -/
theorem open?_absent {disk : Disk} {path : Path} (hwf : d.WellFormed)
    (habsent : d.bytes? path = none) (hopen : Journal.open? d path = .ok (disk, j)) :
    j.Carries disk [] ∧ j.path = path ∧ j.selected = none ∧ j.phase = .idle := by
  have hspec := open?_spec hwf hopen
  rw [habsent] at hspec
  exact hspec

end Journal

end DurableStore
