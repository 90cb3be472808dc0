/-
  DurableStore.Proofs.Command.Stream
  ────────────────────────────────
  **RECORDS AS BYTES.**

  What a log and a replication stream hold are the records in wire form,
  one after the other.  The reader takes the commands out of the bytes
  again and applies them:

      s.Yields bytes now count c selected   — the bytes are records, and a
          session `s` that applies them stands at the contents `c`

  A write that is recorded adds its bytes at the end and its effect to the
  contents (`Yields.record`).  Whoever reads the bytes gets the records
  back, wherever the bytes are cut (`Yields.replay`, `Yields.decode`).
-/
import DurableStore.Journal.Replay
import DurableStore.Proofs.Command.Lockstep
import DurableStore.Proofs.Wire.RoundTrip

namespace DurableStore

/-! ## §1. The bytes of a record. -/

namespace Command

/-- The bytes that go before a command of a database. -/
def selection (selected : Option Nat) (database : Nat) : Bytes :=
  if selected = some database then [] else Wire.encode (selecting database)

theorem flatMap_records (command : Command) (selected : Option Nat) (database : Nat) :
    (command.records selected database).flatMap Wire.encode
      = selection selected database ++ Wire.encode command := by
  unfold records selection
  rw [List.flatMap_append, List.flatMap_singleton]
  split
  · rfl
  · rw [List.flatMap_singleton]

end Command

namespace Wire

theorem fits_of_short {name : String} {args : List Bytes}
    (hname : (Bytes.ofString name).length < lengthBound) (hcount : args.length ≤ 3)
    (hargs : ∀ arg ∈ args, arg.length < lengthBound) : Fits (Bytes.ofString name :: args) := by
  refine ⟨?_, List.forall_mem_cons.2 ⟨hname, hargs⟩⟩
  have hbound : 4 < lengthBound := by decide
  rw [List.length_cons]
  omega

theorem fits_selecting {database : Nat} (h : database < Bytes.u64Bound) :
    Fits (Command.selecting database) :=
  fits_of_short (by decide) (Nat.le_add_left 1 2)
    (List.forall_mem_singleton.2 (Bytes.length_ofNat_lt h))

theorem fits_of_mem_records {command : Command} (h : Fits command) {selected : Option Nat}
    {database : Nat} (hdatabase : database < Bytes.u64Bound) :
    ∀ record ∈ command.records selected database, Fits record := by
  intro record hrecord
  rcases List.mem_append.1 hrecord with hselect | hcommand
  · split at hselect
    · exact absurd hselect List.not_mem_nil
    · rw [List.mem_singleton.1 hselect]
      exact fits_selecting hdatabase
  · rw [List.mem_singleton.1 hcommand]
    exact h

end Wire

/-! ## §2. Sessions that apply what the bytes hold. -/

namespace Session

/-- Some bytes are records, and a session that applies them stands at some
contents. -/
def Yields (s : Session) (bytes : Bytes) (now : Millis) (count : Nat) (c : Contents)
    (selected : Option Nat) : Prop :=
  ∃ commands : List Command, bytes = commands.flatMap Wire.encode
    ∧ (∀ command ∈ commands, Wire.Fits command)
    ∧ (s.applyAll commands).1.Stands now count c selected

namespace Yields

variable {s : Session} {bytes : Bytes} {now : Millis} {count : Nat} {c : Contents}
  {selected : Option Nat}

theorem nil (h : s.Stands now count c selected) : s.Yields [] now count c selected :=
  ⟨[], rfl, (fun _ hmem => absurd hmem List.not_mem_nil), h⟩

theorem forget (h : s.Yields bytes now count c selected) : s.Yields bytes now count c none := by
  obtain ⟨commands, hbytes, hfits, hstands⟩ := h
  exact ⟨commands, hbytes, hfits, hstands.forget⟩

/-- **A recorded write is repeated.** -/
theorem record (h : s.Yields bytes now count c selected) {database : Nat}
    (hdatabase : database < count) {command : Command} (hselect : ¬ command.Selects)
    (hfits : Wire.Fits command) (hmeaning : command.meaning now count (c database) ≠ .refused) :
    s.Yields (bytes ++ (Command.selection selected database ++ Wire.encode command)) now count
      ((command.meaning now count (c database)).on database now c) (some database) := by
  obtain ⟨commands, rfl, hall, hstands⟩ := h
  have hbound : database < Bytes.u64Bound := by
    rw [← hstands.count_eq] at hdatabase
    exact Nat.lt_trans hdatabase hstands.regular.count
  refine ⟨commands ++ command.records selected database, ?_, ?_, ?_⟩
  · rw [List.flatMap_append, Command.flatMap_records]
  · exact List.forall_mem_append.2 ⟨hall, Wire.fits_of_mem_records hfits hbound⟩
  · rw [applyAll_append]
    exact hstands.records hdatabase hselect hmeaning

/-- **A log that is replayed yields what it records.** -/
theorem replay (h : s.Yields bytes now count c selected) :
    (s.applyAll (Replay.ofBytes bytes).commands).1.Stands now count c selected := by
  obtain ⟨commands, rfl, hfits, hstands⟩ := h
  have hread := Replay.ofBytes_flatMap hfits Wire.isPartial_nil
  rw [List.append_nil] at hread
  rw [hread]
  show (s.applyAll (commands.filter fun command => !command.isEmpty)).1.Stands now count c selected
  rw [applyAll_filter]
  exact hstands

theorem not_truncated (h : s.Yields bytes now count c selected) :
    (Replay.ofBytes bytes).truncated = false := by
  obtain ⟨commands, rfl, hfits, -⟩ := h
  have hread := Replay.ofBytes_flatMap hfits Wire.isPartial_nil
  rw [List.append_nil] at hread
  rw [hread]
  rfl

/-- A session that has nothing left to apply stands at the contents. -/
theorem of_nil (h : s.Yields [] now count c selected) : s.Stands now count c selected := by
  obtain ⟨commands, hbytes, -, hstands⟩ := h
  cases commands with
  | nil => exact hstands
  | cons command commands =>
    rw [List.flatMap_cons] at hbytes
    exact absurd (List.append_eq_nil_iff.1 hbytes.symm).1 (Wire.encode_ne_nil command)

/-- **The command that is read first is the first record**, however little of the
rest is there. -/
theorem decode {front back : Bytes} (h : s.Yields (front ++ back) now count c selected)
    {command : Command} {rest : Bytes} (hdecode : Wire.decode front = .done command rest) :
    front = Wire.encode command ++ rest
      ∧ (s.apply command).1.Yields (rest ++ back) now count c selected := by
  obtain ⟨commands, hbytes, hfits, hstands⟩ := h
  cases commands with
  | nil =>
    rw [(List.append_eq_nil_iff.1 hbytes).1] at hdecode
    cases hdecode
  | cons first commands =>
    obtain ⟨hfirst, hcommands⟩ := List.forall_mem_cons.1 hfits
    have hreads := Wire.reads_decode hfirst
    rw [List.flatMap_cons] at hbytes
    obtain ⟨after, hfront, hafter⟩ : ∃ after, front = Wire.encode first ++ after
        ∧ commands.flatMap Wire.encode = after ++ back := by
      rcases List.append_eq_append_iff.1 hbytes with ⟨after, hencode, hback⟩ | ⟨after, hfront, hafter⟩
      · -- a record of which some bytes are missing is not read
        by_cases hwhole : front = Wire.encode first
        · have hnil : after = [] := by
            rw [hwhole] at hencode
            exact List.append_right_eq_self.1 hencode.symm
          rw [hnil] at hback
          exact ⟨[], by rw [hwhole, List.append_nil], hback.symm⟩
        · rw [hreads.part front ⟨after, hencode.symm⟩ hwhole] at hdecode
          cases hdecode
      · exact ⟨after, hfront, hafter⟩
    rw [hfront, hreads.whole after] at hdecode
    cases hdecode
    exact ⟨hfront, commands, hafter.symm, hcommands, hstands⟩

/-- **Whoever reads all the bytes gets all the records.** -/
theorem decodeAll (h : s.Yields bytes now count c selected) :
    (Wire.decodeAll bytes).rest = [] ∧ (Wire.decodeAll bytes).fault = none
      ∧ (s.applyAll (Wire.decodeAll bytes).commands).1.Stands now count c selected := by
  obtain ⟨commands, rfl, hfits, hstands⟩ := h
  have hread := Wire.decodeAll_flatMap hfits Wire.isPartial_nil
  rw [List.append_nil] at hread
  rw [hread]
  exact ⟨rfl, rfl, hstands⟩

end Yields

end Session

end DurableStore
