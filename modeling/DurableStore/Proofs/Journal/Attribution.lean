/-
  DurableStore.Proofs.Journal.Attribution
  ────────────────────────────────
  **WHICH DATABASE A COMMAND OF A LOG BELONGS TO.**

  A log does not say of a command which database it belongs to.  It says so
  once, by a `SELECT`, for all commands up to the next one:

      attributed now named commands  — the commands that are no `SELECT`,
                                       each with the database of the
                                       nearest `SELECT` before it
      Lists bytes writes selected    — the bytes of a log attribute to each
                                       database its own commands, in order

  A log that is written by `Command.selection` lists what was written to it,
  whatever it held before, as long as the database is known that it ends in
  (`Lists.record`).  The reconstruction of a snapshot lists the commands of
  each of its databases (`lists_rebuilt`).
-/
import DurableStore.Proofs.Engine.Selection
import DurableStore.Proofs.Journal.Rebuild

namespace DurableStore

/-! ## §1. Attribution. -/

namespace Command

/-- The commands that select no database, each with the database that the nearest
`SELECT` before it names. -/
def attributed (now : Millis) : Option Nat → List Command → List (Option Nat × Command)
  | _, [] => []
  | named, command :: commands =>
    if command.Selects then attributed now (command.naming now named) commands
    else (named, command) :: attributed now named commands

/-- Commands with the databases that they belong to. -/
def placed (writes : List (Nat × Command)) : List (Option Nat × Command) :=
  writes.map fun w => (some w.1, w.2)

theorem placed_append (as bs : List (Nat × Command)) : placed (as ++ bs) = placed as ++ placed bs :=
  List.map_append

variable (now : Millis)

/-- A part of a log is attributed from the database that the part before it ends in. -/
theorem attributed_append (named : Option Nat) (as bs : List Command) :
    attributed now named (as ++ bs)
      = attributed now named as ++ attributed now (as.foldl (naming now) named) bs := by
  induction as generalizing named with
  | nil => rfl
  | cons command as ih =>
    rw [List.cons_append, attributed, attributed, List.foldl_cons]
    by_cases hselect : command.Selects
    · rw [if_pos hselect, if_pos hselect, ih]
    · have hnamed : command.naming now named = named := if_neg hselect
      rw [if_neg hselect, if_neg hselect, ih, hnamed, List.cons_append]

theorem selects_selecting (database : Nat) : (selecting database).Selects := ofName?_select

theorem naming_selecting {database : Nat} (h : database < Bytes.u64Bound) (named : Option Nat) :
    (selecting database).naming now named = some database := by
  unfold naming
  rw [if_pos (selects_selecting database), action_selecting now h]

/-- Commands that select no database all belong to the one that is named. -/
theorem attributed_of_not_selects {commands : List Command}
    (h : ∀ command ∈ commands, ¬ command.Selects) (named : Option Nat) :
    attributed now named commands = commands.map fun command => (named, command) := by
  induction commands with
  | nil => rfl
  | cons command commands ih =>
    obtain ⟨hfirst, hrest⟩ := List.forall_mem_cons.1 h
    rw [attributed, if_neg hfirst, ih hrest, List.map_cons]

/-- Such commands name nothing either. -/
theorem foldl_naming_of_not_selects {commands : List Command}
    (h : ∀ command ∈ commands, ¬ command.Selects) (named : Option Nat) :
    commands.foldl (naming now) named = named := by
  induction commands with
  | nil => rfl
  | cons command commands ih =>
    obtain ⟨hfirst, hrest⟩ := List.forall_mem_cons.1 h
    rw [List.foldl_cons, show command.naming now named = named from if_neg hfirst, ih hrest]

/-- **The records of a write** attribute it to its database, and leave that named,
wherever the log has selected what it says. -/
theorem attributed_records {command : Command} (hselect : ¬ command.Selects) {database : Nat}
    (h : database < Bytes.u64Bound) {selected named : Option Nat}
    (hnamed : ∀ i, selected = some i → named = some i) :
    attributed now named (command.records selected database) = [(some database, command)]
      ∧ (command.records selected database).foldl (naming now) named = some database := by
  unfold records
  by_cases hsame : selected = some database
  · have hone : ∀ c ∈ [command], ¬ c.Selects := by
      intro c hc
      rw [List.mem_singleton.1 hc]
      exact hselect
    rw [if_pos hsame, List.nil_append, hnamed database hsame]
    exact ⟨attributed_of_not_selects now hone _, foldl_naming_of_not_selects now hone _⟩
  · rw [if_neg hsame]
    show attributed now named [selecting database, command] = _
      ∧ command.naming now ((selecting database).naming now named) = _
    rw [naming_selecting now h]
    refine ⟨?_, if_neg hselect⟩
    rw [attributed, if_pos (selects_selecting database), naming_selecting now h, attributed,
      if_neg hselect]
    rfl

end Command

/-! ## §2. Snapshots. -/

namespace Snapshot

/-- The commands that rebuild a snapshot, each with its database. -/
def rebuilt (s : Snapshot) : List (Nat × Command) :=
  s.liveDatabases.flatMap fun d =>
    (d.2.flatMap fun p => p.2.commands p.1).map fun command => (d.1, command)

/-- Memory holds a snapshot: its databases have an index, and its byte strings a
length. -/
structure InMemory (s : Snapshot) : Prop where
  databases : s.databases.length < Bytes.u64Bound
  keys : ∀ entries ∈ s.databases, ∀ p ∈ entries, p.1.length < lengthBound
  strings : ∀ entries ∈ s.databases, ∀ p ∈ entries, ∀ bytes ∈ p.2.value.strings,
    bytes.length < lengthBound

variable {s : Snapshot}

/-- The live entries of a database are entries of the snapshot. -/
theorem mem_of_mem_liveDatabases {d : Nat × List (Bytes × Entry)} (h : d ∈ s.liveDatabases) :
    d.1 < s.databases.length ∧ ∃ entries ∈ s.databases, ∀ p ∈ d.2, p ∈ entries := by
  obtain ⟨entries, hentries, hlive⟩ := mem_liveDatabases h
  refine ⟨(List.getElem?_eq_some_iff.1 hentries).1, entries, List.mem_of_getElem? hentries, ?_⟩
  intro p hp
  rw [hlive] at hp
  exact (List.mem_filter.1 hp).1

theorem InMemory.fits (h : s.InMemory) : ∀ command ∈ s.reconstruction, Wire.Fits command := by
  intro command hcommand
  obtain ⟨d, hd, hcommand⟩ := List.mem_flatMap.1 hcommand
  obtain ⟨hindex, entries, hentries, hlive⟩ := mem_of_mem_liveDatabases hd
  rcases List.mem_cons.1 hcommand with rfl | hentry
  · exact Wire.fits_selecting (Nat.lt_trans hindex h.databases)
  · obtain ⟨p, hp, hmem⟩ := List.mem_flatMap.1 hentry
    have hin := hlive p hp
    exact Wire.fits_of_mem_commands_of_strings (h.keys entries hentries p hin)
      (h.strings entries hentries p hin) command hmem

/-- The commands of an entry select no database. -/
theorem not_selects_of_mem_commands {key : Bytes} {e : Entry} :
    ∀ command ∈ e.commands key, ¬ command.Selects := by
  intro command hcommand
  obtain ⟨name, hname, args, rfl, -, -⟩ := Entry.exists_of_mem_commands hcommand
  have hothers : ∀ name ∈ Entry.commandNames,
      Command.Verb.ofName? (Bytes.ofString name) ≠ some .select := by decide +kernel
  exact hothers name hname

open Command in
/-- **A reconstruction attributes to each database its own commands**, whatever was
named before it; by induction on the databases. -/
theorem attributed_reconstruction (h : s.databases.length < Bytes.u64Bound) (now : Millis)
    (named : Option Nat) : attributed now named s.reconstruction = placed s.rebuilt := by
  have hindex : ∀ d ∈ s.liveDatabases, d.1 < Bytes.u64Bound :=
    fun d hd => Nat.lt_trans (mem_of_mem_liveDatabases hd).1 h
  unfold reconstruction rebuilt
  generalize s.liveDatabases = ds at hindex
  induction ds generalizing named with
  | nil => rfl
  | cons d ds ih =>
    obtain ⟨hfirst, hrest⟩ := List.forall_mem_cons.1 hindex
    -- between two databases nothing is selected
    have hquiet : ∀ command ∈ d.2.flatMap fun p => p.2.commands p.1, ¬ command.Selects := by
      intro command hcommand
      obtain ⟨p, -, hmem⟩ := List.mem_flatMap.1 hcommand
      exact not_selects_of_mem_commands command hmem
    rw [List.flatMap_cons, List.flatMap_cons, List.cons_append, attributed,
      if_pos (selects_selecting d.1), naming_selecting now hfirst, attributed_append,
      attributed_of_not_selects now hquiet, foldl_naming_of_not_selects now hquiet, ih _ hrest,
      placed_append]
    unfold placed
    rw [List.map_map]
    rfl

end Snapshot

/-! ## §3. Bytes that list writes. -/

/-- Bytes are complete commands, which attribute to each database its own writes in
order; and the database that a log has selected is the one that they name last. -/
def Lists (bytes : Bytes) (writes : List (Nat × Command)) (selected : Option Nat) : Prop :=
  ∃ commands : List Command, bytes = commands.flatMap Wire.encode
    ∧ (∀ command ∈ commands, Wire.Fits command)
    ∧ ∀ now, Command.attributed now none commands = Command.placed writes
      ∧ ∀ i, selected = some i → commands.foldl (Command.naming now) none = some i

namespace Lists

variable {bytes : Bytes} {writes : List (Nat × Command)} {selected : Option Nat}

theorem nil : Lists [] [] none :=
  ⟨[], rfl, (fun _ hmem => absurd hmem List.not_mem_nil), fun _ => ⟨rfl, fun _ h => nomatch h⟩⟩

theorem forget (h : Lists bytes writes selected) : Lists bytes writes none := by
  obtain ⟨commands, hbytes, hfits, hcommands⟩ := h
  exact ⟨commands, hbytes, hfits, fun now => ⟨(hcommands now).1, fun _ h => nomatch h⟩⟩

/-- **A record that is added is listed last.** -/
theorem record (h : Lists bytes writes selected) {database : Nat}
    (hdatabase : database < Bytes.u64Bound) {command : Command} (hselect : ¬ command.Selects)
    (hfits : Wire.Fits command) :
    Lists (bytes ++ (Command.selection selected database ++ Wire.encode command))
      (writes ++ [(database, command)]) (some database) := by
  obtain ⟨commands, rfl, hall, hcommands⟩ := h
  refine ⟨commands ++ command.records selected database, ?_,
    List.forall_mem_append.2 ⟨hall, Wire.fits_of_mem_records hfits hdatabase⟩, ?_⟩
  · rw [List.flatMap_append, Command.flatMap_records]
  · intro now
    obtain ⟨hattributed, hnamed⟩ := hcommands now
    obtain ⟨hrecords, hlast⟩ := Command.attributed_records now hselect hdatabase hnamed
    constructor
    · rw [Command.attributed_append, hattributed, hrecords, Command.placed_append]
      rfl
    · intro i hi
      rw [List.foldl_append, hlast]
      exact hi

/-- **A reconstruction lists the commands of its snapshot.** -/
theorem rebuilt {s : Snapshot} (h : s.InMemory) : Lists s.reconstructionBytes s.rebuilt none :=
  ⟨s.reconstruction, rfl, h.fits, fun now =>
    ⟨Snapshot.attributed_reconstruction h.databases now none, fun _ heq => nomatch heq⟩⟩

/-- **Whoever reads all the bytes finds the writes.** -/
theorem decodeAll (h : Lists bytes writes selected) (now : Millis) :
    (Wire.decodeAll bytes).rest = [] ∧ (Wire.decodeAll bytes).fault = none
      ∧ Command.attributed now none (Wire.decodeAll bytes).commands = Command.placed writes := by
  obtain ⟨commands, rfl, hfits, hcommands⟩ := h
  have hread := Wire.decodeAll_flatMap hfits Wire.isPartial_nil
  rw [List.append_nil] at hread
  rw [hread]
  exact ⟨rfl, rfl, (hcommands now).1⟩

end Lists

end DurableStore
