/-
  DurableStore.Proofs.Engine.Reopening
  ────────────────────────────────
  **OPENING AGAIN AFTER A FAILURE.**

  An opening that fails returns the disk that it left behind.  Every step
  but one leaves the disk as it was when it fails: a log that is there is
  cut only when it is sure to be opened, and a log that cannot be created is
  not.  The exception is a log that was created to be written from the
  snapshot file:

      Seeds config d now   — the log is absent and would be created, and
                             the snapshot file loads

  If the new content is obstructed then, the empty log stays
  (`disk_of_failure`).  Once the obstacle is removed (`Disk.clear`), that
  log is what is loaded, and the snapshot file is not looked at any more.

  Main result:
    * `reopen_loads_same_iff` — the next opening loads what it would have
      loaded without the failed one exactly if that one seeds no log, or
      there is nothing to load.
-/
import DurableStore.Proofs.Engine.Records

namespace DurableStore

open Loaded

/-! ## §1. Removing an obstacle. -/

namespace Disk

variable {d : Disk} {path : Path}

/-- The disk without what stands at a location, and without all beneath it. -/
def clear (d : Disk) (o : Location) : Disk :=
  { d with nodes := d.nodes.filter fun p => !o.isSuffixOf p.1 }

theorem nodeIn?_filter (keep : Location → Bool) (k : Location) (ps : List (Location × Node)) :
    nodeIn? k (ps.filter fun p => keep p.1) = if keep k then nodeIn? k ps else none := by
  induction ps with
  | nil => exact (ite_self _).symm
  | cons p ps ih =>
    rw [List.filter_cons]
    by_cases hk : k = p.1
    · subst hk
      split
      · unfold nodeIn?
        rw [if_pos rfl, if_pos rfl]
      · rename_i hkept
        rw [ih, if_neg hkept]
    · rw [nodeIn?, if_neg hk, ← ih]
      split
      · rw [nodeIn?, if_neg hk]
      · rfl

/-- What stands on a disk without an obstacle. -/
theorem node?_clear (d : Disk) (o k : Location) (h : k ≠ []) :
    (d.clear o).node? k = if o <:+ k then none else d.node? k := by
  have hfilter := nodeIn?_filter (fun k => !o.isSuffixOf k) k d.nodes
  unfold node?
  rw [if_neg h, if_neg h]
  refine hfilter.trans ?_
  by_cases hk : o <:+ k
  · rw [if_pos hk, List.isSuffixOf_iff_suffix.2 hk, if_neg (by decide)]
  · have hnot : o.isSuffixOf k = false := Bool.eq_false_iff.2 (mt List.isSuffixOf_iff_suffix.1 hk)
    rw [if_neg hk, hnot, if_pos (by decide)]

theorem node?_of_clear {o k : Location} {node : Node} (h : (d.clear o).node? k = some node) :
    d.node? k = some node := by
  by_cases hk : k = []
  · rw [hk, node?_root] at h ⊢
    exact h
  · rw [node?_clear d o k hk] at h
    split at h
    · cases h
    · exact h

theorem keepsDirectories_clear (d : Disk) (o : Location) : KeepsDirectories (d.clear o) d :=
  fun _ h => node?_of_clear h

/-- What is found without an obstacle stands there with it too. -/
theorem find_of_clear {o : Location} {node : Node} (h : (d.clear o).find path = .ok node) :
    d.find path = .ok node := by
  unfold find at h ⊢
  obtain ⟨spot, hlocate, h⟩ := exists_of_bind h
  rw [locate_of_keeps (keepsDirectories_clear d o) hlocate]
  cases spot with
  | unnamed => exact h
  | entry l slashed =>
    dsimp only [bind, Except.bind] at h ⊢
    unfold present at h ⊢
    cases hnode : (d.clear o).node? l with
    | none =>
      rw [hnode] at h
      cases h
    | some node =>
      rw [hnode] at h
      rw [node?_of_clear hnode]
      exact h

/-- **A walk passes directories only**, by induction on its parts. -/
theorem directories_of_walk {parts : List Bytes} {here there : Location}
    (hhere : ∀ k, k <:+ here → d.node? k = some .directory)
    (hwalk : parts.foldlM d.step here = .ok there) :
    ∀ k, k <:+ there → d.node? k = some .directory := by
  induction parts generalizing here with
  | nil =>
    cases hwalk
    exact hhere
  | cons part parts ih =>
    rw [List.foldlM_cons] at hwalk
    obtain ⟨next, hstep, hwalk⟩ := exists_of_bind hwalk
    refine ih ?_ hwalk
    unfold step at hstep
    split at hstep
    · -- the walk stays
      cases hstep
      exact hhere
    · split at hstep
      · -- it goes up
        cases hstep
        exact fun k hk => hhere k (hk.trans (List.tail_suffix here))
      · split at hstep
        · cases hstep
        · split at hstep
          · -- it goes down, into a directory
            rename_i hnode
            cases hstep
            intro k hk
            rcases List.suffix_cons_iff.1 hk with rfl | hk
            · exact hnode
            · exact hhere k hk
          · cases hstep
          · cases hstep

/-- **An obstacle whose removal leaves a place for a file is not above that
place.** -/
theorem not_suffix_of_place? {o l : Location} (hroot : o ≠ []) (hthere : d.node? o ≠ none)
    (habsent : d.node? l = none) (hplace : (d.clear o).place? path = .ok l) : ¬ o <:+ l := by
  intro hsuffix
  obtain ⟨name, before, here, -, hwalk, rfl⟩ := names_of_place? hplace
  have hstart : ∀ k, k <:+ [] → (d.clear o).node? k = some .directory := by
    intro k hk
    rw [List.suffix_nil.1 hk, node?_root]
  -- above the place the walk has found directories, and the obstacle is gone
  rcases List.suffix_cons_iff.1 hsuffix with rfl | hhere
  · exact hthere habsent
  · have hdirectory := directories_of_walk hstart hwalk o hhere
    rw [node?_clear d o o hroot, if_pos (List.suffix_refl o)] at hdirectory
    cases hdirectory

/-- Where nothing is found, but there is a place, nothing stands. -/
theorem node?_of_not_exists {l : Location} (hplace : d.place? path = .ok l)
    (h : d.exists? path = false) : d.node? l = none := by
  unfold exists? find at h
  rw [place?_eq_ok_iff.1 hplace] at h
  dsimp only [bind, Except.bind] at h
  unfold present at h
  cases hnode : d.node? l with
  | none => rfl
  | some node =>
    rw [hnode] at h
    cases node <;> cases h

/-- A file that is absent is created when it is opened. -/
theorem openAppend_of_absent {l : Location} (hplace : d.place? path = .ok l)
    (habsent : d.node? l = none) :
    d.openAppend path = .ok ((d.create l []).1, ⟨d.fresh⟩) := by
  unfold openAppend
  rw [hplace]
  dsimp only [bind, Except.bind]
  rw [habsent]
  rfl

end Disk

/-! ## §2. What a failure leaves behind. -/

namespace Loaded

variable {config : Config} {d : Disk} {now : Millis}

/-- The log is absent and would be created, and the snapshot file loads. -/
structure Seeds (config : Config) (d : Disk) (now : Millis) : Prop where
  kept : config.appendOnly = true
  absent : d.exists? (logPath config) = false
  place : ∃ l, d.place? (logPath config) = .ok l
  snapshot : ∃ loaded keys, ofSnapshot config d now = .ok loaded
    ∧ loaded.report.source = .snapshot keys

/-- Loading a snapshot file changes neither the disk nor the clock nor the number
of databases. -/
theorem ofSnapshot_spec {loaded : Loaded} (h : ofSnapshot config d now = .ok loaded) :
    loaded.disk = d ∧ loaded.keyspace.now = now
      ∧ loaded.keyspace.count = (emptyKeyspace config now).count := by
  rcases ofSnapshot_cases h with ⟨-, rfl⟩ | ⟨_, _, ks, -, -, hrestore, rfl⟩
  · exact ⟨rfl, rfl, rfl⟩
  · have hkeeps := Keyspace.keeps_restore hrestore
    exact ⟨rfl, hkeeps.now, hkeeps.count⟩

theorem disk_of_ofSnapshot_error {failure : OpenFailure}
    (h : ofSnapshot config d now = .error failure) : failure.disk = d := by
  unfold ofSnapshot at h
  dsimp only at h
  split at h
  · cases h
    rfl
  · cases h
  · split at h
    · cases h
      rfl
    · split at h
      · cases h
        rfl
      · cases h

/-- Without a log, the snapshot file is loaded. -/
theorem load_of_absent (h : d.exists? (logPath config) = false) (now : Millis)
    (fallback : Option Fallback) : load config d now fallback = ofSnapshot config d now := by
  unfold load
  rw [h, Bool.and_false, if_neg (by decide)]

/-- Without a log to be kept, the snapshot file is loaded. -/
theorem load_of_not_kept (h : config.appendOnly = false) (now : Millis)
    (fallback : Option Fallback) : load config d now fallback = ofSnapshot config d now := by
  unfold load
  rw [h, Bool.false_and, if_neg (by decide)]

/-- A directory is not loaded. -/
theorem load_of_directory (happend : config.appendOnly = true)
    (h : d.find (logPath config) = .ok .directory) (now : Millis) (fallback : Option Fallback) :
    ∃ error, load config d now fallback = .error ⟨error, d⟩ := by
  have hexists : d.exists? (logPath config) = true := by
    unfold Disk.exists?
    rw [h]
  unfold load ofLog Disk.replay Disk.read
  rw [happend, hexists, h]
  exact ⟨_, rfl⟩

/-- A log that could not be written from the snapshot file is left as it was. -/
theorem disk_of_seed_error {loaded : Loaded} {j : Journal} {l : Location} {bytes : Bytes}
    {failure : OpenFailure} (hphase : j.phase = .idle) (hpending : j.writer.pending = [])
    (hholds : d.Holds j.path l j.writer.handle.id bytes) (h : loaded.seed d j = .error failure) :
    (∃ keys, loaded.report.source = .snapshot keys) ∧ failure.disk = d := by
  unfold seed at h
  split at h
  · rename_i keys hsource
    refine ⟨⟨keys, hsource⟩, ?_⟩
    rcases Journal.compact_cases hphase hpending hholds loaded.keyspace.snapshot with
      hok | ⟨error, after, hcompact, hclose⟩
    · generalize j.compact d loaded.keyspace.snapshot = outcome at h hok
      obtain ⟨d', j', result⟩ := outcome
      cases hok
      cases h
    · rw [hcompact] at h
      cases h
      exact hclose
  · cases h

end Loaded

namespace Engine

variable {config : Config} {d : Disk} {now : Millis} {history : String}
  {fallback : Option Fallback} {failure : OpenFailure}

/-- A failure where the log is absent. -/
theorem disk_of_failure_of_absent (happend : config.appendOnly = true)
    (habsent : d.exists? (logPath config) = false)
    (h : Engine.open? config d now history fallback = .error failure) :
    (¬ Seeds config d now ∧ failure.disk = d)
      ∨ (Seeds config d now ∧ ∃ l, d.place? (logPath config) = .ok l ∧ d.node? l = none
          ∧ failure.disk = (d.create l []).1) := by
  unfold Engine.open? at h
  rw [load_of_absent habsent] at h
  cases hload : ofSnapshot config d now with
  | error failed =>
    -- nothing was created yet
    rw [hload] at h
    cases h
    refine .inl ⟨?_, disk_of_ofSnapshot_error hload⟩
    intro hseeds
    obtain ⟨loaded, keys, hloaded, -⟩ := hseeds.snapshot
    rw [hload] at hloaded
    cases hloaded
  | ok loaded =>
    obtain ⟨hdisk, -, -⟩ := ofSnapshot_spec hload
    rw [hload] at h
    dsimp only [bind, Except.bind] at h
    unfold openJournal Journal.open? at h
    rw [if_pos happend, hdisk] at h
    cases hplace : d.place? (logPath config) with
    | error error =>
      have hopen : d.openAppend (logPath config) = .error error := by
        unfold Disk.openAppend
        rw [hplace]
        rfl
      rw [hopen] at h
      cases h
      refine .inl ⟨?_, rfl⟩
      intro hseeds
      obtain ⟨l, hl⟩ := hseeds.place
      rw [hplace] at hl
      cases hl
    | ok l =>
      -- from here on the log exists, empty; the failure can only be that of the seeding
      have hnone := Disk.node?_of_not_exists hplace habsent
      have hnew : Disk.Holds (d.create l []).1 (logPath config) l d.fresh [] := by
        have hl := Disk.ne_nil_of_place? hplace
        have hchange : Disk.ChangesAt d (d.create l []).1 l := Disk.changesAt_create hl hnone
        exact ⟨Disk.place?_of_same hchange.same hplace, Disk.node?_place_self hl⟩
      rw [Disk.openAppend_of_absent hplace hnone] at h
      dsimp only [bind, Except.bind, pure, Except.pure] at h
      generalize hseed : loaded.seed (d.create l []).1
        ⟨logPath config, Writer.ofHandle ⟨d.fresh⟩, none, .idle, []⟩ = seeded at h
      cases seeded with
      | ok seeded => cases h
      | error failed =>
        cases h
        obtain ⟨hsource, hleft⟩ := disk_of_seed_error rfl rfl hnew hseed
        obtain ⟨keys, hkeys⟩ := hsource
        exact .inr ⟨⟨happend, habsent, ⟨l, hplace⟩, ⟨loaded, keys, hload, hkeys⟩⟩,
          l, rfl, hnone, hleft⟩

/-- **What a failed opening leaves behind**: the disk as it was, unless a log was
to be written from the snapshot file; then an empty log. -/
theorem disk_of_failure (h : Engine.open? config d now history fallback = .error failure) :
    (¬ Seeds config d now ∧ failure.disk = d)
      ∨ (Seeds config d now ∧ ∃ l, d.place? (logPath config) = .ok l ∧ d.node? l = none
          ∧ failure.disk = (d.create l []).1) := by
  cases happend : config.appendOnly with
  | false =>
    -- without a log only the snapshot file can be at fault
    have hnot : ¬ Seeds config d now :=
      fun hseeds => absurd (happend.symm.trans hseeds.kept) (by decide)
    refine .inl ⟨hnot, ?_⟩
    unfold Engine.open? at h
    rw [load_of_not_kept happend] at h
    cases hload : ofSnapshot config d now with
    | error failed =>
      rw [hload] at h
      cases h
      exact disk_of_ofSnapshot_error hload
    | ok loaded =>
      rw [hload] at h
      dsimp only [bind, Except.bind] at h
      unfold openJournal at h
      rw [happend] at h
      cases h
  | true =>
    cases hexists : d.exists? (logPath config) with
    | false => exact disk_of_failure_of_absent happend hexists h
    | true =>
      have hnot : ¬ Seeds config d now :=
        fun hseeds => absurd (hexists.symm.trans hseeds.absent) (by decide)
      refine .inl ⟨hnot, ?_⟩
      cases hfind : d.find (logPath config) with
      | error error =>
        unfold Disk.exists? at hexists
        rw [hfind] at hexists
        cases hexists
      | ok node =>
        cases node with
        | file id bytes =>
          -- a log that is there opens, whatever it holds
          obtain ⟨l, hholds⟩ := Disk.holds_of_find hfind
          obtain ⟨e, hopen, -⟩ := open?_of_log happend hholds now history fallback
          rw [hopen] at h
          cases h
        | directory =>
          obtain ⟨error, hload⟩ := load_of_directory happend hfind now fallback
          unfold Engine.open? at h
          rw [hload] at h
          cases h
          rfl

/-- An engine that opens where the log is absent has a place for it, and its
dataset is as wide as an empty one. -/
theorem opened_of_absent {e : Engine} (happend : config.appendOnly = true)
    (habsent : d.exists? (logPath config) = false)
    (h : Engine.open? config d now history fallback = .ok e) :
    (∃ l, d.place? (logPath config) = .ok l) ∧ e.keyspace.now = now
      ∧ e.keyspace.count = (emptyKeyspace config now).count := by
  obtain ⟨loaded, hload, hkeyspace, -, -, -, -, -, hjournal⟩ := opened_of_open? h
  rw [load_of_absent habsent] at hload
  obtain ⟨hdisk, hnow, hcount⟩ := ofSnapshot_spec hload
  rw [hkeyspace]
  refine ⟨?_, hnow, hcount⟩
  obtain ⟨_, _, _, hopened, -⟩ := opened_of_openJournal happend hjournal
  rw [hdisk] at hopened
  obtain ⟨l, hplace, -⟩ := Journal.open?_place hopened
  exact ⟨l, hplace⟩

end Engine

/-! ## §3. Opening again. -/

/-- **The empty log is still there when the obstacle is gone.** -/
theorem Disk.holds_clear_create {d : Disk} {path : Path} {o l : Location} (hroot : o ≠ [])
    (hthere : d.node? o ≠ none) (habsent : d.node? l = none)
    (hplace : (d.clear o).place? path = .ok l) :
    ((d.create l []).1.clear o).Holds path l d.fresh [] := by
  have hl := ne_nil_of_place? hplace
  have hsuffix := not_suffix_of_place? hroot hthere habsent hplace
  refine ⟨place?_of_keeps ?_ hplace, ?_⟩
  · intro k hk
    have hk' := hk
    by_cases hnil : k = []
    · rw [hnil, node?_root]
    · rw [node?_clear d o k hnil] at hk'
      split at hk'
      · cases hk'
      · rename_i hout
        have hne : k ≠ l := by
          rintro rfl
          rw [habsent] at hk'
          cases hk'
        rw [node?_clear _ o k hnil, if_neg hout, node?_create d l k [] hnil, if_neg hne]
        exact hk'
  · rw [node?_clear _ o l hl, if_neg hsuffix, node?_create d l l [] hl, if_pos rfl]

/-- **When a failed opening loses nothing.**  On any disk and for any configuration,
if an opening fails, and opens after what stands at some place is removed, then
it also opens if that is removed only after the failure — and loads the
same dataset if and only if the failed opening seeds no log, or there is
nothing to load. -/
theorem reopen_loads_same_iff {config : Config} {d : Disk} {now : Millis}
    {history history' : String} {fallback : Option Fallback} {failure : OpenFailure} {o : Location}
    {e : Engine} (hfail : Engine.open? config d now history fallback = .error failure)
    (hroot : o ≠ []) (hthere : d.node? o ≠ none)
    (hopen : Engine.open? config (d.clear o) now history' fallback = .ok e) :
    (∃ e', Engine.open? config (failure.disk.clear o) now history' fallback = .ok e'
        ∧ (e'.keyspace.dataset = e.keyspace.dataset
          ↔ ¬ Seeds config d now ∨ e.keyspace.contents now = Contents.none)) := by
  rcases Engine.disk_of_failure hfail with ⟨hnot, hdisk⟩ | ⟨hseeds, l, hplace, habsent, hdisk⟩
  · -- the disk is as it was, so this is the same opening
    rw [hdisk]
    exact ⟨e, hopen, fun _ => .inl hnot, fun _ => rfl⟩
  · -- the empty log decides what is loaded
    have hexists : (d.clear o).exists? (logPath config) = false := by
      unfold Disk.exists?
      cases hfind : (d.clear o).find (logPath config) with
      | error error => rfl
      | ok node =>
        have hexists := hseeds.absent
        unfold Disk.exists? at hexists
        rw [Disk.find_of_clear hfind] at hexists
        cases hexists
    obtain ⟨⟨l', hplace'⟩, hnow, hcount⟩ := Engine.opened_of_absent hseeds.kept hexists hopen
    have hl : l' = l := by
      have hkept := Disk.place?_of_keeps (Disk.keepsDirectories_clear d o) hplace'
      rw [hplace] at hkept
      exact (Except.ok.inj hkept).symm
    subst hl
    have hholds := Disk.holds_clear_create hroot hthere habsent hplace'
    -- the log that was left is there now: it is read, and the snapshot file is not
    obtain ⟨e', hopen', hkeyspace, -⟩ :=
      Engine.open?_of_log hseeds.kept hholds now history' fallback
    rw [hdisk]
    refine ⟨e', hopen', ?_⟩
    have hempty : e'.keyspace = (emptyKeyspace config now).withListener := by
      have hnothing : Replay.ofBytes [] = Replay.nothing := by decide +kernel
      rw [hkeyspace]
      unfold replayed
      rw [hnothing]
      rfl
    have hcontents : (emptyKeyspace config now).withListener.contents now = Contents.none :=
      contents_emptyKeyspace config now now
    -- the datasets agree where the snapshot file had nothing to load either
    have hdataset : e'.keyspace.dataset = e.keyspace.dataset
        ↔ Contents.none = e.keyspace.contents now := by
      rw [Keyspace.dataset_eq_iff, hempty, hnow, hcount]
      show _ ∧ (emptyKeyspace config now).withListener.contents now = _ ↔ _
      rw [hcontents]
      exact and_iff_right rfl
    rw [hdataset]
    exact ⟨fun hnone => .inr hnone.symm,
      fun h => h.elim (fun hnot => absurd hseeds hnot) Eq.symm⟩

/-- A snapshot file with one key, and a directory where a new log would be
prepared. -/
def obstructedDisk : Disk :=
  ⟨[([Bytes.ofString "dump.rdb"], .file 0 (Snapshot.encode false
      ⟨50, [[(Bytes.ofString "k", ⟨.string (Bytes.ofString "v"), none, 50⟩)]]⟩)),
    ([Bytes.ofString "appendonly.aof.tmp"], .directory)], 1⟩

/-- The location of that directory. -/
def obstacle : Location := [Bytes.ofString "appendonly.aof.tmp"]

/-- How an opening on that disk fails. -/
def obstructedFailure : OpenFailure :=
  ⟨.journal (.disk .isDirectory), (obstructedDisk.create [Bytes.ofString "appendonly.aof"] []).1⟩

theorem open?_obstructedDisk :
    Engine.open? smallConfig obstructedDisk 50 "" none = .error obstructedFailure := rfl

/-- The failed opening on that disk seeds a log, and the key is there to be lost. -/
theorem reopen_loads_same_iff_obstructedDisk :
    ∃ e, Engine.open? smallConfig (obstructedDisk.clear obstacle) 50 "" none = .ok e
      ∧ ∃ e', Engine.open? smallConfig (obstructedFailure.disk.clear obstacle) 50 "" none = .ok e'
        ∧ (e'.keyspace.dataset = e.keyspace.dataset
          ↔ ¬ Seeds smallConfig obstructedDisk 50 ∨ e.keyspace.contents 50 = Contents.none) := by
  have hopens : (Engine.open? smallConfig (obstructedDisk.clear obstacle) 50 "" none).isOk = true := by
    decide +kernel
  cases hopen : Engine.open? smallConfig (obstructedDisk.clear obstacle) 50 "" none with
  | error failure =>
    rw [hopen] at hopens
    cases hopens
  | ok e =>
    exact ⟨e, rfl, reopen_loads_same_iff open?_obstructedDisk (by decide) (by decide +kernel) hopen⟩

/-- **A failed opening loses a dataset**: without it the key would be loaded, after
it nothing is. -/
theorem reopen_loses_dataset :
    (Engine.open? smallConfig (obstructedDisk.clear obstacle) 50 "" none).toOption.map
        (fun e => e.keyspace.dataset)
      = some [[(Bytes.ofString "k", .string (Bytes.ofString "v"), none)]]
    ∧ ∃ failure, Engine.open? smallConfig obstructedDisk 50 "" none = .error failure
      ∧ (Engine.open? smallConfig (failure.disk.clear obstacle) 50 "" none).toOption.map
          (fun e => e.keyspace.dataset) = some [[]] :=
  ⟨by decide +kernel, obstructedFailure, open?_obstructedDisk, by decide +kernel⟩

end DurableStore
