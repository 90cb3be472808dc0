/-
  DurableStore.Proofs.Engine.Seeding
  ────────────────────────────────
  **A LOG THAT IS SEEDED FROM A SNAPSHOT FILE.**

  An engine that is to keep a log and finds none loads the snapshot file,
  and writes a log of what it has loaded.  From then on the log is there,
  and the snapshot file is not looked at any more; it may as well be gone.

  So the log has to be complete.  A snapshot file can hold what no write
  leaves behind, a collection without elements: it is loaded, and its key is
  there, but no command would build it up again.

      c.kept   — contents without such collections

  A snapshot file that is removed has another place than the log: it was
  there when the log was not, and only files have changed since
  (`seeded_of_openJournal`).

  Main result:
    * `seeded_log_complete_iff` — the log that was seeded gives, without the
      snapshot file, what was loaded from it, but for collections without
      elements; so it is complete exactly if there are none.
-/
import DurableStore.Proofs.Engine.Limits
import DurableStore.Proofs.Engine.Reopening

namespace DurableStore

open Loaded

/-! ## §1. What a seeded log holds. -/

namespace Loaded

variable {config : Config} {d : Disk} {now : Millis} {loaded : Loaded}

/-- What is loaded from a snapshot file was read from a file. -/
theorem holds_of_ofSnapshot (h : ofSnapshot config d now = .ok loaded) {keys : Nat}
    (hsource : loaded.report.source = .snapshot keys) :
    ∃ l id bytes, d.Holds (snapshotPath config) l id bytes := by
  rcases ofSnapshot_cases h with ⟨-, rfl⟩ | ⟨bytes, _, _, hread, -, -, rfl⟩
  · -- then nothing was loaded
    cases hsource
  · obtain ⟨l, id, hholds⟩ := Disk.holds_of_read hread
    exact ⟨l, id, bytes, hholds⟩

/-- **A log that was absent and is seeded** is the reconstruction of what was loaded.  It
has the place that its path names, where nothing stood before, and only files have
changed. -/
theorem seeded_of_openJournal (happend : config.appendOnly = true) (hwf : loaded.disk.WellFormed)
    (habsent : loaded.disk.exists? (logPath config) = false) {keys : Nat}
    (hsource : loaded.report.source = .snapshot keys) {disk : Disk} {journal : Option Journal}
    (h : openJournal config loaded = .ok (disk, journal)) :
    ∃ l j, loaded.disk.place? (logPath config) = .ok l ∧ loaded.disk.node? l = none
      ∧ journal = some j ∧ j.path = logPath config
      ∧ j.Carries disk loaded.keyspace.snapshot.reconstructionBytes
      ∧ Disk.SameDirectories loaded.disk disk := by
  obtain ⟨d₀, j₀, j₁, hopen, hseed, rfl⟩ := opened_of_openJournal happend h
  obtain ⟨hcarries, hpath, -, hphase⟩ := Journal.open?_spec hwf hopen
  obtain ⟨l, hplace, hchange⟩ := Journal.open?_place hopen
  unfold seed at hseed
  rw [hsource] at hseed
  dsimp only at hseed
  -- the log is empty so far, and it is compacted to what was loaded
  have hcompacted := Journal.compact_spec hcarries hphase (s := loaded.keyspace.snapshot)
  generalize j₀.compact d₀ loaded.keyspace.snapshot = outcome at hseed hcompacted
  obtain ⟨d₁, j₂, result⟩ := outcome
  cases result with
  | error error => cases hseed
  | ok done =>
    cases hseed
    obtain ⟨hseeded, hpath', hsame⟩ := hcompacted rfl
    exact ⟨l, j₁, hplace, Disk.node?_of_not_exists hplace habsent, rfl, hpath'.trans hpath,
      hseeded, hchange.same.trans hsame⟩

end Loaded

/-! ## §2. Without the snapshot file. -/

/-- **The log stays when the snapshot file is removed.**  An engine that seeded its log is
closed, and the snapshot file is removed: the log is the reconstruction of what was
loaded. -/
theorem Engine.holds_seeded {config : Config} (happend : config.appendOnly = true) {d : Disk}
    (hwf : d.WellFormed) (habsent : d.exists? (logPath config) = false) {now : Millis}
    {history : String} {fallback : Option Fallback} {e : Engine}
    (hopen : Engine.open? config d now history fallback = .ok e) {keys : Nat}
    (hsource : e.load.source = .snapshot keys) :
    ∃ l id, (e.close.discard (snapshotPath config)).Holds (logPath config) l id
      e.keyspace.snapshot.reconstructionBytes := by
  obtain ⟨loaded, hload, hkeyspace, hreport, -, -, -, -, hjournal⟩ := opened_of_open? hopen
  rw [load_of_absent habsent] at hload
  rw [hreport] at hsource
  have hdisk := (ofSnapshot_spec hload).1
  obtain ⟨k, i, bytes, hfile⟩ := holds_of_ofSnapshot hload hsource
  rw [← hdisk] at hwf habsent hfile
  obtain ⟨l, j, hplace, hnone, hj, hpath, hcarries, hseeded⟩ :=
    seeded_of_openJournal happend hwf habsent hsource hjournal
  obtain ⟨l', hholds, hclosed⟩ := Journal.holds_close hcarries
  have hsame := hseeded.trans hclosed
  rw [close_eq hj, hkeyspace]
  rw [hpath] at hholds
  refine ⟨l', _, (hholds.discard ?_).2⟩
  -- both paths still lead where they led before the log was written
  intro k' hk'
  have hsnapshot : k' = k := by
    have hthere := Disk.place?_of_same hsame hfile.place
    rw [hk'] at hthere
    exact Except.ok.inj hthere
  have hlog : l' = l := by
    have hthere := Disk.place?_of_same hsame hplace
    rw [hholds.place] at hthere
    exact Except.ok.inj hthere
  -- one and the same place would have to be a file's and empty
  rintro rfl
  have hnode := hfile.node
  rw [← hsnapshot, hlog, hnone] at hnode
  cases hnode

/-- **When a seeded log is complete.**  An engine that is to keep a log finds none, and loads
a snapshot file: any that can be loaded, whoever wrote it.  It has no memory ceiling, or
evicts nothing.  Then it is closed, and the snapshot file is removed.  At the same time it
opens again from its log, and holds in every database what it had loaded, but for
collections without elements.  So it holds exactly what it had loaded if and only if there
was no such collection. -/
theorem seeded_log_complete_iff {config : Config} (happend : config.appendOnly = true)
    {now : Millis} (hevict : (emptyKeyspace config now).mayEvict = false)
    (hcount : (emptyKeyspace config now).count < Bytes.u64Bound) {d : Disk} (hwf : d.WellFormed)
    (habsent : d.exists? (logPath config) = false) {history : String} {fallback : Option Fallback}
    {e : Engine} (hopen : Engine.open? config d now history fallback = .ok e) {keys : Nat}
    (hsource : e.load.source = .snapshot keys)
    (hmemory : (e.keyspace.contents now).Each Datum.InMemory)
    (history' : String) (fallback' : Option Fallback) :
    ∃ e', Engine.open? config (e.close.discard (snapshotPath config)) now history' fallback' = .ok e'
      ∧ e'.keyspace.contents now = (e.keyspace.contents now).kept
      ∧ (e'.keyspace.dataset = e.keyspace.dataset
        ↔ ∀ i key v, e.keyspace.contents now i key = some v → v.value.isEmptyCollection = false) := by
  have hregular : (emptyKeyspace config now).Regular := ⟨hevict, hcount⟩
  have hsteady : Steady config now Datum.Sound e.keyspace := by
    obtain ⟨loaded, hload, hkeyspace, -⟩ := Engine.opened_of_open? hopen
    rw [load_of_absent habsent] at hload
    rw [hkeyspace] at hmemory ⊢
    exact ((held_of_ofSnapshot hload fun _ _ => hmemory).steady hregular).withListener
  -- the log was written from what was loaded, and replays to that without the empty collections
  have hrecords := Records.kept hregular hsteady
  obtain ⟨l, id, hholds⟩ := Engine.holds_seeded happend hwf habsent hopen hsource
  obtain ⟨e', hopen', hkeyspace, -⟩ := Engine.open?_of_log happend hholds now history' fallback'
  refine ⟨e', hopen', ?_, ?_⟩
  · rw [hkeyspace]
    exact (hrecords.stands fallback').contents_eq
  · rw [hkeyspace, ← Contents.kept_eq_iff]
    exact hrecords.dataset_eq_iff fallback' hsteady.now_eq hsteady.count_eq

/-- A snapshot file with a string that has a deadline, and with a list without elements. -/
def emptyListFile : Bytes :=
  Snapshot.encode false ⟨50, [[(Bytes.ofString "k", ⟨.string (Bytes.ofString "v"), some 70, 50⟩),
    (Bytes.ofString "l", ⟨.list [], none, 50⟩)]]⟩

/-- A disk with that file, and with nothing else. -/
def emptyListDisk : Disk := ⟨[([Bytes.ofString "dump.rdb"], .file 0 emptyListFile)], 1⟩

theorem wellFormed_emptyListDisk : emptyListDisk.WellFormed := by
  have hwrite : Disk.empty.write (snapshotPath smallConfig) emptyListFile = .ok emptyListDisk := rfl
  obtain ⟨_, _, -, hchange, -⟩ := Disk.write_spec hwrite
  exact hchange.wellFormed Disk.wellFormed_empty

/-- What is loaded from that file. -/
def emptyListDataset : List (List (Bytes × Value × Option Millis)) :=
  [[(Bytes.ofString "k", .string (Bytes.ofString "v"), some 70), (Bytes.ofString "l", .list [], none)]]

theorem inMemory_emptyListDataset {ks : Keyspace} (hnow : ks.now = 50)
    (h : ks.dataset = emptyListDataset) : (ks.contents 50).Each Datum.InMemory := by
  intro i key d hd
  rw [← hnow] at hd
  obtain ⟨entries, hentries, hmem⟩ := Keyspace.mem_dataset hd
  rw [h] at hentries
  cases List.mem_singleton.1 hentries
  simp only [List.mem_cons, Prod.mk.injEq, List.not_mem_nil, or_false] at hmem
  rcases hmem with ⟨rfl, hvalue, -⟩ | ⟨rfl, hvalue, -⟩
  · refine ⟨by decide, ?_⟩
    rw [hvalue]
    exact List.forall_mem_singleton.2 (by decide)
  · refine ⟨by decide, ?_⟩
    rw [hvalue]
    exact List.forall_mem_nil _

/-- The log that is seeded from that file. -/
theorem seeded_log_complete_iff_emptyList :
    ∃ e, Engine.open? smallConfig emptyListDisk 50 "" none = .ok e
      ∧ ∃ e', Engine.open? smallConfig (e.close.discard (snapshotPath smallConfig)) 50 "" none
          = .ok e'
        ∧ e'.keyspace.contents 50 = (e.keyspace.contents 50).kept
        ∧ (e'.keyspace.dataset = e.keyspace.dataset
          ↔ ∀ i key v, e.keyspace.contents 50 i key = some v
            → v.value.isEmptyCollection = false) := by
  have hloaded : (Engine.open? smallConfig emptyListDisk 50 "" none).toOption.map
      (fun e => e.keyspace.dataset) = some emptyListDataset := by decide +kernel
  have hcounted : (Engine.open? smallConfig emptyListDisk 50 "" none).toOption.map
      (fun e => e.load.source) = some (.snapshot 2) := by decide +kernel
  have habsent : emptyListDisk.exists? (logPath smallConfig) = false := by decide +kernel
  cases hopen : Engine.open? smallConfig emptyListDisk 50 "" none with
  | error failure =>
    rw [hopen] at hloaded
    cases hloaded
  | ok e =>
    rw [hopen] at hloaded hcounted
    have hnow : e.keyspace.now = 50 := (Engine.opened_of_absent rfl habsent hopen).2.1
    have hmemory := inMemory_emptyListDataset hnow (Option.some.inj hloaded)
    exact ⟨e, rfl, seeded_log_complete_iff rfl rfl (by decide +kernel) wellFormed_emptyListDisk
      habsent hopen (Option.some.inj hcounted) hmemory "" none⟩

/-- **A seeded log drops a list without elements**: its key is there after the snapshot file
was loaded, and is not when the log is. -/
theorem seeding_drops_emptyList :
    (Engine.open? smallConfig emptyListDisk 50 "" none).toOption.map (fun e => e.keyspace.dataset)
      = some emptyListDataset
    ∧ ((Engine.open? smallConfig emptyListDisk 50 "" none).toOption.bind fun e =>
        (Engine.open? smallConfig (e.close.discard (snapshotPath smallConfig)) 50 "" none).toOption).map
          (fun e => e.keyspace.dataset)
      = some [[(Bytes.ofString "k", .string (Bytes.ofString "v"), some 70)]] :=
  ⟨by decide +kernel, by decide +kernel⟩

end DurableStore
