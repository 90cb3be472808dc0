/-
  DurableStore.Proofs.Journal.LateRebuild
  ────────────────────────────────
  **A SNAPSHOT CAN BE REBUILT AT ANY LATER TIME.**

  The reconstruction of a snapshot may be replayed long after the snapshot
  was taken, and by a keyspace that never saw it.  Deadlines are absolute,
  so the replay at any later reading of the clock leaves the entries that
  are live then:

      reconstructionBytes  —  read in full, command by command
                           —  accepted in full, command by command
                           —  holds (key, datum) iff an entry of the
                              snapshot does that is live at the reading

  An entry that has died since is written like any other.  Its elements
  build it up, and its deadline, which comes last, takes it away.

  Main result:
    * `reconstruction_rebuilds` — for every snapshot, keyspace and reading.
-/
import DurableStore.Proofs.Journal.Rebuild

namespace DurableStore

namespace Snapshot

variable {s : Snapshot}

/-! ## §1. What is written is read. -/

theorem lt_u64Bound_of_mem_liveDatabases (h : s.Fits) {d : Nat × List (Bytes × Entry)}
    (hd : d ∈ s.liveDatabases) : d.1 < Bytes.u64Bound := by
  obtain ⟨es, hes, -⟩ := mem_liveDatabases hd
  have hindex := (List.getElem?_eq_some_iff.1 hes).1
  exact lt_u64Bound_of_lt (Nat.lt_trans hindex h.databases)

theorem fits_of_mem_reconstruction (h : s.Fits) :
    ∀ command ∈ s.reconstruction, Wire.Fits command := by
  intro command hcommand
  obtain ⟨d, hd, hcommand⟩ := List.mem_flatMap.1 hcommand
  rcases List.mem_cons.1 hcommand with rfl | hentry
  · exact Wire.fits_selecting (lt_u64Bound_of_mem_liveDatabases h hd)
  · obtain ⟨es, hes, hlive⟩ := mem_liveDatabases hd
    obtain ⟨p, hp, hmem⟩ := List.mem_flatMap.1 hentry
    rw [hlive] at hp
    have hentries := List.mem_of_getElem? hes
    have hstored := (List.mem_filter.1 hp).1
    exact Wire.fits_of_mem_commands_of_strings (h.keys es hentries p hstored)
      (Value.Sound.strings (h.sound es hentries p hstored)) command hmem

/-- **The bytes of a reconstruction decode to its commands, and nothing is left over.** -/
theorem decodeAll_reconstruction (h : s.Fits) :
    Wire.decodeAll s.reconstructionBytes = ⟨s.reconstruction, [], none⟩ := by
  have hread := Wire.decodeAll_flatMap (fits_of_mem_reconstruction h) Wire.isPartial_nil
  rw [List.append_nil] at hread
  exact hread

/-! ## §2. What is read is accepted. -/

/-- **A reconstruction builds what is live of a snapshot** at the reading of the clock. -/
theorem builds_reconstruction (h : s.Fits) (hdistinct : ∀ es ∈ s.databases, (es.map Prod.fst).Nodup)
    {now : Millis} {count : Nat} (hcount : ∀ d ∈ s.liveDatabases, d.1 < count) :
    Command.Builds now count s.reconstruction Contents.none none
      ((held s.takenAt 0 s.databases).kept.live now) none := by
  have hbuilds : Command.Builds now count s.reconstruction Contents.none none
      (fun j k => (((held s.takenAt 0 s.databases).kept.live now) j k).or (Contents.none j k)) none := by
    apply Command.Builds.databases
    · intro d hd
      exact ⟨hcount d hd, lt_u64Bound_of_mem_liveDatabases h hd⟩
    · intro j k _
      rfl
    · exact hdistinct
    · intro es hes p hp
      exact h.sound es hes p (List.mem_filter.1 hp).1
  have hall : (fun j k => (((held s.takenAt 0 s.databases).kept.live now) j k).or (Contents.none j k))
      = (held s.takenAt 0 s.databases).kept.live now := by
    funext j k
    exact Option.or_none
  rw [hall] at hbuilds
  exact hbuilds

/-- What is live of a snapshot at a later reading. -/
theorem live_held_iff {taken now : Millis} (htaken : taken ≤ now)
    {dbs : List (List (Bytes × Entry))} (hdistinct : ∀ es ∈ dbs, (es.map Prod.fst).Nodup)
    (hnonempty : ∀ es ∈ dbs, ∀ p ∈ es, p.2.value.isEmptyCollection = false)
    (i : Nat) (key : Bytes) (d : Datum) :
    ((held taken 0 dbs).kept.live now) i key = some d
      ↔ ∃ e, (key, e) ∈ liveAt now (dbs.getD i []) ∧ e.datum = d := by
  have hkeys : ((liveAt taken (dbs.getD i [])).map Prod.fst).Nodup :=
    (List.filter_sublist.map Prod.fst).nodup (forall_getD hdistinct [] List.nodup_nil i)
  have hvalues : ∀ p ∈ dbs.getD i [], p.2.value.isEmptyCollection = false :=
    forall_getD hnonempty [] (List.forall_mem_nil _) i
  have hheld : held taken 0 dbs i key
      = (Assoc.find? key (liveAt taken (dbs.getD i []))).map Entry.datum := if_pos (Nat.zero_le i)
  unfold Contents.live Contents.kept
  rw [hheld, Option.filter_eq_some_iff]
  constructor
  · rintro ⟨hkept, hlive⟩
    obtain ⟨x, hx, hd⟩ := Option.bind_eq_some_iff.1 hkept
    obtain ⟨e, he, rfl⟩ := Option.map_eq_some_iff.1 hx
    obtain ⟨rfl, -⟩ := Command.of_keptDatum hd
    have hstored := (List.mem_filter.1 ((Assoc.find?_eq_some_iff_of_nodup hkeys).1 he)).1
    rw [Entry.isLive_datum] at hlive
    exact ⟨e, List.mem_filter.2 ⟨hstored, hlive⟩, rfl⟩
  · rintro ⟨e, he, rfl⟩
    obtain ⟨hstored, hlive⟩ := List.mem_filter.1 he
    -- what is live now was live when the snapshot was taken
    have hearlier : (key, e) ∈ liveAt taken (dbs.getD i []) := by
      rw [← liveAt_liveAt htaken] at he
      exact (List.mem_filter.1 he).1
    rw [(Assoc.find?_eq_some_iff_of_nodup hkeys).2 hearlier]
    refine ⟨?_, ?_⟩
    · exact Command.keptDatum_of_nonempty (hvalues _ hstored)
    · rw [Entry.isLive_datum]
      exact hlive

/-! ## §3. Later. -/

/-- **A snapshot can be rebuilt at any later time.**  Its reconstruction decodes to as
many commands as were written.  A keyspace without a ceiling that holds nothing, has
enough databases and reads any later time accepts each of them, and then holds exactly
the keys, values and deadlines of the entries that are live at that time. -/
theorem reconstruction_rebuilds (hfits : s.Fits)
    (hdistinct : ∀ es ∈ s.databases, (es.map Prod.fst).Nodup)
    (hnonempty : ∀ es ∈ s.databases, ∀ p ∈ es, p.2.value.isEmptyCollection = false)
    {ks : Keyspace} (hceiling : ks.mayEvict = false) (hempty : ks.contents ks.now = Contents.none)
    (hcount : ∀ d ∈ s.liveDatabases, d.1 < ks.count) (hlater : s.takenAt ≤ ks.now)
    (fallback : Option Fallback) :
    ∃ commands, Wire.decodeAll s.reconstructionBytes = ⟨commands, [], none⟩
      ∧ commands.length = s.reconstruction.length
      ∧ (∀ verdict ∈ ((Session.start ks fallback).applyAll commands).2, verdict = .ok ())
      ∧ ks.Keeps ((Session.start ks fallback).applyAll commands).1.keyspace
      ∧ ∀ i key d,
        ((Session.start ks fallback).applyAll commands).1.keyspace.contents ks.now i key = some d
          ↔ ∃ e, (key, e) ∈ liveAt ks.now (s.databases.getD i []) ∧ e.datum = d := by
  have hstart : (Session.start ks fallback).Rests ks.now ks.count Contents.none none :=
    ⟨hceiling, rfl, rfl, hempty, fun _ hnone => nomatch hnone⟩
  have hbuilt := builds_reconstruction hfits hdistinct hcount _ hstart
  refine ⟨s.reconstruction, decodeAll_reconstruction hfits, rfl, hbuilt.verdicts, hbuilt.keeps, ?_⟩
  intro i key d
  rw [hbuilt.rests.contents_eq]
  exact live_held_iff hlater hdistinct hnonempty i key d

/-- A snapshot taken at 10: a list, and a string with the deadline 20. -/
def agedSnapshot : Snapshot :=
  ⟨10, [[], [([108], Entry.fresh (.list [[97], [98]]) none),
    ([107], Entry.fresh (.string [118]) (some 20))]]⟩

/-- At 50 the list is there, in its order, and the string is not.  It was written, by the
fourth and the fifth of the commands. -/
theorem reconstruction_rebuilds_agedSnapshot :
    ∃ commands, Wire.decodeAll agedSnapshot.reconstructionBytes = ⟨commands, [], none⟩
      ∧ commands.length = 5
      ∧ (∀ verdict ∈ ((Session.start (Keyspace.new 2 50) none).applyAll commands).2, verdict = .ok ())
      ∧ ((Session.start (Keyspace.new 2 50) none).applyAll commands).1.keyspace.contents 50 1 [108]
        = some ⟨.list [[97], [98]], none⟩
      ∧ ((Session.start (Keyspace.new 2 50) none).applyAll commands).1.keyspace.contents 50 1 [107]
        = none := by
  have hfits : agedSnapshot.Fits := by
    refine ⟨by decide, ?_, ?_, ?_, ?_⟩
    · simp [agedSnapshot]
    · simp [agedSnapshot, or_imp, forall_and]
    · simp [agedSnapshot, or_imp, forall_and, Entry.fresh, Value.Sound]
    · simp [agedSnapshot, or_imp, forall_and, Entry.fresh, Value.count]
  have hlive : liveAt (Keyspace.new 2 50).now (agedSnapshot.databases.getD 1 [])
      = [([108], Entry.fresh (.list [[97], [98]]) none)] := by decide
  obtain ⟨commands, hread, hlength, hverdicts, -, hcontents⟩ :=
    reconstruction_rebuilds hfits (by decide) (by decide)
      (show (Keyspace.new 2 50).mayEvict = false from rfl)
      (Keyspace.contents_of_replicate rfl _) (by decide) (by decide) none
  refine ⟨commands, hread, hlength, hverdicts, ?_, ?_⟩
  · apply (hcontents 1 [108] _).2
    rw [hlive]
    exact ⟨_, List.mem_singleton_self _, rfl⟩
  · by_contra hfound
    obtain ⟨d, hd⟩ := Option.ne_none_iff_exists'.1 hfound
    obtain ⟨e, he, -⟩ := (hcontents 1 [107] d).1 hd
    rw [hlive] at he
    simp at he

end Snapshot

end DurableStore
