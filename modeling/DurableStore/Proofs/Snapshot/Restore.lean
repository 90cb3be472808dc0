/-
  DurableStore.Proofs.Snapshot.Restore
  ────────────────────────────────
  **A DATASET RESTORED FROM ITS SNAPSHOT FILE.**

  A keyspace is copied, the copy is written as a snapshot file, the file is
  read back and put into another keyspace.  That one holds then what the
  first one held, as far as it is live there, whatever it held before:

      ks ─ snapshot ─ encode ─▸ bytes ─ decode ─ restore ─▸ ks'

  Nothing on this way is refused as long as the copy fits in memory
  (`Snapshot.Bounded`, `Datum.Sound`).

  Main result: `Keyspace.restore_encoded`.
-/
import DurableStore.Proofs.Journal.Rebuild

namespace DurableStore

/-! ## §1. Snapshots that fit. -/

namespace Snapshot

/-- The lists of a snapshot are no longer than memory allows. -/
structure Bounded (s : Snapshot) : Prop where
  databases : s.databases.length < lengthBound
  entries : ∀ entries ∈ s.databases, entries.length < lengthBound
  counts : ∀ entries ∈ s.databases, ∀ p ∈ entries, p.2.value.count < lengthBound

/-- **What is sound and not too long fits a snapshot file.** -/
theorem fits_of_sound {ks : Keyspace} (h : (ks.contents ks.now).Each Datum.Sound)
    (hbounded : ks.snapshot.Bounded) : ks.snapshot.Fits := by
  have hsound : ∀ entries ∈ ks.snapshot.databases, ∀ p ∈ entries, p.2.datum.Sound p.1 := by
    intro entries hentries p hp
    refine (Keyspace.each_of_mem_snapshot h hentries).2 p ?_
    obtain ⟨db, -, rfl⟩ := List.mem_map.1 hentries
    rw [liveAt_liveAt (UInt64.le_refl _)]
    exact hp
  exact ⟨hbounded.databases, hbounded.entries,
    fun entries hentries p hp => (hsound entries hentries p hp).key,
    fun entries hentries p hp => (hsound entries hentries p hp).value, hbounded.counts⟩

end Snapshot

/-! ## §2. Loading. -/

namespace Keyspace

theorem sorted_liveAt (t : Millis) {entries : List (Bytes × Entry)} (h : Assoc.Sorted entries) :
    Assoc.Sorted (Snapshot.liveAt t entries) :=
  List.Pairwise.filter _ h

/-- **What a loaded database holds.** -/
theorem datum?_loadAll (now : Millis) {entries : List (Bytes × Entry)} (h : Assoc.Sorted entries)
    (key : Bytes) :
    (loadAll now entries).datum? now key
      = (Assoc.find? key (Snapshot.liveAt now entries)).map Entry.datum := by
  have hlive := sorted_liveAt now h
  have hsorted : Assoc.Sorted ((Snapshot.liveAt now entries).map fun p => (p.1, p.2.touch now)) :=
    Assoc.sorted_map (fun e : Entry => e.touch now) hlive
  have htwice := find?_liveAt now hlive key
  rw [Snapshot.liveAt_liveAt (UInt64.le_refl _)] at htwice
  unfold Database.datum? loadAll
  rw [entries_foldl_load, ByteMap.find?_insertMany, Assoc.find?_reverse hsorted,
    Assoc.find?_map (fun e : Entry => e.touch now),
    show Database.empty.entries.find? key = none from rfl, Option.or_none, Option.map_map, htwice]
  rfl

/-- What is loaded was in the list. -/
theorem mem_of_find?_loadAll {now : Millis} {entries : List (Bytes × Entry)} {key : Bytes}
    {entry : Entry} (h : (loadAll now entries).entries.find? key = some entry) :
    ∃ p ∈ entries, p.1 = key ∧ p.2.datum = entry.datum := by
  have hmem := (ByteMap.find?_eq_some_iff _).1 h
  unfold loadAll at hmem
  rw [entries_foldl_load] at hmem
  rcases ByteMap.mem_insertMany hmem with hloaded | hnone
  · obtain ⟨p, hp, heq⟩ := List.mem_map.1 hloaded
    cases heq
    exact ⟨p, (List.mem_filter.1 hp).1, rfl, rfl⟩
  · exact absurd hnone List.not_mem_nil

/-- **What is true of every entry of a snapshot** is true of what a keyspace holds
that was restored from it. -/
theorem each_restore {ks ks' : Keyspace} {s : Snapshot} (h : ks.restore s = .ok ks')
    {P : Bytes → Datum → Prop}
    (hs : ∀ entries ∈ s.databases, ∀ p ∈ entries, P p.1 p.2.datum) (t : Millis) :
    (ks'.contents t).Each P := by
  have hcount : ks'.count = ks.count := (keeps_restore h).count
  intro i key d hd
  by_cases hi : i < ks.count
  · obtain ⟨entry, hentry, hdatum⟩ := Option.map_eq_some_iff.1 (Option.filter_eq_some_iff.1 hd).1
    obtain ⟨-, rfl⟩ := restore_eq_ok_iff.1 h
    rw [List.getD_eq_getElem?_getD, List.getElem?_map, List.getElem?_range hi, Option.map_some,
      Option.getD_some] at hentry
    obtain ⟨p, hp, hkey, hsame⟩ := mem_of_find?_loadAll hentry
    have hp := forall_getD hs [] (List.forall_mem_nil _) i p hp
    rw [hkey, hsame, hdatum] at hp
    exact hp
  · rw [contents_of_le (hcount ▸ Nat.le_of_not_lt hi)] at hd
    cases hd

/-- Reading back leaves the value and the deadline of an entry. -/
theorem find?_asRead (key : Bytes) (entries : List (Bytes × Entry)) :
    (Assoc.find? key (entries.map Snapshot.asRead)).map Entry.datum
      = (Assoc.find? key entries).map Entry.datum := by
  rw [show entries.map Snapshot.asRead
      = entries.map fun p => (p.1, Entry.fresh p.2.value p.2.expiresAt) from rfl,
    Assoc.find?_map (fun e : Entry => Entry.fresh e.value e.expiresAt), Option.map_map]
  rfl

/-- The live entries of entries that were read back. -/
theorem liveAt_map_asRead (t : Millis) (entries : List (Bytes × Entry)) :
    Snapshot.liveAt t (entries.map Snapshot.asRead)
      = (Snapshot.liveAt t entries).map Snapshot.asRead := by
  unfold Snapshot.liveAt
  rw [List.filter_map]
  rfl

/-- What a keyspace holds that was restored from a snapshot read back. -/
theorem restore_asReadBack {replica ks : Keyspace} (hcount : replica.count = ks.count) :
    ∃ ks', replica.restore (ks.snapshot.asReadBack replica.count replica.now) = .ok ks'
      ∧ ks'.contents replica.now = (ks.contents ks.now).live replica.now := by
  have hlength : (ks.snapshot.asReadBack replica.count replica.now).databases.length
      = replica.count := by
    unfold Snapshot.asReadBack
    rw [List.length_map, List.length_range]
  refine ⟨_, restore_of_le (Nat.le_of_eq hlength), ?_⟩
  funext i key
  by_cases hi : i < replica.count
  · have hsaved := sorted_liveAt ks.now (ks.databases.getD i Database.empty).entries.sorted
    have hread : (ks.snapshot.asReadBack replica.count replica.now).databases.getD i []
        = (Snapshot.liveAt replica.now (Snapshot.liveAt ks.now
          (ks.databases.getD i Database.empty).entries.toList)).map Snapshot.asRead := by
      unfold Snapshot.asReadBack
      rw [List.getD_eq_getElem?_getD, List.getElem?_map, List.getElem?_range hi, Option.map_some,
        Option.getD_some, getD_snapshot]
    have hsorted : Assoc.Sorted ((Snapshot.liveAt replica.now (Snapshot.liveAt ks.now
        (ks.databases.getD i Database.empty).entries.toList)).map Snapshot.asRead) :=
      Assoc.sorted_map (fun e : Entry => Entry.fresh e.value e.expiresAt)
        (sorted_liveAt replica.now hsaved)
    -- on both sides the key is looked up among the entries that were saved
    unfold Contents.live
    rw [contents_eq_find?_liveAt ks, ← find?_liveAt replica.now hsaved]
    unfold contents
    rw [List.getD_eq_getElem?_getD, List.getElem?_map, List.getElem?_range hi, Option.map_some,
      Option.getD_some, hread, datum?_loadAll _ hsorted, liveAt_map_asRead, find?_asRead,
      Snapshot.liveAt_liveAt (UInt64.le_refl _)]
  · have hle : replica.count ≤ i := Nat.le_of_not_lt hi
    have hleft : ks.contents ks.now i key = none := contents_of_le (hcount ▸ hle) _ _
    unfold Contents.live
    rw [hleft]
    refine contents_of_le ?_ _ _
    unfold count
    rw [List.length_map, List.length_range]
    exact hle

/-- **A dataset is restored from its snapshot file**, as far as it is live. -/
theorem restore_encoded (compression : Bool) {replica ks : Keyspace} (hfits : ks.snapshot.Fits)
    (hcount : replica.count = ks.count) :
    ∃ s ks', Snapshot.decode replica.count replica.now (Snapshot.encode compression ks.snapshot)
        = .ok s
      ∧ replica.restore s = .ok ks'
      ∧ ks'.contents replica.now = (ks.contents ks.now).live replica.now := by
  have hrange : ∀ d ∈ ks.snapshot.liveDatabases, d.1 < replica.count := by
    intro d hd
    obtain ⟨entries, hentries, -⟩ := Snapshot.mem_liveDatabases hd
    have hlt := (List.getElem?_eq_some_iff.1 hentries).1
    unfold snapshot at hlt
    rw [List.length_map] at hlt
    rw [hcount]
    exact hlt
  -- a copy holds only what was live when it was made
  have hlive : ∀ entries ∈ ks.snapshot.databases,
      Snapshot.liveAt replica.now (Snapshot.liveAt ks.snapshot.takenAt entries)
        = Snapshot.liveAt replica.now entries := by
    intro entries hentries
    obtain ⟨db, -, rfl⟩ := List.mem_map.1 hentries
    rw [show ks.snapshot.takenAt = ks.now from rfl, Snapshot.liveAt_liveAt (UInt64.le_refl _)]
  obtain ⟨ks', hrestore, hcontents⟩ := restore_asReadBack hcount
  exact ⟨_, ks', Snapshot.decode_encode_of_lt compression hfits hlive hrange, hrestore, hcontents⟩

end Keyspace

end DurableStore
