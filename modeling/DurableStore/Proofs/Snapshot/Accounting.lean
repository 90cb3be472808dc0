/-
  DurableStore.Proofs.Snapshot.Accounting
  ────────────────────────────────
  **WHAT A LOADED SNAPSHOT IS CHARGED.**

  A snapshot file may name a key twice in one database, in one section or in
  two sections with the same index.  Both records are listed, and the last
  one is what the database then holds.  But every record that is listed is
  charged for, and every one is counted as a loaded key:

      db.memory     — the sizes of all records of the database
      db.entrySizes — the sizes of the entries that it stores
      s.keyCount    — the number of all records of the file
      ks.storedKeys — the number of keys that the databases store

  Sizes and numbers are both costs of what is put into a map
  (`Keyspace.totalCost_loadAll`), so the books are right in both respects
  under one condition: no database names a key twice (`Snapshot.Distinct`).

  Main result: `restored_books_iff_distinct`.
-/
import DurableStore.Proofs.Keyspace.Memory
import DurableStore.Proofs.Snapshot.Scores

namespace DurableStore

/-! ## §1. Counting. -/

/-- The number of keys stored in all databases. -/
def Keyspace.storedKeys (ks : Keyspace) : Nat := totalCost (fun db => db.entries.size) ks.databases

/-- No database of a snapshot names a key twice. -/
def Snapshot.Distinct (s : Snapshot) : Prop :=
  ∀ entries ∈ s.databases, (entries.map Prod.fst).Nodup

instance (s : Snapshot) : Decidable s.Distinct :=
  inferInstanceAs (Decidable (∀ entries ∈ s.databases, (entries.map Prod.fst).Nodup))

theorem totalCost_one {α : Type} (items : List α) :
    totalCost (fun _ => 1) items = items.length := by
  induction items with
  | nil => rfl
  | cons item items ih =>
    show 1 + totalCost (fun _ => 1) items = items.length + 1
    rw [ih, Nat.add_comm]

/-- Costs that are each no greater add up to the same exactly if each is the same. -/
theorem totalCost_le {α : Type} {f g : α → Nat} {items : List α} (h : ∀ a ∈ items, f a ≤ g a) :
    totalCost f items ≤ totalCost g items
      ∧ (totalCost f items = totalCost g items ↔ ∀ a ∈ items, f a = g a) := by
  induction items with
  | nil => exact ⟨Nat.le_refl _, iff_of_true rfl fun a ha => absurd ha List.not_mem_nil⟩
  | cons a items ih =>
    obtain ⟨hfirst, hrest⟩ := List.forall_mem_cons.1 h
    obtain ⟨hle, heq⟩ := ih hrest
    rw [List.forall_mem_cons, ← heq]
    show f a + totalCost f items ≤ g a + totalCost g items
      ∧ (f a + totalCost f items = g a + totalCost g items ↔ _)
    omega

/-- The lengths of the first lists add up to the length of all, if the others are empty. -/
theorem length_flatten_eq {α : Type} (n : Nat) {lists : List (List α)}
    (h : ∀ items ∈ lists.drop n, items = []) :
    lists.flatten.length = totalCost (fun i => (lists.getD i []).length) (List.range n) := by
  induction n generalizing lists with
  | zero => exact congrArg List.length (List.flatten_eq_nil_iff.2 h)
  | succ n ih =>
    rw [List.range_succ_eq_map]
    show _ = (lists.getD 0 []).length + totalCost _ ((List.range n).map Nat.succ)
    rw [totalCost_map]
    cases lists with
    | nil =>
      have hnone := @ih [] (by simp)
      simpa using hnone
    | cons items lists =>
      rw [List.flatten_cons, List.length_append, ih h]
      rfl

theorem Snapshot.length_of_decode {databases : Nat} {now : Millis} {bytes : Bytes} {s : Snapshot}
    (h : Snapshot.decode databases now bytes = .ok s) : s.databases.length = databases := by
  have hgives : Gives (fun s : Snapshot => s.databases.length = databases)
      (decode databases now bytes) := by
    refine .bind (.bind (.any _) fun r _ => .bind (.any _) fun p _ => .ok ?_) fun q hq => .ok hq
    rw [List.length_map, List.length_range]
  exact hgives s h

/-! ## §2. Restoring. -/

namespace Keyspace

variable {ks ks' : Keyspace} {s : Snapshot}

/-- No key is named twice if that is so in each database that is restored. -/
theorem distinct_iff (hrest : ∀ entries ∈ s.databases.drop ks.count, entries = []) :
    s.Distinct ↔ ∀ i ∈ List.range ks.count, ((s.databases.getD i []).map Prod.fst).Nodup := by
  constructor
  · exact fun h i _ => forall_getD h [] List.nodup_nil i
  · intro h entries hentries
    obtain ⟨i, hi⟩ := List.mem_iff_getElem?.1 hentries
    by_cases hin : i < ks.count
    · have hnodup := h i (List.mem_range.2 hin)
      rw [List.getD_eq_getElem?_getD, hi] at hnodup
      exact hnodup
    · -- a list beyond the databases is empty
      have hbeyond : (s.databases.drop ks.count)[i - ks.count]? = some entries := by
        rw [List.getElem?_drop, Nat.add_sub_cancel' (Nat.le_of_not_lt hin)]
        exact hi
      rw [hrest entries (List.mem_of_getElem? hbeyond)]
      exact List.nodup_nil

/-- **How many keys a loaded database stores.** -/
theorem size_loadAll (now : Millis) (entries : List (Bytes × Entry)) :
    (loadAll now entries).entries.size ≤ (Snapshot.liveAt now entries).length
      ∧ ((loadAll now entries).entries.size = (Snapshot.liveAt now entries).length
        ↔ ((Snapshot.liveAt now entries).map Prod.fst).Nodup) := by
  have hcount := @totalCost_loadAll (fun _ => 1) (fun _ => Nat.one_pos) (fun _ _ => rfl) now entries
  rw [totalCost_one, totalCost_one] at hcount
  exact hcount

/-- Each database that was restored is the one of its list. -/
theorem eq_loadAll_of_restore (h : ks.restore s = .ok ks') {i : Nat} {db : Database}
    (hdb : ks'.databases[i]? = some db) : db = loadAll ks.now (s.databases.getD i []) := by
  obtain ⟨-, rfl⟩ := restore_eq_ok_iff.1 h
  rw [List.getElem?_map, Option.map_eq_some_iff] at hdb
  obtain ⟨j, hj, rfl⟩ := hdb
  obtain ⟨hin, hsame⟩ := List.getElem?_eq_some_iff.1 hj
  rw [List.getElem_range] at hsame
  rw [hsame]

theorem storedKeys_of_restore (h : ks.restore s = .ok ks') :
    ks'.storedKeys = totalCost (fun i => (loadAll ks.now (s.databases.getD i [])).entries.size)
      (List.range ks.count) := by
  obtain ⟨-, rfl⟩ := restore_eq_ok_iff.1 h
  exact totalCost_map _ _ _

/-- What was read is live, so the lists of a snapshot that was read are loaded as a whole. -/
theorem liveAt_of_decode {count : Nat} {now : Millis} {bytes : Bytes}
    (h : Snapshot.decode count now bytes = .ok s) (i : Nat) :
    Snapshot.liveAt now (s.databases.getD i []) = s.databases.getD i [] := by
  have hlive := forall_getD (Snapshot.live_of_decode h) [] (List.forall_mem_nil _) i
  exact List.filter_eq_self.2 fun p hp => by rw [hlive p hp]; rfl

/-- **When the books are right.**  A snapshot file is read, whoever wrote it, and restored at
the same time.  Nothing is in the way of that if there are as many databases.  Each database
is then charged for all of its records, which is never too little, and is the sizes of the
entries that it stores exactly if no two of its records name the same key.  The number of
records is the number of keys stored exactly if that is so in every database. -/
theorem restored_books_iff_distinct {count : Nat} {ks : Keyspace} {bytes : Bytes} {s : Snapshot}
    (hread : Snapshot.decode count ks.now bytes = .ok s) :
    (count ≤ ks.count → ∃ ks', ks.restore s = .ok ks')
      ∧ ∀ ks', ks.restore s = .ok ks' →
        (∀ i db, ks'.databases[i]? = some db →
          db.memory = totalCost (fun p => p.2.size p.1) (s.databases.getD i [])
            ∧ db.entrySizes ≤ db.memory
            ∧ (db.memory = db.entrySizes ↔ ((s.databases.getD i []).map Prod.fst).Nodup))
          ∧ ks'.storedKeys ≤ s.keyCount
          ∧ (s.keyCount = ks'.storedKeys ↔ s.Distinct) := by
  have hlive := liveAt_of_decode hread
  refine ⟨fun hcount => ⟨_, restore_of_le ((Snapshot.length_of_decode hread).trans_le hcount)⟩, ?_⟩
  intro ks' hrestore
  refine ⟨?_, ?_⟩
  · intro i db hdb
    obtain rfl := eq_loadAll_of_restore hrestore hdb
    have hmemory := memory_loadAll ks.now (s.databases.getD i [])
    have hexact := exact_loadAll_iff ks.now (s.databases.getD i [])
    rw [hlive] at hmemory hexact
    exact ⟨hmemory, hexact⟩
  · -- both numbers are sums over the databases, and no term of the first is greater
    have hrest := (restore_eq_ok_iff.1 hrestore).1
    have hlisted : s.keyCount
        = totalCost (fun i => (s.databases.getD i []).length) (List.range ks.count) :=
      length_flatten_eq ks.count hrest
    have hsize : ∀ i, (loadAll ks.now (s.databases.getD i [])).entries.size
          ≤ (s.databases.getD i []).length
        ∧ ((loadAll ks.now (s.databases.getD i [])).entries.size = (s.databases.getD i []).length
          ↔ ((s.databases.getD i []).map Prod.fst).Nodup) := by
      intro i
      have hcount := size_loadAll ks.now (s.databases.getD i [])
      rw [hlive] at hcount
      exact hcount
    obtain ⟨hle, heq⟩ := totalCost_le fun i (_ : i ∈ List.range ks.count) => (hsize i).1
    rw [storedKeys_of_restore hrestore, hlisted, distinct_iff hrest]
    exact ⟨hle, eq_comm.trans (heq.trans (forall₂_congr fun i _ => (hsize i).2))⟩

/-- A snapshot in which one key has two records. -/
def twiceNamed : Snapshot where
  takenAt := 50
  databases := [[(Bytes.ofString "k", Entry.fresh (.string (Bytes.ofString "v")) none),
    (Bytes.ofString "k", Entry.fresh (.string (Bytes.ofString "w")) none)]]

/-- A file of it is read, restored and charged for both records. -/
theorem restored_books_iff_distinct_twiceNamed :
    Snapshot.decode 1 50 (Snapshot.encode false twiceNamed) = .ok twiceNamed
      ∧ ∃ ks', (Keyspace.new 1 50).restore twiceNamed = .ok ks'
        ∧ (∀ i db, ks'.databases[i]? = some db →
          db.memory = totalCost (fun p => p.2.size p.1) (twiceNamed.databases.getD i [])
            ∧ db.entrySizes ≤ db.memory
            ∧ (db.memory = db.entrySizes
              ↔ ((twiceNamed.databases.getD i []).map Prod.fst).Nodup))
        ∧ ks'.storedKeys ≤ twiceNamed.keyCount
        ∧ (twiceNamed.keyCount = ks'.storedKeys ↔ twiceNamed.Distinct) := by
  have hread : Snapshot.decode 1 (Keyspace.new 1 50).now (Snapshot.encode false twiceNamed)
      = .ok twiceNamed := by decide +kernel
  obtain ⟨hrestores, hbooks⟩ := restored_books_iff_distinct hread
  obtain ⟨ks', hrestore⟩ := hrestores (Nat.le_refl 1)
  exact ⟨hread, ks', hrestore, hbooks ks' hrestore⟩

/-- **A key that is named twice is charged and counted twice**: one entry of 50 bytes is
stored, for which 100 bytes and two keys are reported. -/
theorem restore_charges_twice :
    Snapshot.decode 1 50 (Snapshot.encode false twiceNamed) = .ok twiceNamed
      ∧ twiceNamed.keyCount = 2
      ∧ ((Keyspace.new 1 50).restore twiceNamed).toOption.map (fun ks =>
          (ks.storedKeys, ks.databases.map fun db => (db.memory, db.entrySizes)))
        = some (1, [(100, 50)]) :=
  ⟨by decide +kernel, rfl, by decide +kernel⟩

end Keyspace

end DurableStore
