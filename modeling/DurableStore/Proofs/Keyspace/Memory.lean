/-
  DurableStore.Proofs.Keyspace.Memory
  ────────────────────────────────
  **THE MEMORY COUNTERS ARE EXACT.**

  Each database counts the memory that its entries are charged, and a dozen
  operations keep the count up as they go.  They change a database in five
  ways only, and none of these takes more off the counter than the size of
  an entry that is stored there:

      Database.Charges   — one such change, with what it needs to be covered
      Keyspace.Charges   — it is made in one database of a keyspace, or the
                           databases stay as they are

  Where the counters are exact, a stored entry is covered by them; so every
  operation is a row of such changes, and each change leaves the counters
  exact.  A database that is loaded is charged for all of its list, so its
  counter is exact if no key is listed twice (`exact_loadAll_iff`).

  Main result: `memory_exact`.
-/
import DurableStore.Proofs.Keyspace.Changes

namespace DurableStore

/-! ## §1. Sums over maps. -/

namespace Assoc

variable {α : Type} (cost : Bytes × α → Nat) {ps : List (Bytes × α)}

theorem erase_cons (key : Bytes) (p : Bytes × α) (ps : List (Bytes × α)) :
    erase key (p :: ps) = if p.1 = key then erase key ps else p :: erase key ps := by
  unfold erase
  rw [List.filter_cons]
  by_cases hkey : p.1 = key
  · rw [if_pos hkey, if_neg (by simp [Bytes.order_eq_iff, hkey])]
  · rw [if_neg hkey, if_pos (by simp [Bytes.order_eq_iff, hkey])]

/-- What is put in is added, and what it replaces goes. -/
theorem totalCost_insert (h : Sorted ps) (key : Bytes) (value : α) :
    totalCost cost (insert key value ps) + (find? key ps).elim 0 (fun old => cost (key, old))
      = totalCost cost ps + cost (key, value) := by
  induction ps with
  | nil => exact Nat.add_comm _ _
  | cons p ps ih =>
    obtain ⟨k, v⟩ := p
    have hlater : ∀ q ∈ ps, k < q.1 := fun q hq => List.rel_of_pairwise_cons h hq
    have htail := ih (List.Pairwise.of_cons h)
    rw [insert_cons, find?_cons]
    by_cases hlt : key < k
    · -- the pair comes to stand at the front; no later key is the same
      have hne : key ≠ k := fun heq => List.lt_irrefl k (heq ▸ hlt)
      have hnone : find? key ps = none :=
        find?_eq_none_of_lt fun q hq => List.lt_trans hlt (hlater q hq)
      rw [if_pos hlt, if_neg hne, hnone]
      show cost (key, value) + totalCost cost ((k, v) :: ps) + 0 = _
      omega
    · rw [if_neg hlt]
      by_cases heq : key = k
      · rw [if_pos heq, if_pos heq, heq]
        show cost (k, value) + totalCost cost ps + cost (k, v) = cost (k, v) + totalCost cost ps + _
        omega
      · rw [if_neg heq, if_neg heq]
        show cost (k, v) + totalCost cost (insert key value ps) + _
          = cost (k, v) + totalCost cost ps + _
        omega

/-- What is dropped is taken off. -/
theorem totalCost_erase (h : Sorted ps) (key : Bytes) :
    totalCost cost (erase key ps) + (find? key ps).elim 0 (fun old => cost (key, old))
      = totalCost cost ps := by
  induction ps with
  | nil => rfl
  | cons p ps ih =>
    obtain ⟨k, v⟩ := p
    have hlater : ∀ q ∈ ps, k < q.1 := fun q hq => List.rel_of_pairwise_cons h hq
    have htail := ih (List.Pairwise.of_cons h)
    rw [erase_cons, find?_cons]
    by_cases heq : key = k
    · rw [heq, find?_eq_none_of_lt hlater] at htail
      rw [if_pos heq, if_pos heq.symm, heq]
      show _ + cost (k, v) = cost (k, v) + totalCost cost ps
      rw [← htail]
      exact Nat.add_comm _ _
    · rw [if_neg heq, if_neg (Ne.symm heq)]
      show cost (k, v) + totalCost cost (erase key ps) + _ = cost (k, v) + totalCost cost ps
      omega

end Assoc

/-- Pairs find their keys free behind another pair exactly if they have other keys than
that, and found them free before. -/
theorem ByteMap.free_after_insert_iff {α : Type} {m : ByteMap α} {p : Bytes × α}
    {ps : List (Bytes × α)} :
    (∀ q ∈ ps, (m.insert p.1 p.2).find? q.1 = none)
      ↔ p.1 ∉ ps.map Prod.fst ∧ ∀ q ∈ ps, m.find? q.1 = none := by
  constructor
  · intro h
    have hother : ∀ q ∈ ps, q.1 ≠ p.1 ∧ m.find? q.1 = none := by
      intro q hq
      have hq := h q hq
      rw [ByteMap.find?_insert] at hq
      split at hq
      · cases hq
      · rename_i hne
        exact ⟨hne, hq⟩
    refine ⟨?_, fun q hq => (hother q hq).2⟩
    intro hmem
    obtain ⟨q, hq, hkey⟩ := List.mem_map.1 hmem
    exact (hother q hq).1 hkey
  · rintro ⟨hnew, hfree⟩ q hq
    have hne : q.1 ≠ p.1 := fun hkey => hnew (hkey ▸ List.mem_map_of_mem hq)
    rw [ByteMap.find?_insert, if_neg hne]
    exact hfree q hq

/-- **Pairs that are put in one after the other**, by induction on them: what is stored
then costs no more than all of them together, and as much exactly if none of them takes
the place of another. -/
theorem ByteMap.totalCost_insertMany {α : Type} {cost : Bytes × α → Nat} (hpos : ∀ p, 0 < cost p)
    (m : ByteMap α) (ps : List (Bytes × α)) :
    totalCost cost (m.insertMany ps).toList ≤ totalCost cost m.toList + totalCost cost ps
      ∧ (totalCost cost (m.insertMany ps).toList = totalCost cost m.toList + totalCost cost ps
        ↔ (ps.map Prod.fst).Nodup ∧ ∀ p ∈ ps, m.find? p.1 = none) := by
  induction ps generalizing m with
  | nil =>
    refine ⟨Nat.le_refl _, iff_of_true rfl ⟨List.nodup_nil, fun p hp => ?_⟩⟩
    exact absurd hp List.not_mem_nil
  | cons p ps ih =>
    obtain ⟨hle, heq⟩ := ih (m.insert p.1 p.2)
    have hfirst : totalCost cost (m.insert p.1 p.2).toList
        + (m.find? p.1).elim 0 (fun old => cost (p.1, old)) = totalCost cost m.toList + cost p :=
      Assoc.totalCost_insert cost m.sorted p.1 p.2
    have hfree : (m.find? p.1).elim 0 (fun old => cost (p.1, old)) = 0 ↔ m.find? p.1 = none := by
      cases m.find? p.1 with
      | none => exact iff_of_true rfl rfl
      | some old => exact iff_of_false (Nat.ne_of_gt (hpos (p.1, old))) (by simp)
    rw [List.map_cons, List.nodup_cons, List.forall_mem_cons]
    show totalCost cost ((m.insert p.1 p.2).insertMany ps).toList
        ≤ totalCost cost m.toList + (cost p + totalCost cost ps)
      ∧ (totalCost cost ((m.insert p.1 p.2).insertMany ps).toList
        = totalCost cost m.toList + (cost p + totalCost cost ps) ↔ _)
    refine ⟨by omega, ?_⟩
    -- equality leaves no slack: the first pair replaces nothing, and the rest replace nothing
    rw [free_after_insert_iff] at heq
    constructor
    · intro h
      have hrest := heq.1 (by omega)
      exact ⟨⟨hrest.2.1, hrest.1⟩, hfree.1 (by omega), hrest.2.2⟩
    · rintro ⟨⟨hnew, hnodup⟩, hnone, hnones⟩
      have hrest := heq.2 ⟨hnodup, hnew, hnones⟩
      have hzero := hfree.2 hnone
      omega

theorem totalCost_map {α β : Type} (cost : β → Nat) (f : α → β) (items : List α) :
    totalCost cost (items.map f) = totalCost (fun item => cost (f item)) items :=
  List.foldr_map

theorem totalCost_append {α : Type} (cost : α → Nat) (as bs : List α) :
    totalCost cost (as ++ bs) = totalCost cost as + totalCost cost bs := by
  induction as with
  | nil => exact (Nat.zero_add _).symm
  | cons a as ih =>
    show cost a + totalCost cost (as ++ bs) = cost a + totalCost cost as + totalCost cost bs
    rw [ih, Nat.add_assoc]

/-! ## §2. One database. -/

namespace Database

/-- The counter is what the stored entries are charged. -/
def Exact (db : Database) : Prop := db.memory = db.entrySizes

/-- A change of a database in which all that is taken off the counter is the size of an
entry that is stored, and is covered by the counter. -/
inductive Charges (db : Database) : Database → Prop
  | store {key : Bytes} {before after : Entry} (hstored : db.entries.find? key = some before)
      (hsize : after.size key = before.size key) : Charges db (db.store key after)
  | replace {key : Bytes} {before after : Entry} (hstored : db.entries.find? key = some before)
      (hcovered : before.size key ≤ db.memory) : Charges db (db.replace key before after)
  | insert {key : Bytes} {entry : Entry}
      (hcovered : ∀ previous, db.entries.find? key = some previous → previous.size key ≤ db.memory) :
      Charges db (db.insert key entry)
  | erase {key : Bytes} {entry : Entry} (hstored : db.entries.find? key = some entry)
      (hcovered : entry.size key ≤ db.memory) : Charges db (db.erase key entry)
  | sample (size : Nat) : Charges db (db.sample size).2

variable {db db' : Database} {key : Bytes} {entry : Entry}

/-- What is stored under a key comes in the place of what stood there. -/
theorem entrySizes_insert (h : db'.entries = db.entries.insert key entry) :
    db'.entrySizes + (db.entries.find? key).elim 0 (fun e => e.size key)
      = db.entrySizes + entry.size key := by
  unfold entrySizes
  rw [h]
  exact Assoc.totalCost_insert (fun p : Bytes × Entry => p.2.size p.1) db.entries.sorted key entry

theorem entrySizes_erase (h : db.entries.find? key = some entry) :
    (db.erase key entry).entrySizes + entry.size key = db.entrySizes := by
  have hsum := Assoc.totalCost_erase (fun p : Bytes × Entry => p.2.size p.1) db.entries.sorted key
  have hfind : Assoc.find? key db.entries.toList = some entry := h
  rw [hfind] at hsum
  exact hsum

/-- **An exact counter covers every stored entry.** -/
theorem Exact.covers (hexact : db.Exact) (h : db.entries.find? key = some entry) :
    entry.size key ≤ db.memory := by
  have hsum := entrySizes_erase h
  unfold Exact at hexact
  omega

theorem memory_sample (db : Database) (size : Nat) : (db.sample size).2.memory = db.memory := by
  rw [sample_eq_sampleAlong, sampleAlong_snd]

/-- **A covered change leaves an exact counter exact.** -/
theorem Charges.exact (h : db.Charges db') (hexact : db.Exact) : db'.Exact := by
  unfold Exact at hexact ⊢
  cases h with
  | @store key before after hstored hsize =>
    have hsum : (db.store key after).entrySizes + _ = _ := entrySizes_insert rfl
    rw [hstored, Option.elim_some] at hsum
    show db.memory = _
    omega
  | @replace key before after hstored hcovered =>
    have hsum : (db.replace key before after).entrySizes + _ = _ := entrySizes_insert rfl
    rw [hstored, Option.elim_some] at hsum
    show (if before.size key ≤ after.size key then db.memory + (after.size key - before.size key)
      else db.memory - (before.size key - after.size key)) = _
    split <;> omega
  | @insert key entry hcovered =>
    have hsum : (db.insert key entry).entrySizes + _ = _ := entrySizes_insert rfl
    cases hfind : db.entries.find? key with
    | none =>
      have hmemory : (db.insert key entry).memory = db.memory + entry.size key := by
        unfold Database.insert
        rw [hfind]
      rw [hfind, Option.elim_none] at hsum
      omega
    | some previous =>
      have hmemory : (db.insert key entry).memory
          = db.memory + entry.size key - previous.size key := by
        unfold Database.insert
        rw [hfind]
      have hcovers := hcovered previous hfind
      rw [hfind, Option.elim_some] at hsum
      omega
  | @erase key entry hstored hcovered =>
    have hsum := entrySizes_erase hstored
    show db.memory - entry.size key = _
    omega
  | sample size =>
    unfold entrySizes at hexact ⊢
    rw [memory_sample, entries_sample]
    exact hexact

end Database

namespace Keyspace

variable {ks ks' : Keyspace} {i : Nat} {key : Bytes}

/-! ## §3. A keyspace. -/

/-- The counter of every database is exact. -/
def Exact (ks : Keyspace) : Prop := ∀ db ∈ ks.databases, db.Exact

/-- A covered change in one of the databases, or a change of something else. -/
inductive Charges : Keyspace → Keyspace → Prop
  | database {ks : Keyspace} {i : Nat} {db : Database} {f : Database → Database}
      (hdb : ks.databases[i]? = some db) (h : db.Charges (f db)) : Charges ks (ks.modifyDatabase i f)
  | other {ks ks' : Keyspace} (h : ks'.databases = ks.databases) : Charges ks ks'

/-- Covered changes one after the other. -/
abbrev Pays : Keyspace → Keyspace → Prop := Relation.ReflTransGen Charges

theorem exact_modifyDatabase {f : Database → Database} (hexact : ks.Exact)
    (h : ∀ db, ks.databases[i]? = some db → (f db).Exact) : (ks.modifyDatabase i f).Exact := by
  intro db hdb
  obtain ⟨j, hj⟩ := List.mem_iff_getElem?.1 hdb
  unfold modifyDatabase at hj
  dsimp only at hj
  rw [List.getElem?_modify, Option.map_eq_map, Option.map_eq_some_iff] at hj
  obtain ⟨before, hbefore, rfl⟩ := hj
  split
  · rename_i heq
    rw [← heq] at hbefore
    exact h before hbefore
  · exact hexact before (List.mem_of_getElem? hbefore)

theorem Exact.covers {db : Database} {entry : Entry} (hexact : ks.Exact)
    (hdb : ks.databases[i]? = some db) (hstored : db.entries.find? key = some entry) :
    entry.size key ≤ db.memory :=
  (hexact db (List.mem_of_getElem? hdb)).covers hstored

theorem Charges.exact (h : ks.Charges ks') (hexact : ks.Exact) : ks'.Exact := by
  cases h with
  | @database i db f hdb h =>
    refine exact_modifyDatabase hexact fun db' hdb' => ?_
    cases hdb.symm.trans hdb'
    exact h.exact (hexact db (List.mem_of_getElem? hdb))
  | other h =>
    unfold Exact
    rw [h]
    exact hexact

theorem Pays.exact (h : ks.Pays ks') (hexact : ks.Exact) : ks'.Exact := by
  induction h with
  | refl => exact hexact
  | tail _ hstep ih => exact hstep.exact ih

/-- **Whatever happens to a keyspace with exact counters is paid for.** -/
theorem Change.pays (h : Change ks ks') (hexact : ks.Exact) : ks.Pays ks' := by
  cases h with
  | count => exact .single (.other rfl)
  | sample hdb size => exact .single (.database hdb (.sample size))
  | touch hdb hstored => exact .single (.database hdb (.store hstored rfl))
  | replace hdb hstored after =>
    exact .single (.database hdb (.replace hstored (hexact.covers hdb hstored)))
  | write hdb key entry =>
    have hinsert := Charges.database (f := (·.insert key (entry.touch ks.now))) hdb
      (.insert fun previous hstored => hexact.covers hdb hstored)
    exact (Relation.ReflTransGen.single hinsert).tail (.other (databases_notify _ _ _ _))
  | @discard i key db entry event hdb hstored hevent =>
    have herase := Charges.database (f := (·.erase key entry)) hdb
      (.erase hstored (hexact.covers hdb hstored))
    exact (Relation.ReflTransGen.single herase).tail (.other (databases_discard ks i key entry event))

/-- A row of changes, by induction on it: the counters are exact at each of them. -/
theorem Changes.pays (h : Changes ks ks') (hexact : ks.Exact) : ks.Pays ks' := by
  induction h with
  | refl => exact .refl
  | tail _ hstep ih => exact ih.trans (hstep.pays (ih.exact hexact))

/-! ## §4. Runs. -/

/-- One step of a run: an operation on keys, one on whole databases, another clock reading
or other limits.  A snapshot that is restored holds each key once. -/
inductive Step : Keyspace → Keyspace → Prop
  | work {ks ks' : Keyspace} (h : Work ks ks') : Step ks ks'
  | clear {ks ks' : Keyspace} {i : Nat} (h : ks.clear i = .ok ks') : Step ks ks'
  | clearAll (ks : Keyspace) : Step ks ks.clearAll
  | swap {ks ks' : Keyspace} {a b : Nat} (h : ks.swap a b = .ok ks') : Step ks ks'
  | restore {ks ks' : Keyspace} {s : Snapshot}
      (hdistinct : ∀ entries ∈ s.databases, (entries.map Prod.fst).Nodup)
      (h : ks.restore s = .ok ks') : Step ks ks'
  | clock (ks : Keyspace) (t : Millis) : Step ks (ks.atTime t)
  | limits (ks : Keyspace) (maxMemory : Nat) (policy : EvictionPolicy) :
      Step ks ((ks.withMaxMemory maxMemory).withPolicy policy)

/-- **Every operation on keys is a row of covered changes**, where the counters are exact. -/
theorem Work.pays (h : Work ks ks') (hexact : ks.Exact) : ks.Pays ks' := h.changes.pays hexact

theorem size_pos (p : Bytes × Entry) : 0 < p.2.size p.1 := by
  unfold Entry.size Entry.overhead
  omega

/-- **A loaded database is charged for every live entry of its list.** -/
theorem memory_loadAll (now : Millis) (entries : List (Bytes × Entry)) :
    (loadAll now entries).memory
      = totalCost (fun p => p.2.size p.1) (Snapshot.liveAt now entries) := by
  have hcharged : ∀ (live : List (Bytes × Entry)) (db : Database),
      (live.foldl (load now) db).memory = db.memory + totalCost (fun p => p.2.size p.1) live := by
    intro live
    induction live with
    | nil => exact fun db => rfl
    | cons p live ih => exact fun db => (ih (load now db p)).trans (Nat.add_assoc _ _ _)
  exact (hcharged _ Database.empty).trans (Nat.zero_add _)

/-- **A loaded database has the costs of its list**, if no entry of the list takes the place
of another, and else less. -/
theorem totalCost_loadAll {cost : Bytes × Entry → Nat} (hpos : ∀ p, 0 < cost p)
    (hcost : ∀ p now, cost (p.1, p.2.touch now) = cost p) (now : Millis)
    (entries : List (Bytes × Entry)) :
    totalCost cost (loadAll now entries).entries.toList
        ≤ totalCost cost (Snapshot.liveAt now entries)
      ∧ (totalCost cost (loadAll now entries).entries.toList
          = totalCost cost (Snapshot.liveAt now entries)
        ↔ ((Snapshot.liveAt now entries).map Prod.fst).Nodup) := by
  unfold loadAll
  rw [entries_foldl_load]
  generalize Snapshot.liveAt now entries = live
  obtain ⟨hle, heq⟩ := ByteMap.totalCost_insertMany hpos ByteMap.empty
    (live.map fun p => (p.1, p.2.touch now))
  have htouched :
      totalCost cost (live.map fun p => (p.1, p.2.touch now)) = totalCost cost live := by
    rw [totalCost_map]
    simp only [hcost]
  have hkeys : (live.map fun p => (p.1, p.2.touch now)).map Prod.fst = live.map Prod.fst := by
    rw [List.map_map]
    rfl
  rw [htouched, hkeys, show totalCost cost (ByteMap.empty : ByteMap Entry).toList = 0 from rfl,
    Nat.zero_add] at heq
  rw [htouched, show totalCost cost (ByteMap.empty : ByteMap Entry).toList = 0 from rfl,
    Nat.zero_add] at hle
  exact ⟨hle, heq.trans (and_iff_left fun _ _ => rfl)⟩

/-- **The counter of a loaded database is exact** if no entry of its list takes the place of
another, and else it is too great. -/
theorem exact_loadAll_iff (now : Millis) (entries : List (Bytes × Entry)) :
    (loadAll now entries).entrySizes ≤ (loadAll now entries).memory
      ∧ ((loadAll now entries).Exact ↔ ((Snapshot.liveAt now entries).map Prod.fst).Nodup) := by
  unfold Database.Exact Database.entrySizes
  rw [memory_loadAll, eq_comm]
  exact totalCost_loadAll size_pos (fun _ _ => rfl) now entries

theorem exact_loadAll (now : Millis) {entries : List (Bytes × Entry)}
    (h : (entries.map Prod.fst).Nodup) : (loadAll now entries).Exact :=
  (exact_loadAll_iff now entries).2.2 ((List.filter_sublist.map Prod.fst).nodup h)

/-- **A step leaves the counters exact.** -/
theorem Step.exact (h : Step ks ks') (hexact : ks.Exact) : ks'.Exact := by
  cases h with
  | work h => exact (h.pays hexact).exact hexact
  | clear h =>
    obtain ⟨-, -, h⟩ := exists_of_bind h
    cases h
    exact exact_modifyDatabase hexact fun _ _ => rfl
  | clearAll =>
    intro db hdb
    obtain ⟨_, -, rfl⟩ := List.mem_map.1 hdb
    rfl
  | swap h =>
    obtain ⟨da, hda, h⟩ := exists_of_bind h
    obtain ⟨db, hdb, h⟩ := exists_of_bind h
    cases h
    intro other hother
    rcases List.mem_or_eq_of_mem_set hother with hother | rfl
    · rcases List.mem_or_eq_of_mem_set hother with hother | rfl
      · exact hexact other hother
      · exact hexact _ (List.mem_of_getElem? (getElem?_of_database hdb))
    · exact hexact _ (List.mem_of_getElem? (getElem?_of_database hda))
  | @restore _ s hdistinct h =>
    obtain ⟨-, rfl⟩ := Keyspace.restore_eq_ok_iff.1 h
    intro db hdb
    obtain ⟨i, -, rfl⟩ := List.mem_map.1 hdb
    exact exact_loadAll ks.now (forall_getD hdistinct [] List.nodup_nil i)
  | clock t => exact hexact
  | limits maxMemory policy => exact hexact

theorem exact_new (count : Nat) (now : Millis) : (Keyspace.new count now).Exact := by
  intro db hdb
  obtain rfl := List.eq_of_mem_replicate hdb
  rfl

theorem exact_of_run {count : Nat} {now : Millis}
    (h : Relation.ReflTransGen Step (Keyspace.new count now) ks) : ks.Exact := by
  induction h with
  | refl => exact exact_new count now
  | tail _ hstep ih => exact hstep.exact ih

/-- Exact counters add up to the sum over all entries. -/
theorem Exact.usedMemory_eq (hexact : ks.Exact) :
    ks.usedMemory
      = totalCost (fun p => p.2.size p.1) (ks.databases.flatMap fun db => db.entries.toList) := by
  unfold Exact at hexact
  unfold usedMemory
  generalize ks.databases = dbs at hexact
  induction dbs with
  | nil => rfl
  | cons db dbs ih =>
    obtain ⟨hdb, hdbs⟩ := List.forall_mem_cons.1 hexact
    rw [List.flatMap_cons, totalCost_append, ← ih hdbs]
    show db.memory + totalCost Database.memory dbs = _
    rw [hdb]
    rfl

/-- **The memory counters are exact.**  After any run from an empty keyspace, under any
limits, each database has counted the sizes of the entries that it stores, dead ones
included; the memory in use is the sum over all stored entries; and whatever is done
next with the keys takes no more off a counter than stands there. -/
theorem memory_exact {count : Nat} {now : Millis} {ks : Keyspace}
    (h : Relation.ReflTransGen Step (Keyspace.new count now) ks) :
    (∀ db ∈ ks.databases, db.memory = totalCost (fun p => p.2.size p.1) db.entries.toList)
      ∧ ks.usedMemory
        = totalCost (fun p => p.2.size p.1) (ks.databases.flatMap fun db => db.entries.toList)
      ∧ ∀ ks', Work ks ks' → Relation.ReflTransGen Charges ks ks' := by
  have hexact := exact_of_run h
  exact ⟨hexact, hexact.usedMemory_eq, fun ks' hwork => hwork.pays hexact⟩

/-- A key that is dead and still stored is counted. -/
theorem memory_exact_dead :
    ∃ ks, Relation.ReflTransGen Step (Keyspace.new 1 0) ks
      ∧ ks.contents ks.now 0 [107] = none ∧ ks.usedMemory = 50
      ∧ (∀ db ∈ ks.databases, db.memory = totalCost (fun p => p.2.size p.1) db.entries.toList)
      ∧ ks.usedMemory
        = totalCost (fun p => p.2.size p.1) (ks.databases.flatMap fun db => db.entries.toList)
      ∧ ∀ ks', Work ks ks' → Relation.ReflTransGen Charges ks ks' := by
  have hput : (Keyspace.new 1 0).put 0 [107] (Entry.fresh (.string [118]) (some 5))
      = .ok ⟨[⟨ByteMap.empty.insert [107] (Entry.fresh (.string [118]) (some 5)), 50, 0⟩], 0, 0,
          .noEviction, 0, ⟨0, 0, 0, 0⟩, false, []⟩ := rfl
  have hrun := (Relation.ReflTransGen.single (Step.work (.put hput))).tail (.clock _ 9)
  exact ⟨_, hrun, rfl, rfl, memory_exact hrun⟩

end Keyspace

end DurableStore
