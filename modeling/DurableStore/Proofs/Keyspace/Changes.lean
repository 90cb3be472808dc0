/-
  DurableStore.Proofs.Keyspace.Changes
  ────────────────────────────────
  **WHAT THE OPERATIONS ON KEYS ARE MADE OF.**

  Reading, writing, removing and changing keys, sweeping and making room
  come down to six things that can happen to a keyspace, each of them with
  what stands in the database that it happens in:

      Change    — one of them
      Changes   — a row of them
      Work      — an operation on keys that went through

  Whatever each of the six leaves true stays true through every operation
  on keys, without another look at the operations.

  Main result: `Work.changes`.
-/
import DurableStore.Proofs.Keyspace.Eviction
import DurableStore.Proofs.Keyspace.Steps

namespace DurableStore

/-- Whether a key is stored after an event. -/
def Event.isWrite : Event → Bool
  | .new | .set => true
  | .del | .expired | .evicted => false

/-- The event of writing a key: a dead entry counts as none. -/
def Database.writeEvent (db : Database) (key : Bytes) (now : Millis) : Event :=
  match db.entries.find? key with
  | some previous => if previous.isExpired now then .new else .set
  | none => .new

namespace Keyspace

/-- One thing that happens to a keyspace: hits, misses or writes are counted; a sample is
taken; an entry is touched or changed in place; one is written or taken out. -/
inductive Change : Keyspace → Keyspace → Prop
  | count (ks : Keyspace) (hits misses writes : Nat) :
      Change ks { ks with writes, stats := { ks.stats with hits, misses } }
  | sample {ks : Keyspace} {i : Nat} {db : Database} (hdb : ks.databases[i]? = some db)
      (size : Nat) :
      Change ks (ks.modifyDatabase i fun _ => (db.sample size).2)
  | touch {ks : Keyspace} {i : Nat} {key : Bytes} {db : Database} {entry : Entry}
      (hdb : ks.databases[i]? = some db) (hstored : db.entries.find? key = some entry) :
      Change ks (ks.modifyDatabase i (·.store key (entry.touch ks.now)))
  | replace {ks : Keyspace} {i : Nat} {key : Bytes} {db : Database} {before : Entry}
      (hdb : ks.databases[i]? = some db) (hstored : db.entries.find? key = some before)
      (after : Entry) : Change ks (ks.modifyDatabase i (·.replace key before after))
  | write {ks : Keyspace} {i : Nat} {db : Database} (hdb : ks.databases[i]? = some db)
      (key : Bytes) (entry : Entry) :
      Change ks ((ks.modifyDatabase i (·.insert key (entry.touch ks.now))).notify i key
        (db.writeEvent key ks.now))
  | discard {ks : Keyspace} {i : Nat} {key : Bytes} {db : Database} {entry : Entry} {event : Event}
      (hdb : ks.databases[i]? = some db) (hstored : db.entries.find? key = some entry)
      (hevent : event.isWrite = false) : Change ks (ks.discard i key entry event)

/-- Changes one after the other. -/
abbrev Changes : Keyspace → Keyspace → Prop := Relation.ReflTransGen Change

variable {ks ks' : Keyspace} {i : Nat} {key : Bytes}

/-! ## §1. Single operations. -/

theorem changes_visit {found : Option Entry} (h : ks.visit i key = .ok (ks', found)) :
    ks.Changes ks' := by
  cases visits_of_visit h with
  | missing => exact .single (.count ks _ _ _)
  | dead hdb hstored =>
    exact (Relation.ReflTransGen.single (Change.discard hdb hstored rfl)).tail (.count _ _ _ _)
  | live hdb hstored =>
    exact (Relation.ReflTransGen.single (Change.touch hdb hstored)).tail (.count _ _ _ _)

theorem changes_update {α : Type} {change : Entry → Entry × α} {result : Option α}
    (h : ks.update i key change = .ok (ks', result)) : ks.Changes ks' := by
  rcases update_cases h with ⟨hvisit, -⟩ | ⟨between, before, hvisit, -, rfl⟩
  · exact changes_visit hvisit
  · obtain ⟨db, hdb, hstored⟩ := stored_of_visit hvisit
    have hreplaced := (changes_visit hvisit).tail (.replace hdb hstored (change before).1)
    split
    · refine hreplaced.tail (.discard (getElem?_modifyDatabase hdb _) ?_ rfl)
      unfold Database.replace
      dsimp only
      rw [ByteMap.find?_insert, if_pos rfl]
    · exact hreplaced

theorem changes_remove {found : Option Entry} (h : ks.remove i key = .ok (ks', found)) :
    ks.Changes ks' := by
  obtain ⟨db, hdb, ⟨-, -, rfl⟩ | ⟨entry, hstored, -, rfl⟩⟩ := remove_cases h
  · exact .refl
  · refine .single (.discard hdb hstored ?_)
    split <;> rfl

theorem changes_sweep (ks : Keyspace) : ks.Changes ks.sweep.1 := by
  refine Relation.ReflTransGen.mono ?_ _ _ (expires_sweep ks)
  rintro _ _ ⟨hdb, hstored⟩
  exact .discard hdb hstored rfl

/-- An attempt moves the cursor, and takes a sampled entry if it takes one. -/
theorem changes_attempt {db : Database} (hdb : ks.databases[i]? = some db) :
    ks.Changes (ks.attemptEviction i db).1 := by
  have hsample : ks.Changes (ks.modifyDatabase i fun _ => (db.sample ks.policy.sampleSize).2) :=
    .single (.sample hdb _)
  unfold attemptEviction
  dsimp only
  split
  · rename_i key entry hvictim
    refine hsample.tail (.discard (getElem?_modifyDatabase hdb _) ?_ rfl)
    rw [Database.entries_sample]
    exact (ByteMap.find?_eq_some_iff _).2 (@mem_of_victim? ks db (key, entry) hvictim)
  · exact hsample

/-- **A round of eviction**, by induction on the attempts that are left. -/
theorem changes_evictUpTo (budget : Nat) : ks.Changes (evictUpTo budget ks i).1 := by
  induction budget generalizing ks with
  | zero => exact .refl
  | succ budget ih =>
    unfold evictUpTo
    cases hdb : ks.databases[i]? with
    | none => exact .refl
    | some db =>
      dsimp only
      split
      · exact .refl
      · exact (changes_attempt hdb).trans ih

theorem changes_evict {n : Nat} (h : ks.evict i = .ok (ks', n)) : ks.Changes ks' := by
  obtain ⟨db, -, h⟩ := exists_of_bind h
  split at h
  · have hround : evictUpTo maxAttempts ks i = (ks', n) := Except.ok.inj h
    have hchanges : ks.Changes (evictUpTo maxAttempts ks i).1 := changes_evictUpTo maxAttempts
    rw [hround] at hchanges
    exact hchanges
  · cases h
    exact .refl

theorem changes_maybeEvict (ks : Keyspace) (i : Nat) : ks.Changes (ks.maybeEvict i).1 := by
  have hcount : ks.Changes ks.countWrite := .single (.count ks _ _ _)
  rcases maybeEvict_cases ks i with hsame | hcounted | ⟨n, hevict⟩
  · exact hsame.symm ▸ .refl
  · exact hcounted.symm ▸ hcount
  · exact hcount.trans (changes_evict hevict)

/-- A write makes room first. -/
theorem changes_put {entry : Entry} (h : ks.put i key entry = .ok ks') : ks.Changes ks' := by
  obtain ⟨-, -, h⟩ := exists_of_bind h
  obtain ⟨db, hdb, h⟩ := exists_of_bind h
  cases h
  exact (changes_maybeEvict ks i).tail (.write (getElem?_of_database hdb) key entry)

/-! ## §2. All of them. -/

/-- One operation that reads, writes or drops single keys. -/
inductive Work : Keyspace → Keyspace → Prop
  | get {ks ks' : Keyspace} {i : Nat} {key : Bytes} {found : Option Entry}
      (h : ks.get i key = .ok (ks', found)) : Work ks ks'
  | contains {ks ks' : Keyspace} {i : Nat} {key : Bytes} {found : Bool}
      (h : ks.contains i key = .ok (ks', found)) : Work ks ks'
  | put {ks ks' : Keyspace} {i : Nat} {key : Bytes} {entry : Entry}
      (h : ks.put i key entry = .ok ks') : Work ks ks'
  | remove {ks ks' : Keyspace} {i : Nat} {key : Bytes} {found : Option Entry}
      (h : ks.remove i key = .ok (ks', found)) : Work ks ks'
  | update {ks ks' : Keyspace} {i : Nat} {key : Bytes} {α : Type} {change : Entry → Entry × α}
      {result : Option α} (h : ks.update i key change = .ok (ks', result)) : Work ks ks'
  | setExpiry {ks ks' : Keyspace} {i : Nat} {key : Bytes} {expiresAt : Option Millis} {found : Bool}
      (h : ks.setExpiry i key expiresAt = .ok (ks', found)) : Work ks ks'
  | sweep (ks : Keyspace) : Work ks ks.sweep.1
  | evict {ks ks' : Keyspace} {i n : Nat} (h : ks.evict i = .ok (ks', n)) : Work ks ks'
  | maybeEvict (ks : Keyspace) (i : Nat) : Work ks (ks.maybeEvict i).1

/-- **Every operation on keys is a row of changes.** -/
theorem Work.changes (h : Work ks ks') : ks.Changes ks' := by
  cases h with
  | get h => exact changes_visit h
  | contains h =>
    obtain ⟨p, hvisit, h⟩ := exists_of_bind h
    cases h
    exact changes_visit hvisit
  | put h => exact changes_put h
  | remove h => exact changes_remove h
  | update h => exact changes_update h
  | setExpiry h =>
    obtain ⟨p, hupdate, h⟩ := exists_of_bind h
    cases h
    exact changes_update hupdate
  | sweep => exact changes_sweep ks
  | evict h => exact changes_evict h
  | maybeEvict i => exact changes_maybeEvict ks i

end Keyspace

end DurableStore
