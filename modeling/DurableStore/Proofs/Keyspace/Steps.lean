/-
  DurableStore.Proofs.Keyspace.Steps
  ────────────────────────────────
  **WHAT AN OPERATION HAS DONE.**

  An operation that went through has read a database, found something under
  a key or nothing, and gone on from there.  Each of the lemmas below takes
  one operation apart and says all that it can have done, so that nobody
  opens the definitions again:

      Visits    — a lookup misses, takes a dead entry out, or touches
      Expires   — one dead entry goes; a sweep is a row of these

  Main results: `visits_of_visit`, `update_cases`, `remove_cases`,
  `expires_sweep`.
-/
import Mathlib.Logic.Relation
import DurableStore.Proofs.Keyspace.Contents
import DurableStore.Proofs.Results

namespace DurableStore.Keyspace

variable {ks ks' : Keyspace} {i : Nat} {key : Bytes}

/-! ## §1. Databases. -/

/-- What is done in a database is done in one that exists. -/
theorem lt_of_bind {α : Type} {next : Database → Except KeyspaceError α} {result : α}
    (h : ks.database i >>= next = .ok result) : i < ks.count := by
  obtain ⟨db, hdb, -⟩ := exists_of_bind h
  by_contra hle
  rw [database_of_le (Nat.le_of_not_lt hle)] at hdb
  cases hdb

theorem getElem?_of_database {db : Database} (h : ks.database i = .ok db) :
    ks.databases[i]? = some db := by
  unfold database at h
  split at h
  · rename_i hget
    cases h
    exact hget
  · cases h

theorem getElem?_modifyDatabase {db : Database} (h : ks.databases[i]? = some db)
    (f : Database → Database) : (ks.modifyDatabase i f).databases[i]? = some (f db) := by
  unfold modifyDatabase
  dsimp only
  rw [List.getElem?_modify, h, Option.map_eq_map, Option.map_some, if_pos rfl]

theorem databases_discard (ks : Keyspace) (i : Nat) (key : Bytes) (entry : Entry) (event : Event) :
    (ks.discard i key entry event).databases
      = (ks.modifyDatabase i (·.erase key entry)).databases := by
  unfold discard
  rw [databases_notify, databases_countRemoval]

/-! ## §2. Operations on one key. -/

/-- What a lookup does and finds. -/
inductive Visits (ks : Keyspace) (i : Nat) (key : Bytes) : Keyspace → Option Entry → Prop
  | missing {db : Database} (hdb : ks.databases[i]? = some db)
      (hnone : db.entries.find? key = none) : Visits ks i key ks.countMiss none
  | dead {db : Database} {entry : Entry} (hdb : ks.databases[i]? = some db)
      (hstored : db.entries.find? key = some entry) (hdead : entry.isExpired ks.now = true) :
      Visits ks i key (ks.discard i key entry .expired).countMiss none
  | live {db : Database} {entry : Entry} (hdb : ks.databases[i]? = some db)
      (hstored : db.entries.find? key = some entry) (hlive : entry.isExpired ks.now = false) :
      Visits ks i key (ks.modifyDatabase i (·.store key (entry.touch ks.now))).countHit
        (some (entry.touch ks.now))

theorem visits_of_visit {found : Option Entry} (h : ks.visit i key = .ok (ks', found)) :
    ks.Visits i key ks' found := by
  obtain ⟨db, hdb, h⟩ := exists_of_bind h
  have hget := getElem?_of_database hdb
  cases hfind : db.entries.find? key with
  | none =>
    rw [hfind] at h
    cases h
    exact .missing hget hfind
  | some entry =>
    rw [hfind] at h
    dsimp only at h
    split at h
    · rename_i hdead
      cases h
      exact .dead hget hfind hdead
    · rename_i hlive
      cases h
      exact .live hget hfind (Bool.eq_false_iff.2 hlive)

/-- What a lookup finds is stored, touched, under the key. -/
theorem stored_of_visit {entry : Entry} (h : ks.visit i key = .ok (ks', some entry)) :
    ∃ db, ks'.databases[i]? = some db ∧ db.entries.find? key = some entry := by
  cases visits_of_visit h with
  | live hdb hstored hlive =>
    refine ⟨_, getElem?_modifyDatabase hdb _, ?_⟩
    unfold Database.store
    dsimp only
    rw [ByteMap.find?_insert, if_pos rfl]

/-- A change in place: nothing is found, or what is found is changed, and taken out
if an empty collection is left. -/
theorem update_cases {α : Type} {change : Entry → Entry × α} {result : Option α}
    (h : ks.update i key change = .ok (ks', result)) :
    (ks.visit i key = .ok (ks', none) ∧ result = none)
      ∨ ∃ between before, ks.visit i key = .ok (between, some before)
        ∧ result = some (change before).2
        ∧ ks' = if (change before).1.value.isEmptyCollection then
            (between.modifyDatabase i (·.replace key before (change before).1)).discard i key
              (change before).1 .del
          else between.modifyDatabase i (·.replace key before (change before).1) := by
  obtain ⟨⟨between, found⟩, hvisit, h⟩ := exists_of_bind h
  cases found with
  | none =>
    cases h
    exact .inl ⟨hvisit, rfl⟩
  | some before =>
    refine .inr ⟨between, before, hvisit, ?_⟩
    dsimp only at h
    split at h
    · rename_i hempty
      cases h
      exact ⟨rfl, (if_pos hempty).symm⟩
    · rename_i hfull
      cases h
      exact ⟨rfl, (if_neg hfull).symm⟩

/-- A removal finds nothing, or takes out what is stored and returns it if it was live. -/
theorem remove_cases {found : Option Entry} (h : ks.remove i key = .ok (ks', found)) :
    ∃ db, ks.databases[i]? = some db
      ∧ ((db.entries.find? key = none ∧ found = none ∧ ks' = ks)
        ∨ ∃ entry, db.entries.find? key = some entry
          ∧ found = (if entry.isExpired ks.now then none else some entry)
          ∧ ks' = ks.discard i key entry (if entry.isExpired ks.now then .expired else .del)) := by
  obtain ⟨db, hdb, h⟩ := exists_of_bind h
  refine ⟨db, getElem?_of_database hdb, ?_⟩
  cases hfind : db.entries.find? key with
  | none =>
    rw [hfind] at h
    cases h
    exact .inl ⟨rfl, rfl, rfl⟩
  | some entry =>
    rw [hfind] at h
    refine .inr ⟨entry, rfl, ?_⟩
    dsimp only at h
    split at h
    · rename_i hdead
      cases h
      rw [if_pos hdead, if_pos hdead]
      exact ⟨rfl, rfl⟩
    · rename_i hlive
      cases h
      rw [if_neg hlive, if_neg hlive]
      exact ⟨rfl, rfl⟩

/-- The check before a write leaves the keyspace as it is, or counts the write, or evicts. -/
theorem maybeEvict_cases (ks : Keyspace) (i : Nat) :
    (ks.maybeEvict i).1 = ks ∨ (ks.maybeEvict i).1 = ks.countWrite
      ∨ ∃ n, ks.countWrite.evict i = .ok ((ks.maybeEvict i).1, n) := by
  unfold maybeEvict
  split
  · dsimp only
    split
    · cases hevict : ks.countWrite.evict i with
      | error error => exact .inr (.inl rfl)
      | ok p => exact .inr (.inr ⟨p.2, rfl⟩)
    · exact .inr (.inl rfl)
  · exact .inl rfl

/-! ## §3. The sweep. -/

theorem nodup_keys {α : Type} (m : ByteMap α) : m.keys.Nodup := m.sorted.nodup

/-- A dead entry is taken out. -/
inductive Expires : Keyspace → Keyspace → Prop
  | discard {ks : Keyspace} {i : Nat} {key : Bytes} {db : Database} {entry : Entry}
      (hdb : ks.databases[i]? = some db) (hstored : db.entries.find? key = some entry)
      (hdead : entry.isExpired ks.now = true) : Expires ks (ks.discard i key entry .expired)

/-- The keys that are swept are those that stood in the database at first.  Each of them
still holds what it held, since the keys swept before it are others. -/
theorem expires_keys {db held : Database} {keys : List Bytes} (hnodup : keys.Nodup)
    (hheld : ks.databases[i]? = some held)
    (hsame : ∀ k ∈ keys, held.entries.find? k = db.entries.find? k) :
    Relation.ReflTransGen Expires ks (keys.foldl (fun ks key => ks.expire i db key) ks) := by
  -- by induction on the keys to come; what is left of the first lets `hsame` go on for them
  induction keys generalizing ks held with
  | nil => exact .refl
  | cons key keys ih =>
    obtain ⟨hkey, hkeys⟩ := List.nodup_cons.1 hnodup
    obtain ⟨hhead, htail⟩ := List.forall_mem_cons.1 hsame
    have hskip : Relation.ReflTransGen Expires ks
        (keys.foldl (fun ks key => ks.expire i db key) ks) := ih hkeys hheld htail
    rw [List.foldl_cons]
    unfold expire
    cases hfind : db.entries.find? key with
    | none => exact hskip
    | some entry =>
      dsimp only
      split
      · rename_i hdead
        have hleft :
            (ks.discard i key entry .expired).databases[i]? = some (held.erase key entry) := by
          rw [databases_discard]
          exact getElem?_modifyDatabase hheld _
        refine (Relation.ReflTransGen.single (.discard hheld (hhead.trans hfind) hdead)).trans
          (ih hkeys hleft ?_)
        · intro k hk
          -- a key to come is another one, so it holds what it held
          have hne : k ≠ key := fun heq => hkey (heq ▸ hk)
          unfold Database.erase
          dsimp only
          rw [ByteMap.find?_erase, if_neg hne]
          exact htail k hk
      · exact hskip

/-- **A sweep takes dead entries out, one after the other.** -/
theorem expires_sweep (ks : Keyspace) : Relation.ReflTransGen Expires ks ks.sweep.1 := by
  have hdatabase : ∀ (ks : Keyspace) (i : Nat),
      Relation.ReflTransGen Expires ks (ks.sweepDatabase i) := by
    intro ks i
    unfold sweepDatabase
    cases hdb : ks.databases[i]? with
    | none => exact .refl
    | some db => exact expires_keys (nodup_keys db.entries) hdb fun _ _ => rfl
  have hall : ∀ (indices : List Nat) (ks : Keyspace),
      Relation.ReflTransGen Expires ks (indices.foldl sweepDatabase ks) := by
    intro indices
    induction indices with
    | nil => exact fun ks => .refl
    | cons i indices ih => exact fun ks => (hdatabase ks i).trans (ih _)
  exact hall (List.range ks.count) ks

end DurableStore.Keyspace
