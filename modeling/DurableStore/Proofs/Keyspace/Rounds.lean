/-
  DurableStore.Proofs.Keyspace.Rounds
  ────────────────────────────────
  **A ROUND OF EVICTION TAKES WHAT IT MUST, AND NO MORE.**

  A round is a row of attempts.  Each of them moves the cursor of the
  database and takes at most one entry, and where the cursor stands makes no
  difference to anything but the next sample.  So a round comes down to its
  victims, taken out one after the other, and a cursor:

      evictAlong walks ks i  =  ((ks.takeOut i victims).atCursor i cursor, |victims|)

  What is known of the victims is known one at a time: each is stored when
  its turn comes, the policy lets it go, and the memory in use is above the
  ceiling until it has gone (`Picks`).

  All of this holds whatever order the samples are taken in, with walks of
  their own for every attempt; the store's round is the one in the order of
  the keys (`evict_eq_evictAlong`).

  Main results:
    * `round_exact` — what a round takes, tells and leaves;
    * `nothing_overlooked` — in a fixed order, a round that is needed does not
      end before it has found an entry that may go.
-/
import Mathlib.Algebra.Order.Floor.Div
import DurableStore.Proofs.Keyspace.Notices

namespace DurableStore

theorem leastRecent?_eq_none_iff {ps : List (Bytes × Entry)} :
    leastRecent? ps = none ↔ ps = [] := by
  cases ps with
  | nil => exact ⟨fun _ => rfl, fun _ => rfl⟩
  | cons p ps =>
    refine ⟨fun h => ?_, nofun⟩
    unfold leastRecent? at h
    split at h
    · split at h <;> cases h
    · cases h

namespace Keyspace

variable {ks ks' : Keyspace} {db : Database} {first again : Walk} {walks : Nat → Walk} {i : Nat}
  {p : Bytes × Entry} {victims : List (Bytes × Entry)}

/-! ## §1. Rounds along walks. -/

/-- The entry that an attempt along two walks takes, if the sample holds one that may go. -/
def victimAlong? (first again : Walk) (ks : Keyspace) (db : Database) : Option (Bytes × Entry) :=
  leastRecent?
    ((db.sampleAlong first again ks.policy.sampleSize).1.filter fun p => ks.policy.isEligible p.2)

/-- One attempt along two walks: the keyspace after it, and whether a key went. -/
def attemptAlong (first again : Walk) (ks : Keyspace) (i : Nat) (db : Database) : Keyspace × Nat :=
  let moved := ks.modifyDatabase i fun _ => (db.sampleAlong first again ks.policy.sampleSize).2
  match ks.victimAlong? first again db with
  | some (key, entry) => (moved.discard i key entry .evicted, 1)
  | none => (moved, 0)

/-- Attempts for as long as memory is above the ceiling, the database holds a key, and the
budget lasts, each along walks of its own. -/
def evictUpToAlong (walks : Nat → Walk) : Nat → Keyspace → Nat → Keyspace × Nat
  | 0, ks, _ => (ks, 0)
  | budget + 1, ks, i =>
    match ks.databases[i]? with
    | none => (ks, 0)
    | some db =>
      if ks.usedMemory ≤ ks.maxMemory ∨ db.entries.isEmpty then (ks, 0)
      else
        let (ks, n) := ks.attemptAlong (walks (2 * budget)) (walks (2 * budget + 1)) i db
        let (ks, m) := evictUpToAlong walks budget ks i
        (ks, n + m)

/-- One round of eviction in a database, along walks; returns how many keys went. -/
def evictAlong (walks : Nat → Walk) (ks : Keyspace) (i : Nat) :
    Except KeyspaceError (Keyspace × Nat) := do
  let _ ← ks.database i
  if ks.mayEvict then return evictUpToAlong walks maxAttempts ks i else return (ks, 0)

/-- Attempts in the order of the keys are the store's, by induction on the budget. -/
theorem evictUpTo_eq_evictUpToAlong (budget : Nat) (ks : Keyspace) (i : Nat) :
    evictUpTo budget ks i = evictUpToAlong (fun _ => .inOrder) budget ks i := by
  induction budget generalizing ks with
  | zero => rfl
  | succ budget ih =>
    unfold evictUpTo evictUpToAlong
    simp only [ih]
    rfl

/-- **The store's round is the one in the order of the keys.** -/
theorem evict_eq_evictAlong (ks : Keyspace) (i : Nat) :
    ks.evict i = ks.evictAlong (fun _ => .inOrder) i := by
  unfold evict evictAlong
  rw [evictUpTo_eq_evictUpToAlong]

/-- A round in a database that exists goes through. -/
theorem evictAlong_eq (walks : Nat → Walk) (hdb : ks.databases[i]? = some db)
    (hceiling : 0 < ks.maxMemory) (hpolicy : ks.policy ≠ .noEviction) :
    ks.evictAlong walks i = .ok (evictUpToAlong walks maxAttempts ks i) := by
  have hmay : ks.mayEvict = true := by
    unfold mayEvict EvictionPolicy.canEvict
    simp only [ne_eq, Bool.and_eq_true, decide_eq_true_eq]
    exact ⟨by omega, hpolicy⟩
  unfold evictAlong database
  rw [hdb, hmay]
  rfl

/-! ## §2. The cursor. -/

/-- The keyspace with the cursor of a database moved. -/
def atCursor (ks : Keyspace) (i cursor : Nat) : Keyspace :=
  ks.modifyDatabase i fun db => { db with cursor }

@[simp] theorem policy_atCursor (ks : Keyspace) (i cursor : Nat) :
    (ks.atCursor i cursor).policy = ks.policy := rfl

@[simp] theorem maxMemory_atCursor (ks : Keyspace) (i cursor : Nat) :
    (ks.atCursor i cursor).maxMemory = ks.maxMemory := rfl

theorem atCursor_atCursor (ks : Keyspace) (i c c' : Nat) :
    (ks.atCursor i c).atCursor i c' = ks.atCursor i c' := by
  unfold atCursor modifyDatabase
  dsimp only
  rw [List.modify_modify_eq]
  rfl

/-- What a change does to a database that is not there makes no difference. -/
theorem modifyDatabase_congr {f g : Database → Database}
    (h : ∀ db, ks.databases[i]? = some db → f db = g db) :
    ks.modifyDatabase i f = ks.modifyDatabase i g := by
  unfold modifyDatabase
  congr 1
  refine List.ext_getElem? fun j => ?_
  rw [List.getElem?_modify, List.getElem?_modify]
  split
  · rename_i hj
    subst hj
    cases hdb : ks.databases[i]? with
    | none => rfl
    | some db => simp [h db hdb]
  · rfl

/-- The cursor stands where it stands. -/
theorem atCursor_self (hdb : ks.databases[i]? = some db) : ks.atCursor i db.cursor = ks := by
  have hsame : ks.atCursor i db.cursor = ks.modifyDatabase i id :=
    modifyDatabase_congr fun db' hdb' => by
      cases hdb.symm.trans hdb'
      rfl
  rw [hsame]
  unfold modifyDatabase
  rw [List.modify_id]

/-- A sample moves the cursor and nothing else. -/
theorem moved_eq_atCursor (hdb : ks.databases[i]? = some db) (first again : Walk) (size : Nat) :
    (ks.modifyDatabase i fun _ => (db.sampleAlong first again size).2)
      = ks.atCursor i (db.sampleAlong first again size).2.cursor := by
  refine modifyDatabase_congr fun db' hdb' => ?_
  cases hdb.symm.trans hdb'
  rw [Database.sampleAlong_snd]

theorem totalCost_modify {α : Type} {cost : α → Nat} {f : α → α} (h : ∀ a, cost (f a) = cost a)
    (items : List α) (i : Nat) : totalCost cost (items.modify i f) = totalCost cost items := by
  induction items generalizing i with
  | nil => cases i <;> rfl
  | cons a items ih =>
    cases i with
    | zero => exact congrArg (· + totalCost cost items) (h a)
    | succ i => exact congrArg (cost a + ·) (ih i)

@[simp] theorem usedMemory_atCursor (ks : Keyspace) (i cursor : Nat) :
    (ks.atCursor i cursor).usedMemory = ks.usedMemory :=
  totalCost_modify (f := fun db : Database => { db with cursor }) (fun _ => rfl) ks.databases i

@[simp] theorem stored?_atCursor (ks : Keyspace) (i cursor j : Nat) (key : Bytes) :
    (ks.atCursor i cursor).stored? j key = ks.stored? j key := by
  unfold stored? atCursor modifyDatabase
  dsimp only
  rw [List.getElem?_modify]
  cases ks.databases[j]? with
  | none => rfl
  | some db => by_cases hj : i = j <;> simp [hj]

/-! ## §3. Taking entries out. -/

/-- What an eviction of an entry changes. -/
theorem discard_eq (ks : Keyspace) (i : Nat) (p : Bytes × Entry) :
    ks.discard i p.1 p.2 .evicted
      = { ks with
          databases := ks.databases.modify i (·.erase p.1 p.2)
          stats := { ks.stats with evicted := ks.stats.evicted + 1 }
          notices := ks.notices ++ ks.told i [p.1] } := by
  unfold discard notify told countRemoval modifyDatabase
  dsimp only
  split
  · rfl
  · rw [List.append_nil]

@[simp] theorem policy_discard (ks : Keyspace) (i : Nat) (p : Bytes × Entry) :
    (ks.discard i p.1 p.2 .evicted).policy = ks.policy := by
  rw [discard_eq]

@[simp] theorem maxMemory_discard (ks : Keyspace) (i : Nat) (p : Bytes × Entry) :
    (ks.discard i p.1 p.2 .evicted).maxMemory = ks.maxMemory := by
  rw [discard_eq]

theorem getElem?_discard (hdb : ks.databases[i]? = some db) (p : Bytes × Entry) :
    (ks.discard i p.1 p.2 .evicted).databases[i]? = some (db.erase p.1 p.2) := by
  rw [databases_discard]
  exact getElem?_modifyDatabase hdb _

theorem discard_atCursor (ks : Keyspace) (i cursor : Nat) (p : Bytes × Entry) :
    (ks.atCursor i cursor).discard i p.1 p.2 .evicted
      = (ks.discard i p.1 p.2 .evicted).atCursor i cursor := by
  rw [discard_eq, discard_eq]
  unfold atCursor modifyDatabase
  dsimp only
  rw [List.modify_modify_eq, List.modify_modify_eq]
  rfl

/-- The keyspace without some entries of a database, evicted one after the other. -/
def takeOut (ks : Keyspace) (i : Nat) (victims : List (Bytes × Entry)) : Keyspace :=
  victims.foldl (fun ks p => ks.discard i p.1 p.2 .evicted) ks

theorem takeOut_atCursor (ks : Keyspace) (i cursor : Nat) (victims : List (Bytes × Entry)) :
    (ks.atCursor i cursor).takeOut i victims = (ks.takeOut i victims).atCursor i cursor := by
  induction victims generalizing ks with
  | nil => rfl
  | cons p victims ih =>
    show ((ks.atCursor i cursor).discard i p.1 p.2 .evicted).takeOut i victims = _
    rw [discard_atCursor, ih]
    rfl

/-- What is taken out is gone, and everything else is where it was. -/
theorem stored?_discard (ks : Keyspace) (i : Nat) (p : Bytes × Entry) (j : Nat) (key : Bytes) :
    (ks.discard i p.1 p.2 .evicted).stored? j key
      = if j = i ∧ key = p.1 then none else ks.stored? j key := by
  rw [discard_eq]
  unfold stored?
  dsimp only
  rw [List.getElem?_modify]
  cases ks.databases[j]? with
  | none => simp
  | some db =>
    by_cases hj : i = j
    · simp [hj, Database.erase]
    · simp [hj, Ne.symm hj]

theorem stored?_takeOut (ks : Keyspace) (i : Nat) (victims : List (Bytes × Entry)) (j : Nat)
    (key : Bytes) :
    (ks.takeOut i victims).stored? j key
      = if j = i ∧ key ∈ victims.map Prod.fst then none else ks.stored? j key := by
  induction victims generalizing ks with
  | nil => simp [takeOut]
  | cons p victims ih =>
    show ((ks.discard i p.1 p.2 .evicted).takeOut i victims).stored? j key = _
    rw [ih, stored?_discard, List.map_cons]
    by_cases hj : j = i
    · by_cases hkey : key = p.1 <;> simp only [hj, hkey, List.mem_cons, true_and, true_or, false_or,
        if_true, ite_self, if_false]
    · simp only [hj, false_and, if_false]

/-- Besides the databases, one counter and the notices change. -/
theorem takeOut_eq (ks : Keyspace) (i : Nat) (victims : List (Bytes × Entry)) :
    ∃ databases, databases.length = ks.count ∧ ks.takeOut i victims
      = { ks with
          databases
          stats := { ks.stats with evicted := ks.stats.evicted + victims.length }
          notices := ks.notices ++ ks.told i (victims.map Prod.fst) } := by
  induction victims generalizing ks with
  | nil =>
    refine ⟨ks.databases, rfl, ?_⟩
    rw [List.map_nil, told_nil, List.append_nil]
    rfl
  | cons p victims ih =>
    obtain ⟨databases, hcount, hrest⟩ := ih (ks.discard i p.1 p.2 .evicted)
    refine ⟨databases, ?_, ?_⟩
    · rw [hcount, discard_eq]
      exact List.length_modify ..
    · show (ks.discard i p.1 p.2 .evicted).takeOut i victims = _
      have htold : ks.told i ((p :: victims).map Prod.fst)
          = ks.told i [p.1] ++ ks.told i (victims.map Prod.fst) := told_append ks i [p.1] _
      have hevicted : ks.stats.evicted + (p :: victims).length
          = ks.stats.evicted + 1 + victims.length := by
        rw [List.length_cons]
        omega
      rw [hrest, discard_eq, htold, hevicted, ← List.append_assoc]
      rfl

/-! ## §4. Victims, one at a time. -/

/-- Entries that may be evicted from a database one after the other: each is stored when its
turn comes, the policy lets it go, and the memory in use is above the ceiling. -/
inductive Picks (i : Nat) : Keyspace → List (Bytes × Entry) → Prop
  | nil (ks : Keyspace) : Picks i ks []
  | cons {ks : Keyspace} {p : Bytes × Entry} {victims : List (Bytes × Entry)}
      (hstored : ks.stored? i p.1 = some p.2) (heligible : ks.policy.isEligible p.2 = true)
      (hover : ks.maxMemory < ks.usedMemory)
      (hrest : Picks i (ks.discard i p.1 p.2 .evicted) victims) : Picks i ks (p :: victims)

namespace Picks

/-- The cursor makes no difference. -/
theorem of_atCursor {cursor : Nat} (h : Picks i (ks.atCursor i cursor) victims) :
    Picks i ks victims := by
  induction victims generalizing ks with
  | nil => exact .nil ks
  | cons p victims ih =>
    cases h with
    | cons hstored heligible hover hrest =>
      rw [stored?_atCursor] at hstored
      rw [usedMemory_atCursor] at hover
      rw [discard_atCursor] at hrest
      exact .cons hstored heligible hover (ih hrest)

/-- **The victims are stored from the beginning**: what is stored when the others are gone was
stored before. -/
theorem stored (h : Picks i ks victims) :
    ∀ p ∈ victims, ks.stored? i p.1 = some p.2 ∧ ks.policy.isEligible p.2 = true := by
  induction h with
  | nil => exact fun _ hp => absurd hp List.not_mem_nil
  | @cons ks p victims hstored heligible hover hrest ih =>
    intro q hq
    rcases List.mem_cons.1 hq with rfl | hq
    · exact ⟨hstored, heligible⟩
    · obtain ⟨hlater, hpolicy⟩ := ih q hq
      rw [policy_discard] at hpolicy
      rw [stored?_discard] at hlater
      split at hlater
      · cases hlater
      · exact ⟨hlater, hpolicy⟩

/-- **No key goes twice**: it is not stored any more. -/
theorem nodup (h : Picks i ks victims) : (victims.map Prod.fst).Nodup := by
  induction h with
  | nil => exact List.nodup_nil
  | @cons ks p victims hstored heligible hover hrest ih =>
    rw [List.map_cons, List.nodup_cons]
    refine ⟨fun hmem => ?_, ih⟩
    -- a later victim of the same key would still be stored when it is gone
    obtain ⟨q, hq, hkey⟩ := List.mem_map.1 hmem
    have hlater := (hrest.stored q hq).1
    rw [stored?_discard, if_pos ⟨rfl, hkey⟩] at hlater
    cases hlater

/-- **Each victim is needed**: with only those before it taken out, memory is above the
ceiling. -/
theorem needed (h : Picks i ks victims) (k : Nat) (hk : k < victims.length) :
    ks.maxMemory < (ks.takeOut i (victims.take k)).usedMemory := by
  induction h generalizing k with
  | nil => exact absurd hk (Nat.not_lt_zero k)
  | @cons ks p victims hstored heligible hover hrest ih =>
    cases k with
    | zero => exact hover
    | succ k =>
      have hlater := ih k (Nat.lt_of_succ_lt_succ hk)
      rw [maxMemory_discard] at hlater
      exact hlater

end Picks

/-! ## §5. Attempts. -/

theorem attemptAlong_of_miss (hdb : ks.databases[i]? = some db)
    (h : ks.victimAlong? first again db = none) :
    ks.attemptAlong first again i db
      = (ks.atCursor i (db.sampleAlong first again ks.policy.sampleSize).2.cursor, 0) := by
  unfold attemptAlong
  rw [h, moved_eq_atCursor hdb]

theorem attemptAlong_of_victim (hdb : ks.databases[i]? = some db)
    (h : ks.victimAlong? first again db = some p) :
    ks.attemptAlong first again i db
      = ((ks.discard i p.1 p.2 .evicted).atCursor i
          (db.sampleAlong first again ks.policy.sampleSize).2.cursor, 1) := by
  unfold attemptAlong
  rw [h, moved_eq_atCursor hdb]
  dsimp only
  rw [discard_atCursor]

/-- A victim was sampled, so it is stored, and the policy lets it go. -/
theorem victimAlong?_spec (hdb : ks.databases[i]? = some db)
    (h : ks.victimAlong? first again db = some p) :
    ks.stored? i p.1 = some p.2 ∧ ks.policy.isEligible p.2 = true := by
  obtain ⟨hsampled, heligible⟩ := List.mem_filter.1 (mem_of_leastRecent? h)
  refine ⟨?_, heligible⟩
  rw [stored?_of_database hdb]
  exact (ByteMap.find?_eq_some_iff _).2 (Database.mem_of_mem_sampleAlong hsampled)

/-- An attempt without a victim has sampled nothing that may go. -/
theorem not_sampled_of_victimAlong?_eq_none (h : ks.victimAlong? first again db = none)
    (heligible : ks.policy.isEligible p.2 = true) :
    p ∉ (db.sampleAlong first again ks.policy.sampleSize).1 := by
  intro hsampled
  have hnil := leastRecent?_eq_none_iff.1 h
  have hmem : p ∈ (db.sampleAlong first again ks.policy.sampleSize).1.filter fun p =>
      ks.policy.isEligible p.2 := List.mem_filter.2 ⟨hsampled, heligible⟩
  rw [hnil] at hmem
  exact List.not_mem_nil hmem

theorem sampleSize_pos (policy : EvictionPolicy) : 0 < policy.sampleSize := by
  cases policy <;> decide

/-- An attempt in a database with keys finds no victim only under a volatile policy: one for
all keys would have taken the least recent of the sample. -/
theorem isVolatile_of_miss (hpolicy : ks.policy.canEvict = true)
    (hentries : ¬ db.entries.isEmpty = true) (hmiss : ks.victimAlong? first again db = none) :
    ks.policy.isVolatile = true := by
  by_contra hall
  obtain ⟨p, hsampled⟩ := List.exists_mem_of_ne_nil _
    (Database.sampleAlong_ne_nil first again (sampleSize_pos ks.policy)
      (Bool.eq_false_iff.2 hentries))
  refine not_sampled_of_victimAlong?_eq_none hmiss ?_ hsampled
  unfold EvictionPolicy.isEligible
  rw [hpolicy, Bool.eq_false_iff.2 hall]
  rfl

/-! ## §6. Rounds. -/

/-- Memory is within the ceiling, or the database holds nothing any more. -/
def Relieved (ks : Keyspace) (i : Nat) : Prop :=
  ks.usedMemory ≤ ks.maxMemory ∨ ∀ key, ks.stored? i key = none

theorem relieved_atCursor_iff {cursor : Nat} :
    (ks.atCursor i cursor).Relieved i ↔ ks.Relieved i := by
  unfold Relieved
  simp only [usedMemory_atCursor, maxMemory_atCursor, stored?_atCursor]

theorem relieved_of_stop (hdb : ks.databases[i]? = some db)
    (h : ks.usedMemory ≤ ks.maxMemory ∨ db.entries.isEmpty = true) : ks.Relieved i := by
  refine h.imp_right fun hempty key => ?_
  have hnil : db.entries.toList = [] := List.isEmpty_iff.1 hempty
  rw [stored?_of_database hdb]
  unfold ByteMap.find?
  rw [hnil]
  rfl

/-- The outcome of so many attempts, by the victims that they took: they come out one after
the other, and unless there was no attempt left, it was enough. -/
structure Takes (budget : Nat) (ks : Keyspace) (i : Nat) (outcome : Keyspace × Nat)
    (victims : List (Bytes × Entry)) : Prop where
  taken : ∃ cursor, outcome = ((ks.takeOut i victims).atCursor i cursor, victims.length)
  picks : Picks i ks victims
  few : victims.length ≤ budget
  enough : ks.policy.isVolatile = false →
    (ks.takeOut i victims).Relieved i ∨ victims.length = budget

namespace Takes

variable {budget cursor : Nat} {outcome : Keyspace × Nat}

theorem nothing (hdb : ks.databases[i]? = some db) (h : ks.Relieved i ∨ 0 = budget) :
    Takes budget ks i (ks, 0) [] where
  taken := by
    refine ⟨db.cursor, ?_⟩
    show (ks, 0) = (ks.atCursor i db.cursor, 0)
    rw [atCursor_self hdb]
  picks := .nil ks
  few := Nat.zero_le budget
  enough _ := h

/-- An attempt that finds no victim moves the cursor.  This happens to policies that do not
look at all keys. -/
theorem miss (h : Takes budget (ks.atCursor i cursor) i outcome victims)
    (hvolatile : ks.policy.isVolatile = true) :
    Takes (budget + 1) ks i (outcome.1, 0 + outcome.2) victims where
  taken := by
    obtain ⟨cursor', rfl⟩ := h.taken
    refine ⟨cursor', ?_⟩
    rw [takeOut_atCursor, atCursor_atCursor, Nat.zero_add]
  picks := h.picks.of_atCursor
  few := Nat.le_succ_of_le h.few
  enough hall := by
    rw [hvolatile] at hall
    cases hall

/-- An attempt that finds a victim takes it before those of the attempts after it. -/
theorem victim
    (h : Takes budget ((ks.discard i p.1 p.2 .evicted).atCursor i cursor) i outcome victims)
    (hstored : ks.stored? i p.1 = some p.2) (heligible : ks.policy.isEligible p.2 = true)
    (hover : ks.maxMemory < ks.usedMemory) :
    Takes (budget + 1) ks i (outcome.1, 1 + outcome.2) (p :: victims) where
  taken := by
    obtain ⟨cursor', rfl⟩ := h.taken
    refine ⟨cursor', ?_⟩
    rw [takeOut_atCursor, atCursor_atCursor, Nat.add_comm]
    rfl
  picks := .cons hstored heligible hover h.picks.of_atCursor
  few := Nat.succ_le_succ h.few
  enough hall := by
    have hrest := h.enough (by rw [policy_atCursor, policy_discard]; exact hall)
    rw [takeOut_atCursor, relieved_atCursor_iff] at hrest
    exact hrest.imp_right (congrArg (· + 1))

end Takes

/-- **A round is its victims and a cursor**, by induction on the attempts that are left. -/
theorem takes_evictUpToAlong (walks : Nat → Walk) (budget : Nat) (hdb : ks.databases[i]? = some db)
    (hpolicy : ks.policy.canEvict = true) :
    ∃ victims, Takes budget ks i (evictUpToAlong walks budget ks i) victims := by
  induction budget generalizing ks db with
  | zero => exact ⟨[], .nothing hdb (.inr rfl)⟩
  | succ budget ih =>
    unfold evictUpToAlong
    rw [hdb]
    dsimp only
    split
    · -- there is room enough, or nothing left to take
      rename_i hstop
      exact ⟨[], .nothing hdb (.inl (relieved_of_stop hdb hstop))⟩
    · rename_i hgo
      rw [not_or, Nat.not_le] at hgo
      obtain ⟨hover, hentries⟩ := hgo
      cases hvictim : ks.victimAlong? (walks (2 * budget)) (walks (2 * budget + 1)) db with
      | none =>
        have hvolatile := isVolatile_of_miss hpolicy hentries hvictim
        rw [attemptAlong_of_miss hdb hvictim]
        obtain ⟨victims, hrest⟩ := ih (getElem?_modifyDatabase hdb _) hpolicy
        exact ⟨victims, hrest.miss hvolatile⟩
      | some p =>
        obtain ⟨hstored, heligible⟩ := victimAlong?_spec hdb hvictim
        rw [attemptAlong_of_victim hdb hvictim]
        obtain ⟨victims, hrest⟩ := ih (getElem?_modifyDatabase (getElem?_discard hdb p) _)
          (by rw [← policy_discard ks i p] at hpolicy; exact hpolicy)
        exact ⟨p :: victims, hrest.victim hstored heligible hover⟩

/-- What a round of eviction in a database comes to. -/
structure Round (ks : Keyspace) (i : Nat) (victims : List (Bytes × Entry)) (ks' : Keyspace) :
    Prop where
  few : victims.length ≤ maxAttempts
  distinct : (victims.map Prod.fst).Nodup
  /-- The victims were stored in the database, and the policy lets each of them go. -/
  eligible : ∀ p ∈ victims, ks.stored? i p.1 = some p.2 ∧ ks.policy.isEligible p.2 = true
  /-- The victims are gone, and every other entry of every database is the same. -/
  left : ∀ j key, ks'.stored? j key
    = if j = i ∧ key ∈ victims.map Prod.fst then none else ks.stored? j key
  /-- Besides the databases, one counter and the notices change, by one for each victim. -/
  reported : ∃ databases, databases.length = ks.count ∧ ks'
    = { ks with
        databases
        stats := { ks.stats with evicted := ks.stats.evicted + victims.length }
        notices := ks.notices ++ ks.told i (victims.map Prod.fst) }
  /-- The victims are taken out one after the other, and the cursor is moved. -/
  taken : ∃ cursor, ks' = (ks.takeOut i victims).atCursor i cursor
  /-- Before each victim, memory is above the ceiling. -/
  needed : ∀ k < victims.length, ks.maxMemory < (ks.takeOut i (victims.take k)).usedMemory
  /-- If all keys may go, then afterwards memory is within the ceiling, or the database is
  empty, or every attempt has taken a victim. -/
  enough : ks.policy.isVolatile = false → ks'.usedMemory ≤ ks.maxMemory
    ∨ (∀ key, ks'.stored? i key = none) ∨ victims.length = maxAttempts

theorem Takes.round {n : Nat} (h : Takes maxAttempts ks i (ks', n) victims) :
    n = victims.length ∧ ks.Round i victims ks' := by
  obtain ⟨cursor, houtcome⟩ := h.taken
  obtain ⟨rfl, rfl⟩ := Prod.mk.inj houtcome
  obtain ⟨databases, hcount, hrest⟩ := takeOut_eq ks i victims
  refine ⟨rfl, ?_⟩
  exact
    { few := h.few
      distinct := h.picks.nodup
      eligible := h.picks.stored
      left := fun j key => by rw [stored?_atCursor, stored?_takeOut]
      reported := by
        refine ⟨databases.modify i fun db => { db with cursor }, ?_, ?_⟩
        · rw [List.length_modify, hcount]
        · rw [hrest]
          rfl
      taken := ⟨cursor, rfl⟩
      needed := h.picks.needed
      enough := fun hall => by
        have hmaxMemory : (ks.takeOut i victims).maxMemory = ks.maxMemory := by rw [hrest]
        have henough := h.enough hall
        unfold Relieved at henough
        rw [hmaxMemory] at henough
        simp only [usedMemory_atCursor, stored?_atCursor]
        exact or_assoc.1 henough }

/-- A round in a database that exists goes through, and returns the number of its victims. -/
theorem exists_round (walks : Nat → Walk) (hdb : ks.databases[i]? = some db)
    (hceiling : 0 < ks.maxMemory) (hpolicy : ks.policy ≠ .noEviction) :
    ∃ victims ks', ks.evictAlong walks i = .ok (ks', victims.length) ∧ ks.Round i victims ks'
      ∧ (evictUpToAlong walks maxAttempts ks i).2 = victims.length := by
  rw [evictAlong_eq walks hdb hceiling hpolicy]
  obtain ⟨victims, htakes⟩ := takes_evictUpToAlong walks maxAttempts hdb (decide_eq_true hpolicy)
  generalize evictUpToAlong walks maxAttempts ks i = outcome at htakes ⊢
  obtain ⟨ks', n⟩ := outcome
  obtain ⟨rfl, hround⟩ := htakes.round
  exact ⟨victims, ks', rfl, hround, rfl⟩

/-- **A round of eviction does exactly what is needed**, whatever the order in which each
sample meets the entries.  It takes so many entries of the database as it returns, each of
them one that may go, and tells of each of them; nothing else is changed; and it takes none
when memory is within the ceiling already. -/
theorem round_exact (walks : Nat → Walk) (hi : i < ks.count) (hceiling : 0 < ks.maxMemory)
    (hpolicy : ks.policy ≠ .noEviction) :
    ks.evict i = ks.evictAlong (fun _ => .inOrder) i
      ∧ ∃ victims ks', ks.evictAlong walks i = .ok (ks', victims.length)
        ∧ ks.Round i victims ks' := by
  have hdb : ks.databases[i]? = some ks.databases[i] := List.getElem?_eq_getElem hi
  obtain ⟨victims, ks', hevict, hround, -⟩ := exists_round walks hdb hceiling hpolicy
  exact ⟨evict_eq_evictAlong ks i, victims, ks', hevict, hround⟩

/-- Two keys, the second of them with a deadline, and a cursor past the end. -/
def crowdedDatabase : Database where
  entries :=
    (ByteMap.empty.insert [97] (Entry.fresh (.string [118]) none)).insert [98]
      (Entry.fresh (.string [118]) (some 5))
  memory := 100
  cursor := 9

/-- The two keys under a ceiling that only one of them fits below. -/
def crowded (policy : EvictionPolicy) : Keyspace where
  databases := [crowdedDatabase]
  now := 0
  maxMemory := 60
  policy
  writes := 0
  stats := ⟨0, 0, 0, 0⟩
  listening := true
  notices := []

/-- Of two entries that may go one is enough, with every second walk backwards. -/
theorem round_exact_crowded :
    0 < (crowded .allKeysLru).count ∧ 0 < (crowded .allKeysLru).maxMemory
      ∧ (crowded .allKeysLru).evict 0 = (crowded .allKeysLru).evictAlong (fun _ => .inOrder) 0
      ∧ ∃ victims ks', victims.length = 1
        ∧ (crowded .allKeysLru).evictAlong (fun t => if t % 2 = 0 then .inOrder else .backwards) 0
          = .ok (ks', victims.length)
        ∧ (crowded .allKeysLru).Round 0 victims ks' := by
  have hcount : 0 < (crowded .allKeysLru).count := by decide
  have hceiling : 0 < (crowded .allKeysLru).maxMemory := by decide
  obtain ⟨hstore, victims, ks', hevict, hround⟩ := round_exact
    (fun t => if t % 2 = 0 then .inOrder else .backwards) hcount hceiling (by decide)
  have hone : ((crowded .allKeysLru).evictAlong
      (fun t => if t % 2 = 0 then .inOrder else .backwards) 0).map Prod.snd = .ok 1 := rfl
  rw [hevict] at hone
  exact ⟨hcount, hceiling, hstore, victims, ks', Except.ok.inj hone, hevict, hround⟩

/-! ## §7. Nothing is overlooked. -/

theorem ne_noEviction_of_isVolatile {policy : EvictionPolicy} (h : policy.isVolatile = true) :
    policy ≠ .noEviction := by
  intro hnone
  rw [hnone] at h
  cases h

theorem isEligible_of_deadline {policy : EvictionPolicy} {entry : Entry}
    (hvolatile : policy.isVolatile = true) (hdeadline : entry.expiresAt.isSome = true) :
    policy.isEligible entry = true := by
  unfold EvictionPolicy.isEligible
  rw [hdeadline, Bool.or_true, Bool.and_true]
  exact decide_eq_true (ne_noEviction_of_isVolatile hvolatile)

/-- An entry that may go is ahead of the cursor by less than all samples together, so a
victim is found, by induction on the attempts that are left: an attempt that finds none has
not sampled the entry, and has come nearer to it. -/
theorem evictUpToAlong_pos {l : List (Bytes × Entry)} {place budget : Nat}
    (hdb : ks.databases[i]? = some db) (hwalks : ∀ t, (walks t).visit db.entries = l)
    (hplace : l[place]? = some p) (heligible : ks.policy.isEligible p.2 = true)
    (hover : ks.maxMemory < ks.usedMemory)
    (hnear : Database.ahead db.cursor place l.length < budget * ks.policy.sampleSize) :
    0 < (evictUpToAlong walks budget ks i).2 := by
  induction budget generalizing ks db with
  | zero => omega
  | succ budget ih =>
    have hentries : db.entries.isEmpty = false := by
      have hmem : p ∈ db.entries.toList :=
        (walks 0).mem_visit.1 (hwalks 0 ▸ List.mem_of_getElem? hplace)
      exact List.isEmpty_eq_false_iff.2 (List.ne_nil_of_mem hmem)
    unfold evictUpToAlong
    rw [hdb]
    dsimp only
    rw [if_neg (by rw [hentries]; simpa using hover)]
    cases hvictim : ks.victimAlong? (walks (2 * budget)) (walks (2 * budget + 1)) db with
    | some q =>
      rw [attemptAlong_of_victim hdb hvictim]
      dsimp only
      omega
    | none =>
      rw [attemptAlong_of_miss hdb hvictim]
      dsimp only
      rcases Database.sampled_or_nearer ks.policy.sampleSize (hwalks (2 * budget))
        (hwalks (2 * budget + 1)) hplace with hsampled | ⟨hle, hnearer⟩
      · -- the entry itself would have been a candidate
        exact absurd hsampled (not_sampled_of_victimAlong?_eq_none hvictim heligible)
      · rw [Nat.zero_add]
        refine ih (getElem?_modifyDatabase hdb _) hwalks heligible ?_ ?_
        · rw [usedMemory_atCursor]
          exact hover
        · show Database.ahead _ place l.length < budget * ks.policy.sampleSize
          rw [hnearer]
          rw [Nat.succ_mul] at hnear
          omega

/-- **Nothing is overlooked.**  If a map that does not change is always walked in the same
order, then as many samples in a row as it takes to cover the map meet every entry, wherever
the cursor is at first; and a round under a volatile policy that is needed takes an entry, if
the database holds one with a deadline and no more than all attempts can sample.  The store
samples and evicts in one such order, that of the keys. -/
theorem nothing_overlooked (hsteady : SameOrder walks db.entries) :
    (∀ size calls, db.samples size calls = db.samplesAlong (fun _ => .inOrder) size calls)
      ∧ (∀ size, 0 < size → ∀ p ∈ db.entries.toList,
        p ∈ db.samplesAlong walks size (db.entries.size ⌈/⌉ size))
      ∧ ∀ (ks : Keyspace) i, ks.databases[i]? = some db → ks.policy.isVolatile = true →
          0 < ks.maxMemory → ks.maxMemory < ks.usedMemory →
          (∃ p ∈ db.entries.toList, p.2.expiresAt.isSome = true) →
          db.entries.size ≤ maxAttempts * ks.policy.sampleSize →
          ks.evict i = ks.evictAlong (fun _ => .inOrder) i
            ∧ ∃ ks' n, ks.evictAlong walks i = .ok (ks', n) ∧ 0 < n
              ∧ ∃ p ∈ db.entries.toList, ks'.stored? i p.1 = none := by
  refine ⟨db.samples_eq_samplesAlong, ?_, ?_⟩
  · intro size hsize p hp
    refine Database.mem_samplesAlong hsteady ?_ hp
    rw [Nat.mul_comm]
    exact le_smul_ceilDiv hsize
  · intro ks i hdb hvolatile hceiling hover hexpiring hsize
    obtain ⟨p, hp, hdeadline⟩ := hexpiring
    have heligible := isEligible_of_deadline hvolatile hdeadline
    obtain ⟨place, hplace⟩ := List.mem_iff_getElem?.1 ((walks 0).mem_visit.2 hp)
    have hnear := Database.ahead_lt db.cursor (List.getElem?_eq_some_iff.1 hplace).1
    have htaken : 0 < (evictUpToAlong walks maxAttempts ks i).2 := by
      refine evictUpToAlong_pos hdb (fun t => hsteady t 0) hplace heligible hover ?_
      rw [(walks 0).length_visit] at hnear ⊢
      omega
    obtain ⟨victims, ks', hevict, hround, hcount⟩ :=
      exists_round walks hdb hceiling (ne_noEviction_of_isVolatile hvolatile)
    rw [hcount] at htaken
    refine ⟨evict_eq_evictAlong ks i, ks', victims.length, hevict, htaken, ?_⟩
    obtain ⟨q, hq⟩ := List.exists_mem_of_length_pos htaken
    obtain ⟨hstored, -⟩ := hround.eligible q hq
    rw [stored?_of_database hdb] at hstored
    refine ⟨q, (ByteMap.find?_eq_some_iff _).1 hstored, ?_⟩
    rw [hround.left, if_pos ⟨rfl, List.mem_map_of_mem hq⟩]

/-- From past the end two samples of one entry meet both, and the store's round finds the one
with a deadline. -/
theorem nothing_overlooked_crowded :
    SameOrder (fun _ => .inOrder) crowdedDatabase.entries
      ∧ (∀ p ∈ crowdedDatabase.entries.toList, p ∈ crowdedDatabase.samples 1 2)
      ∧ (crowded .volatileRandom).maxMemory < (crowded .volatileRandom).usedMemory
      ∧ ∃ ks' n, (crowded .volatileRandom).evict 0 = .ok (ks', n) ∧ 0 < n
        ∧ ks'.stored? 0 [98] = none ∧ (ks'.stored? 0 [97]).isSome = true := by
  have hsteady : SameOrder (fun _ => .inOrder) crowdedDatabase.entries := fun _ _ => rfl
  have hover : (crowded .volatileRandom).maxMemory < (crowded .volatileRandom).usedMemory := by
    decide
  obtain ⟨hsamples, hsampled, hround⟩ := nothing_overlooked hsteady
  obtain ⟨hstore, ks', n, hevict, hpos, -⟩ := hround (crowded .volatileRandom) 0 rfl rfl (by decide)
    hover ⟨([98], Entry.fresh (.string [118]) (some 5)), by decide, rfl⟩ (by decide)
  rw [← hstore] at hevict
  have hleft : ((crowded .volatileRandom).evict 0).map (fun outcome =>
      (outcome.1.stored? 0 [98], (outcome.1.stored? 0 [97]).isSome)) = .ok (none, true) := rfl
  rw [hevict] at hleft
  obtain ⟨hgone, hkept⟩ := Prod.mk.inj (Except.ok.inj hleft)
  refine ⟨hsteady, ?_, hover, ks', n, hevict, hpos, hgone, hkept⟩
  rw [hsamples]
  exact hsampled 1 Nat.one_pos

end Keyspace

end DurableStore
