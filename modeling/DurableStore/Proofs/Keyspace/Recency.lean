/-
  DurableStore.Proofs.Keyspace.Recency
  ────────────────────────────────
  **THE LEAST RECENTLY USED GO FIRST.**

  A policy for the least recently used looks at a sample only.  When the
  sample is at least as large as the database it covers it: from the cursor
  to the end and then from the beginning, with some entries met twice if the
  cursor is past the end.  Then there is a LINE for a round of eviction to
  work off, the entries that may go in the order of their last access:

      db.inLine policy   =  e₁ e₂ … eₘ
      victims            =  e₁ … eₖ          — k as small as memory allows

  An attempt finds the head of the line, however many entries that may not
  go are older, and without it the database has the rest of the line
  (`Lined.erase`).

  Main results:
    * `mem_sampleAlong_of_size_le` — the sample covers a small database;
    * `Lined.victim` — an attempt finds the head of the line;
    * `lru_exact` — a round takes the first in line, and no more than it must.
-/
import DurableStore.Proofs.Keyspace.Rounds

namespace DurableStore

variable {first again : Walk} {db : Database} {policy : EvictionPolicy} {p q : Bytes × Entry}
  {ps line : List (Bytes × Entry)}

/-! ## §1. Samples that cover the database. -/

/-- **A sample covers a database that is no larger**, wherever the cursor is, if the map is
walked the same way when the sample begins again. -/
theorem Database.mem_sampleAlong_of_size_le {size : Nat} (hsize : db.entries.size ≤ size)
    (hsame : again.visit db.entries = first.visit db.entries) (hp : p ∈ db.entries.toList) :
    p ∈ (db.sampleAlong first again size).1 := by
  obtain ⟨place, hplace⟩ := List.mem_iff_getElem?.1 (first.mem_visit.2 hp)
  have hahead := ahead_lt db.cursor (List.getElem?_eq_some_iff.1 hplace).1
  rw [first.length_visit] at hahead
  rcases sampled_or_nearer size rfl hsame hplace with hsampled | ⟨hfar, -⟩
  · exact hsampled
  · -- no place is further ahead than the database is large
    rw [first.length_visit] at hfar
    omega

/-- Nothing in a list was accessed before its least recent entry. -/
theorem lastAccessed_le_of_leastRecent? (h : leastRecent? ps = some p) (hq : q ∈ ps) :
    p.2.lastAccessed ≤ q.2.lastAccessed := by
  induction ps generalizing p with
  | nil => cases h
  | cons head ps ih =>
    unfold leastRecent? at h
    cases hrest : leastRecent? ps with
    | none =>
      rw [hrest] at h
      cases h
      rw [leastRecent?_eq_none_iff.1 hrest, List.mem_singleton] at hq
      rw [hq]
      exact UInt64.le_refl _
    | some least =>
      have hleast : q ∈ ps → least.2.lastAccessed ≤ q.2.lastAccessed := ih hrest
      rw [hrest] at h
      dsimp only at h
      split at h
      · rename_i holder
        cases h
        rcases List.mem_cons.1 hq with rfl | hq
        · exact UInt64.le_of_lt holder
        · exact hleast hq
      · rename_i hyounger
        cases h
        rcases List.mem_cons.1 hq with rfl | hq
        · exact UInt64.le_refl _
        · exact UInt64.le_trans (UInt64.not_lt.1 hyounger) (hleast hq)

/-! ## §2. The line. -/

/-- The first of two entries was accessed before the second. -/
def Older (p q : Bytes × Entry) : Prop := p.2.lastAccessed < q.2.lastAccessed

/-- The entries of a database that a policy lets go, the least recently used first. -/
def Database.inLine (db : Database) (policy : EvictionPolicy) : List (Bytes × Entry) :=
  (db.entries.toList.filter fun p => policy.isEligible p.2).mergeSort
    fun p q => p.2.lastAccessed ≤ q.2.lastAccessed

/-- A list is the line of a database: what may go, by the time of the last access. -/
structure Database.Lined (db : Database) (policy : EvictionPolicy) (line : List (Bytes × Entry)) :
    Prop where
  ordered : line.Pairwise Older
  mem_iff : ∀ p, p ∈ line ↔ p ∈ db.entries.toList ∧ policy.isEligible p.2 = true

namespace Database

theorem inLine_perm (db : Database) (policy : EvictionPolicy) :
    (db.inLine policy).Perm (db.entries.toList.filter fun p => policy.isEligible p.2) :=
  List.mergeSort_perm _ _

/-- Entries with different times of access have a line. -/
theorem lined_inLine (policy : EvictionPolicy)
    (hdistinct : db.entries.toList.Pairwise fun p q => p.2.lastAccessed ≠ q.2.lastAccessed) :
    db.Lined policy (db.inLine policy) where
  ordered := by
    have hsorted : (db.inLine policy).Pairwise fun p q =>
        decide (p.2.lastAccessed ≤ q.2.lastAccessed) = true :=
      List.pairwise_mergeSort
        (fun p q r hpq hqr => by
          rw [decide_eq_true_eq] at hpq hqr ⊢
          exact UInt64.le_trans hpq hqr)
        (fun p q => by
          rw [Bool.or_eq_true, decide_eq_true_eq, decide_eq_true_eq]
          exact UInt64.le_total _ _) _
    have hdiffer : (db.inLine policy).Pairwise fun p q => p.2.lastAccessed ≠ q.2.lastAccessed :=
      (inLine_perm db policy).symm.pairwise (hdistinct.filter _) fun h => Ne.symm h
    refine hsorted.imp₂ (fun p q hle hne => ?_) hdiffer
    exact UInt64.lt_of_le_of_ne (of_decide_eq_true hle) hne
  mem_iff p := by
    rw [(inLine_perm db policy).mem_iff, List.mem_filter]

namespace Lined

/-- The head of the line is older than whatever else may go. -/
theorem eq_head (h : db.Lined policy (p :: line)) (hq : q ∈ p :: line)
    (hle : q.2.lastAccessed ≤ p.2.lastAccessed) : q = p := by
  rcases List.mem_cons.1 hq with rfl | hq
  · rfl
  · exact absurd hle (UInt64.not_le.2 (List.rel_of_pairwise_cons h.ordered hq))

/-- **Without its head the line is that of what is left.** -/
theorem erase (h : db.Lined policy (p :: line)) : (db.erase p.1 p.2).Lined policy line where
  ordered := h.ordered.of_cons
  mem_iff q := by
    have hstored : db.entries.find? p.1 = some p.2 :=
      (ByteMap.find?_eq_some_iff _).2 ((h.mem_iff p).1 List.mem_cons_self).1
    have hleft : q ∈ (db.erase p.1 p.2).entries.toList ↔ q.1 ≠ p.1 ∧ q ∈ db.entries.toList := by
      rw [← ByteMap.find?_eq_some_iff (db.erase p.1 p.2).entries (k := q.1) (v := q.2),
        ← ByteMap.find?_eq_some_iff db.entries (k := q.1) (v := q.2)]
      unfold Database.erase
      rw [ByteMap.find?_erase]
      by_cases hkey : q.1 = p.1 <;> simp [hkey]
    rw [hleft, and_assoc, ← h.mem_iff q, List.mem_cons]
    constructor
    · intro hq
      refine ⟨fun hkey => ?_, .inr hq⟩
      -- one key has one entry, and the head is not older than itself
      have hfound : db.entries.find? q.1 = some q.2 :=
        (ByteMap.find?_eq_some_iff _).2 ((h.mem_iff q).1 (List.mem_cons_of_mem p hq)).1
      rw [hkey, hstored] at hfound
      have holder : Older p q := List.rel_of_pairwise_cons h.ordered hq
      rw [Older, Option.some.inj hfound] at holder
      exact UInt64.lt_irrefl _ holder
    · rintro ⟨hkey, rfl | hq⟩
      · exact absurd rfl hkey
      · exact hq

end Lined

theorem size_erase_le (db : Database) (key : Bytes) (entry : Entry) :
    (db.erase key entry).entries.size ≤ db.entries.size :=
  List.length_filter_le _ _

end Database

/-! ## §3. Attempts. -/

namespace Keyspace

variable {ks : Keyspace} {walks : Nat → Walk} {i cursor : Nat} {victims : List (Bytes × Entry)}

/-- A database that every sample of the policy covers, and its line. -/
structure Covers (ks : Keyspace) (i : Nat) (db : Database) (line : List (Bytes × Entry)) :
    Prop where
  database : ks.databases[i]? = some db
  canEvict : ks.policy.canEvict = true
  lined : db.Lined ks.policy line
  size : db.entries.size ≤ ks.policy.sampleSize

theorem Covers.atCursor (h : ks.Covers i db line) (cursor : Nat) :
    (ks.atCursor i cursor).Covers i { db with cursor } line where
  database := getElem?_modifyDatabase h.database _
  canEvict := h.canEvict
  lined := ⟨h.lined.ordered, h.lined.mem_iff⟩
  size := h.size

/-- Without its head the line is worked off in the same way. -/
theorem Covers.discard (h : ks.Covers i db (p :: line)) :
    (ks.discard i p.1 p.2 .evicted).Covers i (db.erase p.1 p.2) line where
  database := getElem?_discard h.database p
  canEvict := by rw [policy_discard]; exact h.canEvict
  lined := by rw [policy_discard]; exact h.lined.erase
  size := by rw [policy_discard]; exact Nat.le_trans (db.size_erase_le p.1 p.2) h.size

/-- **An attempt finds the head of the line**, and nothing if there is no line. -/
theorem Covers.victimAlong?_eq (h : ks.Covers i db line)
    (hsame : again.visit db.entries = first.visit db.entries) :
    ks.victimAlong? first again db = line.head? := by
  unfold victimAlong?
  generalize hcandidates : (db.sampleAlong first again ks.policy.sampleSize).1.filter
    (fun p => ks.policy.isEligible p.2) = candidates
  -- the sample is large enough for the whole database, so the candidates are the line
  have hmem : ∀ q, q ∈ candidates ↔ q ∈ line := by
    intro q
    rw [← hcandidates, List.mem_filter, h.lined.mem_iff]
    refine and_congr_left fun _ => ⟨Database.mem_of_mem_sampleAlong, fun hq => ?_⟩
    exact Database.mem_sampleAlong_of_size_le h.size hsame hq
  cases line with
  | nil =>
    refine leastRecent?_eq_none_iff.2 (List.eq_nil_iff_forall_not_mem.2 fun q hq => ?_)
    exact List.not_mem_nil ((hmem q).1 hq)
  | cons p line =>
    have hp : p ∈ candidates := (hmem p).2 List.mem_cons_self
    cases hleast : leastRecent? candidates with
    | none =>
      rw [leastRecent?_eq_none_iff.1 hleast] at hp
      exact absurd hp List.not_mem_nil
    | some q =>
      have hq : q ∈ p :: line := (hmem q).1 (mem_of_leastRecent? hleast)
      exact congrArg some (h.lined.eq_head hq (lastAccessed_le_of_leastRecent? hleast hp))

/-! ## §4. Rounds. -/

/-- The victims are the first in a line, and either they were enough or there is nobody else
in it. -/
structure Heads (ks : Keyspace) (i : Nat) (line victims : List (Bytes × Entry)) : Prop where
  first : victims <+: line
  enough : (ks.takeOut i victims).usedMemory ≤ ks.maxMemory ∨ victims = line

/-- The cursor makes no difference. -/
theorem Heads.of_atCursor (h : (ks.atCursor i cursor).Heads i line victims) :
    ks.Heads i line victims where
  first := h.first
  enough := by
    have henough := h.enough
    rw [takeOut_atCursor, usedMemory_atCursor] at henough
    exact henough

/-- The head of the line goes, and then the first of the rest. -/
theorem Heads.cons (h : (ks.discard i p.1 p.2 .evicted).Heads i line victims) :
    ks.Heads i (p :: line) (p :: victims) where
  first := (List.prefix_cons_inj p).2 h.first
  enough := by
    have henough := h.enough
    rw [maxMemory_discard] at henough
    exact henough.imp_right (congrArg (p :: ·))

/-- When a round stops, memory is within the ceiling or nobody is in line. -/
theorem Covers.heads_of_stop (h : ks.Covers i db line)
    (hstop : ks.usedMemory ≤ ks.maxMemory ∨ db.entries.isEmpty = true) : ks.Heads i line [] where
  first := List.nil_prefix
  enough := by
    refine hstop.imp_right fun hempty => (List.eq_nil_iff_forall_not_mem.2 fun p hp => ?_).symm
    have hstored := ((h.lined.mem_iff p).1 hp).1
    rw [List.isEmpty_iff.1 hempty] at hstored
    exact List.not_mem_nil hstored

/-- **A round works off the line from its head**, by induction on the attempts that are left,
of which there are as many as entries in the line. -/
theorem Covers.takes_heads {budget : Nat} (h : ks.Covers i db line)
    (hsame : ∀ t m, (walks (2 * t + 1)).visit m = (walks (2 * t)).visit m)
    (hbudget : line.length ≤ budget) :
    ∃ victims, Takes budget ks i (evictUpToAlong walks budget ks i) victims
      ∧ ks.Heads i line victims := by
  induction budget generalizing ks db line with
  | zero =>
    have hnil : line = [] := List.eq_nil_of_length_eq_zero (Nat.le_zero.1 hbudget)
    exact ⟨[], .nothing h.database (.inr rfl), List.nil_prefix, .inr hnil.symm⟩
  | succ budget ih =>
    unfold evictUpToAlong
    rw [h.database]
    dsimp only
    split
    · rename_i hstop
      exact ⟨[], .nothing h.database (.inl (relieved_of_stop h.database hstop)),
        h.heads_of_stop hstop⟩
    · rename_i hgo
      rw [not_or, Nat.not_le] at hgo
      obtain ⟨hover, hentries⟩ := hgo
      have hvictim := h.victimAlong?_eq (hsame budget db.entries)
      cases line with
      | nil =>
        -- nobody is in line, and only the cursor moves on
        have hvolatile := isVolatile_of_miss h.canEvict hentries hvictim
        rw [attemptAlong_of_miss h.database hvictim]
        obtain ⟨victims, hrest, hheads⟩ := ih (h.atCursor _) (Nat.zero_le budget)
        exact ⟨victims, hrest.miss hvolatile, hheads.of_atCursor⟩
      | cons p line =>
        -- the victim is the head of the line, and the rest of the line is that of the next attempt
        obtain ⟨hstored, heligible⟩ := victimAlong?_spec h.database hvictim
        rw [attemptAlong_of_victim h.database hvictim]
        obtain ⟨victims, hrest, hheads⟩ := ih (h.discard.atCursor _)
          (Nat.le_of_succ_le_succ hbudget)
        exact ⟨p :: victims, hrest.victim hstored heligible hover, hheads.of_atCursor.cons⟩

/-- **The least recently used go first, and no more than must**, in a database that one sample
covers, as long as a sample that begins again walks the map the way it began.  The victims are
the first in line of those that may go, by the time of their last access, one after the other
while memory is above the ceiling; and at the end it is not, or nobody is left in line. -/
theorem lru_exact (hsame : ∀ t m, (walks (2 * t + 1)).visit m = (walks (2 * t)).visit m)
    (hdb : ks.databases[i]? = some db) (hsize : db.entries.size ≤ 5)
    (hdistinct : db.entries.toList.Pairwise fun p q => p.2.lastAccessed ≠ q.2.lastAccessed)
    (hceiling : 0 < ks.maxMemory)
    (hpolicy : ks.policy = .allKeysLru ∨ ks.policy = .volatileLru) :
    ks.evict i = ks.evictAlong (fun _ => .inOrder) i
      ∧ (db.inLine ks.policy).Perm (db.entries.toList.filter fun p => ks.policy.isEligible p.2)
      ∧ (db.inLine ks.policy).Pairwise Older
      ∧ ∃ victims ks', ks.evictAlong walks i = .ok (ks', victims.length)
        ∧ ks.Round i victims ks' ∧ victims <+: db.inLine ks.policy
        ∧ (ks'.usedMemory ≤ ks.maxMemory ∨ victims = db.inLine ks.policy) := by
  have hsample : ks.policy.sampleSize = 5 := by rcases hpolicy with h | h <;> rw [h] <;> rfl
  have hevicts : ks.policy ≠ .noEviction := by rcases hpolicy with h | h <;> rw [h] <;> decide
  have hlined := Database.lined_inLine ks.policy hdistinct
  have hcovers : ks.Covers i db (db.inLine ks.policy) :=
    ⟨hdb, decide_eq_true hevicts, hlined, hsample.symm ▸ hsize⟩
  have hlength : (db.inLine ks.policy).length ≤ maxAttempts := by
    have hfilter := List.length_filter_le (fun p => ks.policy.isEligible p.2) db.entries.toList
    rw [(Database.inLine_perm db ks.policy).length_eq]
    exact Nat.le_trans hfilter (Nat.le_trans hsize (by decide))
  refine ⟨evict_eq_evictAlong ks i, Database.inLine_perm db ks.policy, hlined.ordered, ?_⟩
  obtain ⟨victims, htakes, hheads⟩ := hcovers.takes_heads hsame hlength
  rw [evictAlong_eq walks hdb hceiling hevicts]
  generalize evictUpToAlong walks maxAttempts ks i = outcome at htakes ⊢
  obtain ⟨ks', n⟩ := outcome
  obtain ⟨rfl, hround⟩ := htakes.round
  refine ⟨victims, ks', rfl, hround, hheads.first, ?_⟩
  obtain ⟨cursor, rfl⟩ := hround.taken
  rw [usedMemory_atCursor]
  exact hheads.enough

/-- Five keys with the cursor at the fourth of them.  The two that were not accessed for the
longest time have no deadline. -/
def agedDatabase : Database where
  entries := ByteMap.ofList
    [([97], ⟨.string [118], none, 1⟩), ([98], ⟨.string [118], some 50, 9⟩),
      ([99], ⟨.string [118], some 60, 4⟩), ([100], ⟨.string [118], none, 2⟩),
      ([101], ⟨.string [118], some 70, 6⟩)]
  memory := 250
  cursor := 3

/-- The five keys beside another database, under a ceiling that three of them fit below. -/
def aged : Keyspace where
  databases := [{ crowdedDatabase with cursor := 0 }, agedDatabase]
  now := 10
  maxMemory := 260
  policy := .volatileLru
  writes := 0
  stats := ⟨0, 0, 0, 0⟩
  listening := true
  notices := []

/-- Every second attempt walks backwards. -/
def inTurns (t : Nat) : Walk := if t / 2 % 2 = 0 then .inOrder else .backwards

/-- Two of the three keys with a deadline go, in the order of their last access. -/
theorem lru_exact_aged :
    agedDatabase.entries.size ≤ 5
      ∧ (agedDatabase.entries.toList.Pairwise fun p q => p.2.lastAccessed ≠ q.2.lastAccessed)
      ∧ ∃ victims ks', aged.evictAlong inTurns 1 = .ok (ks', victims.length)
        ∧ victims <+: agedDatabase.inLine .volatileLru ∧ aged.Round 1 victims ks'
        ∧ victims.length = 2 ∧ ks'.usedMemory ≤ aged.maxMemory
        ∧ ks'.notices = [⟨.evicted, 1, [99]⟩, ⟨.evicted, 1, [101]⟩] := by
  have hdistinct : agedDatabase.entries.toList.Pairwise
      fun p q => p.2.lastAccessed ≠ q.2.lastAccessed := by decide
  have hdb : aged.databases[1]? = some agedDatabase := rfl
  have hsame : ∀ t m, (inTurns (2 * t + 1)).visit m = (inTurns (2 * t)).visit m := by
    intro t m
    unfold inTurns
    rw [show (2 * t + 1) / 2 = 2 * t / 2 by omega]
  obtain ⟨-, -, -, victims, ks', hevict, hround, hfirst, -⟩ :=
    lru_exact hsame hdb (by decide) hdistinct (by decide) (.inr rfl)
  have houtcome : (aged.evictAlong inTurns 1).map
      (fun outcome => (outcome.2, decide (outcome.1.usedMemory ≤ aged.maxMemory), outcome.1.notices))
      = .ok (2, true, [⟨.evicted, 1, [99]⟩, ⟨.evicted, 1, [101]⟩]) := rfl
  rw [hevict] at houtcome
  obtain ⟨htwo, hrest⟩ := Prod.mk.inj (Except.ok.inj houtcome)
  obtain ⟨hroom, hnotices⟩ := Prod.mk.inj hrest
  exact ⟨by decide, hdistinct, victims, ks', hevict, hfirst, hround, htwo,
    of_decide_eq_true hroom, hnotices⟩

end Keyspace

end DurableStore
