/-
  DurableStore.Proofs.Keyspace.Eviction
  ────────────────────────────────
  **WHAT EVICTION TAKES.**

  An eviction removes keys of one database and reports each of them; nothing
  else that anybody sees of the keyspace changes.  Which keys go depends on
  sizes, access times and the cursor, so it is computed beside the eviction:

      victims ks i   — the keys that the check before a write to database `i`
                       takes, in order

  Main results:
    * `maybeEvict_spec` — the check leaves the contents without the victims
      and reports the victims;
    * `put_spec` — a write does that first, and then puts the entry there;
    * `victims_of_not_mayEvict` — without a ceiling there are no victims.
-/
import DurableStore.Proofs.Keyspace.Contents
import DurableStore.Proofs.Keyspace.Sampling

namespace DurableStore

/-! ## §1. Samples. -/

namespace Database

/-- A sample moves the cursor and nothing else. -/
theorem entries_sample (db : Database) (size : Nat) : (db.sample size).2.entries = db.entries := by
  rw [sample_eq_sampleAlong, sampleAlong_snd]

theorem datum?_sample (db : Database) (size : Nat) (t : Millis) (key : Bytes) :
    (db.sample size).2.datum? t key = db.datum? t key := by
  unfold datum?
  rw [entries_sample]

/-- What is sampled is stored. -/
theorem mem_of_mem_sample {db : Database} {size : Nat} {p : Bytes × Entry}
    (h : p ∈ (db.sample size).1) : p ∈ db.entries.toList := by
  rw [sample_eq_sampleAlong] at h
  exact mem_of_mem_sampleAlong h

end Database

theorem mem_of_leastRecent? {ps : List (Bytes × Entry)} {p : Bytes × Entry}
    (h : leastRecent? ps = some p) : p ∈ ps := by
  induction ps generalizing p with
  | nil => cases h
  | cons q ps ih =>
    unfold leastRecent? at h
    split at h
    · rename_i r hr
      split at h
      · cases h
        exact List.mem_cons_of_mem q (ih hr)
      · cases h
        exact List.mem_cons_self
    · cases h
      exact List.mem_cons_self

namespace Keyspace

variable {ks ks' : Keyspace} {i : Nat}

/-! ## §2. Victims. -/

/-- The entry that an attempt takes, if the sample holds one that may go. -/
def victim? (ks : Keyspace) (db : Database) : Option (Bytes × Entry) :=
  leastRecent? ((db.sample ks.policy.sampleSize).1.filter fun p => ks.policy.isEligible p.2)

/-- The keys that attempts take for as long as the budget lasts. -/
def victimsUpTo : Nat → Keyspace → Nat → List Bytes
  | 0, _, _ => []
  | budget + 1, ks, i =>
    match ks.databases[i]? with
    | none => []
    | some db =>
      if ks.usedMemory ≤ ks.maxMemory ∨ db.entries.isEmpty then []
      else ((ks.victim? db).map Prod.fst).toList
        ++ victimsUpTo budget (ks.attemptEviction i db).1 i

/-- The keys that the check before a write to a database takes. -/
def victims (ks : Keyspace) (i : Nat) : List Bytes :=
  if ks.mayEvict && ks.countWrite.evictionDue then victimsUpTo maxAttempts ks.countWrite i else []

theorem victims_of_not_mayEvict (h : ks.mayEvict = false) (i : Nat) : ks.victims i = [] := by
  unfold victims
  rw [h]
  rfl

theorem mem_of_victim? {db : Database} {p : Bytes × Entry} (h : ks.victim? db = some p) :
    p ∈ db.entries.toList :=
  Database.mem_of_mem_sample (List.mem_filter.1 (mem_of_leastRecent? h)).1

/-! ## §3. What a listener is told. -/

theorem told_nil (ks : Keyspace) (i : Nat) : ks.told i [] = [] := ite_self _

theorem told_append (ks : Keyspace) (i : Nat) (xs ys : List Bytes) :
    ks.told i (xs ++ ys) = ks.told i xs ++ ks.told i ys := by
  unfold told
  split
  · exact List.map_append
  · rfl

theorem told_congr (h : ks'.listening = ks.listening) (i : Nat) (keys : List Bytes) :
    ks'.told i keys = ks.told i keys := by
  unfold told
  rw [h]

/-- The victims of a keyspace are taken and reported, and then more. -/
theorem Evicts.trans_told {a b c : Keyspace} {xs ys : List Bytes} (hab : a.Evicts b (a.told i xs))
    (hbc : b.Evicts c (b.told i ys)) : a.Evicts c (a.told i (xs ++ ys)) := by
  rw [told_congr hab.listening] at hbc
  rw [told_append]
  exact hab.trans hbc

theorem Keeps.evicts (h : ks.Keeps ks') (i : Nat) : ks.Evicts ks' (ks.told i []) := by
  rw [told_nil]
  exact h

theorem Evicts.keeps (h : ks.Evicts ks' (ks.told i [])) : ks.Keeps ks' := by
  rw [told_nil] at h
  exact h

/-! ## §4. Rounds. -/

/-- A database whose cursor has moved is the same to everybody. -/
theorem contents_moved (hi : i < ks.count) (size : Nat) (t : Millis) :
    (ks.modifyDatabase i fun _ => ((ks.databases.getD i Database.empty).sample size).2).contents t
      = ks.contents t := by
  funext j key
  rw [contents_modifyDatabase hi, Database.datum?_sample]
  split
  · rename_i hj
    rw [hj]
    rfl
  · rfl

/-- **An attempt takes its victim**, if there is one. -/
theorem attemptEviction_spec (hi : i < ks.count) :
    ks.Evicts (ks.attemptEviction i (ks.databases.getD i Database.empty)).1
        (ks.told i ((ks.victim? (ks.databases.getD i Database.empty)).map Prod.fst).toList)
      ∧ ∀ t, (ks.attemptEviction i (ks.databases.getD i Database.empty)).1.contents t
          = (ks.contents t).without i
              ((ks.victim? (ks.databases.getD i Database.empty)).map Prod.fst).toList := by
  unfold attemptEviction victim?
  dsimp only
  -- taking the sample only moves the cursor of the database
  generalize hmoved : ks.modifyDatabase i (fun _ =>
    ((ks.databases.getD i Database.empty).sample ks.policy.sampleSize).2) = moved
  have hkeeps : ks.Keeps moved := hmoved ▸ keeps_modifyDatabase ks i _
  have hcontents : ∀ t, moved.contents t = ks.contents t := by
    intro t
    rw [← hmoved, contents_moved hi]
  have hpolicy : moved.policy = ks.policy := hkeeps.policy
  rw [hpolicy]
  cases hvictim : leastRecent? (((ks.databases.getD i Database.empty).sample
      ks.policy.sampleSize).1.filter fun p => ks.policy.isEligible p.2) with
  | none => exact ⟨hkeeps.evicts i, hcontents⟩
  | some p =>
    have hi' : i < moved.count := by rw [hkeeps.count]; exact hi
    refine ⟨?_, ?_⟩
    · have hcounted := keeps_counted moved i p.1 p.2 .evicted
      have hnotified := evicts_notify
        ((moved.modifyDatabase i (·.erase p.1 p.2)).countRemoval .evicted) i p.1
      exact (hkeeps.evicts i).trans_told ((hcounted.evicts i).trans_told hnotified)
    · intro t
      show (moved.discard i p.1 p.2 .evicted).contents t = (ks.contents t).assign i p.1 none
      rw [contents_discard hi', hcontents]

/-- **A round takes its victims**, by induction on the budget. -/
theorem evictUpTo_spec (budget : Nat) (hi : i < ks.count) :
    ks.Evicts (evictUpTo budget ks i).1 (ks.told i (victimsUpTo budget ks i))
      ∧ ∀ t, (evictUpTo budget ks i).1.contents t
          = (ks.contents t).without i (victimsUpTo budget ks i) := by
  induction budget generalizing ks with
  | zero => exact ⟨(Keeps.refl ks).evicts i, fun t => rfl⟩
  | succ budget ih =>
    have hdatabase : ks.databases[i]? = some (ks.databases.getD i Database.empty) := by
      rw [List.getD_eq_getElem?_getD, List.getElem?_eq_getElem hi]
      rfl
    unfold evictUpTo victimsUpTo
    rw [hdatabase]
    dsimp only
    split
    · -- there is room enough, or nothing left to take
      exact ⟨(Keeps.refl ks).evicts i, fun t => rfl⟩
    · obtain ⟨hattempt, hleft⟩ := attemptEviction_spec hi
      have hi' : i < (ks.attemptEviction i (ks.databases.getD i Database.empty)).1.count := by
        rw [hattempt.count]
        exact hi
      obtain ⟨hrest, hcontents⟩ := ih hi'
      refine ⟨hattempt.trans_told hrest, ?_⟩
      intro t
      rw [hcontents, hleft, Contents.without_append]

/-- **The check before a write takes the victims.** -/
theorem maybeEvict_spec (hi : i < ks.count) :
    ks.Evicts (ks.maybeEvict i).1 (ks.told i (ks.victims i))
      ∧ ∀ t, (ks.maybeEvict i).1.contents t = (ks.contents t).without i (ks.victims i) := by
  have hcounted : ks.Keeps ks.countWrite := keeps_of_notices rfl rfl rfl rfl rfl rfl
  have hround : ks.countWrite.evict i
      = if ks.mayEvict then .ok (evictUpTo maxAttempts ks.countWrite i)
        else .ok (ks.countWrite, 0) := by
    unfold evict
    rw [database_of_lt (show i < ks.countWrite.count from hi)]
    rfl
  unfold maybeEvict victims
  dsimp only
  rw [hround]
  cases ks.mayEvict with
  | false => exact ⟨(Keeps.refl ks).evicts i, fun t => rfl⟩
  | true =>
    cases ks.countWrite.evictionDue with
    | false => exact ⟨hcounted.evicts i, fun t => rfl⟩
    | true =>
      obtain ⟨hevicts, hleft⟩ := evictUpTo_spec maxAttempts (show i < ks.countWrite.count from hi)
      exact ⟨hcounted.thenEvicts hevicts, hleft⟩

/-! ## §5. Writing an entry. -/

/-- **Writing an entry** takes the victims first. -/
theorem put_spec (hi : i < ks.count) (key : Bytes) (entry : Entry) :
    ∃ ks', ks.put i key entry = .ok ks' ∧ ks.Evicts ks' (ks.told i (ks.victims i))
      ∧ ∀ t, ks'.contents t = ((ks.contents t).without i (ks.victims i)).assign i key
          ((some entry.datum).filter (Datum.isLive t)) := by
  obtain ⟨hevicts, hleft⟩ := maybeEvict_spec hi
  unfold put
  rw [database_of_lt hi]
  dsimp only [bind, Except.bind]
  -- a check that fails to make room does not stop the write
  generalize ks.maybeEvict i = outcome at hevicts hleft ⊢
  obtain ⟨room, result⟩ := outcome
  have hi' : i < room.count := by rw [hevicts.count]; exact hi
  dsimp only at hevicts hleft ⊢
  rw [database_of_lt hi']
  dsimp only
  refine ⟨_, rfl, ?_, ?_⟩
  · have hinserted := keeps_modifyDatabase room i (·.insert key (entry.touch room.now))
    refine hevicts.thenKeeps (hinserted.trans (keeps_notify _ i key ?_))
    split
    · split <;> decide
    · decide
  · intro t
    rw [contents_congr (databases_notify _ i key _), ← hleft]
    exact contents_modifyDatabase_assign hi' fun db k => db.datum?_insert key _ t k

end Keyspace

end DurableStore
