/-
  DurableStore.Proofs.Keyspace.Operation
  ────────────────────────────────
  **WHERE NOTHING CAN BE EVICTED.**

  Whatever a write does to a keyspace, it is made of a few operations: it
  looks keys up, changes, writes and removes them, empties, exchanges or
  restores databases, sweeps, or asks for room.  A keyspace without a
  memory ceiling, or whose policy drops nothing, keeps through all of them
  everything but its entries, its counters and its notices, and none of
  the notices tells of an eviction (`Operates.keeps`).  Under any limits it
  keeps its databases (`Operates.count`).
-/
import DurableStore.Proofs.Keyspace.Eviction
import DurableStore.Proofs.Keyspace.Steps

namespace DurableStore.Keyspace

/-- One thing that is done with a keyspace.  What else there is — reading a key,
asking for it, setting its deadline — is a lookup or a change in place. -/
inductive Operation : Keyspace → Keyspace → Prop
  | visit {ks ks' : Keyspace} {i : Nat} {key : Bytes} {found : Option Entry}
      (h : ks.visit i key = .ok (ks', found)) : Operation ks ks'
  | update {ks ks' : Keyspace} {i : Nat} {key : Bytes} {α : Type} {change : Entry → Entry × α}
      {result : Option α} (h : ks.update i key change = .ok (ks', result)) : Operation ks ks'
  | put {ks ks' : Keyspace} {i : Nat} {key : Bytes} {entry : Entry}
      (h : ks.put i key entry = .ok ks') : Operation ks ks'
  | remove {ks ks' : Keyspace} {i : Nat} {key : Bytes} {found : Option Entry}
      (h : ks.remove i key = .ok (ks', found)) : Operation ks ks'
  | clear {ks ks' : Keyspace} {i : Nat} (h : ks.clear i = .ok ks') : Operation ks ks'
  | clearAll (ks : Keyspace) : Operation ks ks.clearAll
  | swap {ks ks' : Keyspace} {a b : Nat} (h : ks.swap a b = .ok ks') : Operation ks ks'
  | restore {ks ks' : Keyspace} {s : Snapshot} (h : ks.restore s = .ok ks') : Operation ks ks'
  | sweep (ks : Keyspace) : Operation ks ks.sweep.1
  | evict {ks ks' : Keyspace} {i n : Nat} (h : ks.evict i = .ok (ks', n)) : Operation ks ks'
  | maybeEvict (ks : Keyspace) (i : Nat) : Operation ks (ks.maybeEvict i).1

/-- Operations one after the other. -/
abbrev Operates : Keyspace → Keyspace → Prop := Relation.ReflTransGen Operation

variable {ks ks' : Keyspace} {i : Nat} {key : Bytes}

/-! ## §1. One operation. -/

/-- A key that is taken out for another reason than to make room. -/
theorem keeps_discard (ks : Keyspace) (i : Nat) (key : Bytes) (entry : Entry) {event : Event}
    (h : event ≠ .evicted) : ks.Keeps (ks.discard i key entry event) :=
  (keeps_counted ks i key entry event).trans (keeps_notify _ i key h)

theorem keeps_visit {found : Option Entry} (h : ks.visit i key = .ok (ks', found)) :
    ks.Keeps ks' := by
  obtain ⟨after, result, hvisit, hkeeps, -⟩ := visit_spec (lt_of_bind h) key
  rw [hvisit] at h
  cases h
  exact hkeeps

theorem keeps_update {α : Type} {change : Entry → Entry × α} {result : Option α}
    (h : ks.update i key change = .ok (ks', result)) : ks.Keeps ks' := by
  obtain ⟨⟨after, found⟩, hvisit, hafter⟩ := exists_of_bind h
  have hkeeps := keeps_visit hvisit
  cases found with
  | none =>
    cases hafter
    exact hkeeps
  | some before =>
    have hchanged := hkeeps.trans
      (keeps_modifyDatabase after i (·.replace key before (change before).1))
    dsimp only at hafter
    split at hafter
    · -- an emptied collection is taken out
      cases hafter
      exact hchanged.trans (keeps_discard _ i key _ (by decide))
    · cases hafter
      exact hchanged

/-- Nothing is done where room is asked for. -/
theorem maybeEvict_eq (h : ks.mayEvict = false) (i : Nat) : ks.maybeEvict i = (ks, .ok 0) := by
  unfold maybeEvict
  rw [h]
  rfl

theorem keeps_evict {n : Nat} (hevict : ks.mayEvict = false) (h : ks.evict i = .ok (ks', n)) :
    ks.Keeps ks' := by
  obtain ⟨db, -, hnothing⟩ := exists_of_bind h
  rw [hevict] at hnothing
  cases hnothing
  exact Keeps.refl ks

theorem keeps_put {entry : Entry} (hevict : ks.mayEvict = false)
    (h : ks.put i key entry = .ok ks') : ks.Keeps ks' := by
  unfold put at h
  rw [maybeEvict_eq hevict] at h
  obtain ⟨-, -, hagain⟩ := exists_of_bind h
  obtain ⟨db, -, hwritten⟩ := exists_of_bind hagain
  cases hwritten
  refine (keeps_modifyDatabase ks i _).trans (keeps_notify _ i key ?_)
  cases db.entries.find? key with
  | none => exact fun heq => nomatch heq
  | some previous =>
    dsimp only
    split <;> decide

theorem keeps_remove {found : Option Entry} (h : ks.remove i key = .ok (ks', found)) :
    ks.Keeps ks' := by
  obtain ⟨after, result, hremove, hkeeps, -⟩ := remove_spec (lt_of_bind h) key
  rw [hremove] at h
  cases h
  exact hkeeps

theorem keeps_clear (h : ks.clear i = .ok ks') : ks.Keeps ks' := by
  obtain ⟨db, -, hcleared⟩ := exists_of_bind h
  cases hcleared
  exact keeps_modifyDatabase ks i _

theorem keeps_swap {a b : Nat} (h : ks.swap a b = .ok ks') : ks.Keeps ks' := by
  by_cases hab : a < ks.count ∧ b < ks.count
  · obtain ⟨after, hswap, hkeeps, -⟩ := swap_spec hab.1 hab.2
    rw [hswap] at h
    cases h
    exact hkeeps
  · obtain ⟨error, hswap⟩ := swap_of_le hab
    rw [hswap] at h
    cases h

/-- **A sweep** takes expired keys out, and no others. -/
theorem keeps_sweep (ks : Keyspace) : ks.Keeps ks.sweep.1 := by
  have hrow := expires_sweep ks
  generalize ks.sweep.1 = swept at hrow
  induction hrow with
  | refl => exact Keeps.refl ks
  | tail _ hstep ih =>
    cases hstep with
    | discard => exact ih.trans (keeps_discard _ _ _ _ (by decide))

/-! ## §2. Operations in a row. -/

/-- **One operation** keeps a keyspace in which nothing can be evicted. -/
theorem Operation.keeps (h : Operation ks ks') (hevict : ks.mayEvict = false) : ks.Keeps ks' := by
  cases h with
  | visit h => exact keeps_visit h
  | update h => exact keeps_update h
  | put h => exact keeps_put hevict h
  | remove h => exact keeps_remove h
  | clear h => exact keeps_clear h
  | clearAll => exact (clearAll_spec ks).1
  | swap h => exact keeps_swap h
  | restore h => exact keeps_restore h
  | sweep => exact keeps_sweep ks
  | evict h => exact keeps_evict hevict h
  | maybeEvict i =>
    rw [maybeEvict_eq hevict]
    exact Keeps.refl ks

/-- **Any operations**, by induction on them. -/
theorem Operates.keeps (h : Operates ks ks') (hevict : ks.mayEvict = false) : ks.Keeps ks' := by
  induction h with
  | refl => exact Keeps.refl ks
  | tail _ hstep ih => exact ih.trans (hstep.keeps (ih.mayEvict_eq.trans hevict))

/-! ## §3. Operations under any limits. -/

theorem count_evict {n : Nat} (h : ks.evict i = .ok (ks', n)) : ks'.count = ks.count := by
  have hi : i < ks.count := lt_of_bind h
  obtain ⟨db, -, h⟩ := exists_of_bind h
  split at h
  · have hround : evictUpTo maxAttempts ks i = (ks', n) := Except.ok.inj h
    have hcount := (evictUpTo_spec maxAttempts hi).1.count
    rw [hround] at hcount
    exact hcount
  · cases h
    rfl

theorem count_maybeEvict (ks : Keyspace) (i : Nat) : (ks.maybeEvict i).1.count = ks.count := by
  rcases maybeEvict_cases ks i with hsame | hcounted | ⟨n, hevict⟩
  · rw [hsame]
  · rw [hcounted]
    rfl
  · have hcount : (ks.maybeEvict i).1.count = ks.countWrite.count := count_evict hevict
    exact hcount

/-- **No operation adds or removes a database**, whatever it evicts. -/
theorem Operation.count (h : Operation ks ks') : ks'.count = ks.count := by
  cases h with
  | visit h => exact (keeps_visit h).count
  | update h => exact (keeps_update h).count
  | put h =>
    obtain ⟨after, hput, hevicts, -⟩ := put_spec (lt_of_bind h) _ _
    rw [h] at hput
    cases hput
    exact hevicts.count
  | remove h => exact (keeps_remove h).count
  | clear h => exact (keeps_clear h).count
  | clearAll => exact (clearAll_spec ks).1.count
  | swap h => exact (keeps_swap h).count
  | restore h => exact (keeps_restore h).count
  | sweep => exact (keeps_sweep ks).count
  | evict h => exact count_evict h
  | maybeEvict i => exact count_maybeEvict ks i

theorem Operates.count (h : Operates ks ks') : ks'.count = ks.count := by
  induction h with
  | refl => rfl
  | tail _ hstep ih => exact hstep.count.trans ih

end DurableStore.Keyspace
