/-
  DurableStore.Proofs.Command.Refusal
  ────────────────────────────────
  **A COMMAND THAT IS REFUSED CHANGES NOTHING.**

  A command may name many keys, elements and options, and it is refused for
  a bad name, a wrong number of arguments, a text that is no number or no
  score, an option that does not exist, a database out of range or a value
  of another kind.  All of that is found out before the first change: what
  a refused command leaves behind is what it found.

  What it may have done is to look: the entry that it looked up is touched
  and counted, and one that was expired is gone.  Nobody who looks at the
  dataset sees that.

  The selected database is in range in every session that begins with one
  in range.  Where it is not, every lookup is refused at once
  (`eq_of_refused_of_le`), so the statement needs no such assumption.
-/
import DurableStore.Proofs.Command.Meaning

namespace DurableStore

/-! ## §1. Databases that do not exist. -/

namespace Keyspace

variable {ks : Keyspace} {i : Nat}

theorem visit_of_le (h : ks.count ≤ i) (key : Bytes) :
    ks.visit i key = .error (.databaseOutOfRange i ks.count) := by
  unfold visit
  rw [database_of_le h]
  rfl

theorem remove_of_le (h : ks.count ≤ i) (key : Bytes) :
    ks.remove i key = .error (.databaseOutOfRange i ks.count) := by
  unfold remove
  rw [database_of_le h]
  rfl

theorem setExpiry_of_le (h : ks.count ≤ i) (key : Bytes) (expiresAt : Option Millis) :
    ks.setExpiry i key expiresAt = .error (.databaseOutOfRange i ks.count) := by
  unfold setExpiry update
  rw [visit_of_le h]
  rfl

theorem clear_of_le (h : ks.count ≤ i) :
    ks.clear i = .error (.databaseOutOfRange i ks.count) := by
  unfold clear
  rw [database_of_le h]
  rfl

end Keyspace

namespace Session

open Command Keyspace

variable {s : Session}

/-! ## §2. Steps that refuse. -/

/-- An operation that ends a step is refused before it changes anything. -/
theorem eq_of_finish_error {outcome : Except KeyspaceError Keyspace} {error : CommandError}
    (h : (s.finish outcome).2 = .error error) : (s.finish outcome).1 = s := by
  cases outcome with
  | ok ks => cases h
  | error e => rfl

theorem eq_of_select_error {index : Nat} {error : CommandError}
    (h : (s.select index).2 = .error error) : (s.select index).1 = s := by
  unfold select at h ⊢
  split at h
  · cases h
  · rename_i hrange
    rw [if_neg hrange]
    rfl

/-- **With a selection out of range a step that is refused leaves the session as it
was**: the first lookup fails. -/
theorem eq_of_refused_of_le (hselected : s.keyspace.count ≤ s.selected) (action : Action)
    {error : CommandError} (h : (s.perform action).2 = .error error) :
    (s.perform action).1 = s := by
  cases action with
  | select index => exact eq_of_select_error h
  | set request =>
    have hget : s.keyspace.get s.selected request.key = .error _ :=
      visit_of_le hselected request.key
    show (s.set request).1 = s
    unfold set
    rw [hget]
    rfl
  | remove keys =>
    cases keys with
    | nil => cases h
    | cons key keys =>
      show (removeAll (key :: keys) s).1 = s
      unfold removeAll
      rw [remove_of_le hselected]
      rfl
  | change key kind edit =>
    have hget : s.keyspace.get s.selected key = .error _ := visit_of_le hselected key
    show (s.upsert key kind edit).1 = s
    unfold upsert
    rw [hget]
    rfl
  | expire key expiresAt =>
    show (s.setExpiry key expiresAt).1 = s
    unfold setExpiry
    rw [setExpiry_of_le hselected]
    rfl
  | clear =>
    show (s.finish (s.keyspace.clear s.selected)).1 = s
    rw [clear_of_le hselected]
    rfl
  | clearAll => cases h
  | swap a b => exact eq_of_finish_error h

/-! ## §3. Refused commands. -/

/-- A command that is refused evicts nothing and leaves the contents and the selection
as they were. -/
theorem performs_of_refused (hselected : s.selected < s.keyspace.count)
    (hfallback : s.fallback = none) {command : Command} {error : CommandError}
    (h : (s.apply command).2 = .error error) : s.Performs (s.apply command) .refused := by
  have hspec := apply_evicting command (.inl hfallback) hselected
  have hrefused : command.meaning s.keyspace.now s.keyspace.count
      (s.keyspace.contents s.keyspace.now s.selected) = .refused := by
    by_contra hne
    rw [hspec.verdict.2 hne] at h
    cases h
  rw [hrefused, victims_of_refused hrefused] at hspec
  exact hspec.performs

/-- **A command that is refused changes nothing**: the same database is selected, the
clock, the ceiling and the policy are as before, no key was evicted, and every database
holds the same live keys with the same values and deadlines, now and later. -/
theorem refused_changes_nothing (hfallback : s.fallback = none) {command : Command}
    {error : CommandError} (h : (s.apply command).2 = .error error) :
    (s.apply command).1.selected = s.selected
      ∧ s.keyspace.Keeps (s.apply command).1.keyspace
      ∧ (s.apply command).1.keyspace.dataset = s.keyspace.dataset
      ∧ ∀ t, s.keyspace.now ≤ t →
          (s.apply command).1.keyspace.contents t = s.keyspace.contents t := by
  by_cases hselected : s.selected < s.keyspace.count
  · have hperforms := performs_of_refused hselected hfallback h
    have hdataset : (s.apply command).1.keyspace.dataset = s.keyspace.dataset := by
      refine dataset_eq_iff.2 ⟨hperforms.keeps.count, ?_⟩
      rw [hperforms.keeps.now]
      exact hperforms.contents s.keyspace.now (UInt64.le_refl _)
    exact ⟨hperforms.selected, hperforms.keeps, hdataset, hperforms.contents⟩
  · -- nothing can be looked up, so the session is the one it was
    have hsame : (s.apply command).1 = s := by
      rw [apply_eq (.inl hfallback)] at h ⊢
      cases haction : command.action s.keyspace.now with
      | error e => rfl
      | ok action =>
        rw [haction] at h
        exact eq_of_refused_of_le (Nat.le_of_not_lt hselected) action h
    rw [hsame]
    exact ⟨rfl, Keeps.refl _, rfl, fun _ _ => rfl⟩

/-- A session over a string that has a deadline. -/
def oneString : Session :=
  start { Keyspace.new 2 5 with
    databases := [Database.empty.insert [107] (Entry.fresh (.string [118]) (some 9)),
      Database.empty] } none

/-- A hash field under the key of a string: the string was looked at, which the session
shows, and is what it was. -/
theorem refused_changes_nothing_otherKind :
    (oneString.apply [Bytes.ofString "HSET", [107], [102], [118]]).2
        = .error (.keyspace (.wrongKind .hash .string))
      ∧ (oneString.apply [Bytes.ofString "HSET", [107], [102], [118]]).1.keyspace.stats.hits = 1
      ∧ (oneString.apply [Bytes.ofString "HSET", [107], [102], [118]]).1.keyspace.dataset
          = oneString.keyspace.dataset := by
  have hrefused : (oneString.apply [Bytes.ofString "HSET", [107], [102], [118]]).2
      = .error (.keyspace (.wrongKind .hash .string)) := by rfl
  exact ⟨hrefused, by rfl, (refused_changes_nothing rfl hrefused).2.2.1⟩

end Session

end DurableStore
