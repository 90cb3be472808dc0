/-
  DurableStore.Proofs.Results
  ────────────────────────────────
  **A ROW OF STEPS THAT WENT THROUGH.**

  Whatever reads a disk, a keyspace or a file does so in steps, and stops at
  the first that fails.  If it went through, each step did: the theory takes
  every such row apart with the lemma below, a step at a time.
-/

namespace DurableStore

variable {ε α β : Type} {first : Except ε α} {next : α → Except ε β}

/-- What begins with a result goes on with it. -/
theorem exists_of_bind {result : β} (h : first >>= next = .ok result) :
    ∃ a, first = .ok a ∧ next a = .ok result := by
  cases first with
  | error error => cases h
  | ok a => exact ⟨a, rfl, h⟩

end DurableStore
