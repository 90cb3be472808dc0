/-
  DurableStore.Proofs.Keyspace.Sampling
  ────────────────────────────────
  **SAMPLES OF A MAP THAT IS WALKED IN ANY ORDER.**

  A sample is the next few entries from a cursor on, and which these are
  depends on the order in which the map is gone through.  The store goes by
  the order of the keys; a hash map promises no order at all.  So the order
  is left open here: a `Walk` goes through a map and meets every entry once,
  and a sample is taken along two walks, one from the cursor to the end and
  one from the beginning again.

      first walk:   e₀ e₁ … | e_c … e_(n-1)      — from the cursor on
      second walk:  e₀ … e_(m-1)                 — what is still missing

  If a map that does not change is always walked the same way, its entries
  have fixed places, and a place that is not sampled has come nearer to the
  cursor by the size of the sample (`sampled_or_nearer`).  So no cursor, not
  even one past the end of a map that has shrunk, keeps a place from being
  sampled for longer than once around.

  Main results:
    * `sampleAlong_ne_nil` — a sample of a map with entries is not empty;
    * `mem_samplesAlong` — samples in a row meet every entry.
-/
import Mathlib.Tactic.SplitIfs
import DurableStore.Keyspace.Eviction

namespace DurableStore

/-! ## §1. Walks. -/

/-- A way to go through maps: every entry is met once, in some order. -/
structure Walk where
  /-- The entries in the order in which they are met. -/
  visit : ByteMap Entry → List (Bytes × Entry)
  perm : ∀ m, (visit m).Perm m.toList

namespace Walk

/-- In the order of the keys. -/
def inOrder : Walk := ⟨ByteMap.toList, fun _ => .refl _⟩

/-- Against the order of the keys. -/
def backwards : Walk := ⟨fun m => m.toList.reverse, fun m => m.toList.reverse_perm⟩

theorem mem_visit (walk : Walk) {m : ByteMap Entry} {p : Bytes × Entry} :
    p ∈ walk.visit m ↔ p ∈ m.toList := (walk.perm m).mem_iff

theorem length_visit (walk : Walk) (m : ByteMap Entry) : (walk.visit m).length = m.size :=
  (walk.perm m).length_eq

end Walk

/-- A map is walked the same way every time. -/
def SameOrder (walks : Nat → Walk) (m : ByteMap Entry) : Prop :=
  ∀ s t, (walks s).visit m = (walks t).visit m

/-! ## §2. Samples. -/

namespace Database

/-- A sample along two walks, and the database with its cursor moved. -/
def sampleAlong (first again : Walk) (db : Database) (size : Nat) :
    List (Bytes × Entry) × Database :=
  let sampled := ((first.visit db.entries).drop db.cursor).take size
  if sampled.length = size then
    (sampled, { db with cursor := db.cursor + size })
  else
    let missing := if 0 < db.cursor then size - sampled.length else 0
    (sampled ++ (again.visit db.entries).take missing, { db with cursor := missing })

/-- The store samples along the order of the keys. -/
theorem sample_eq_sampleAlong (db : Database) (size : Nat) :
    db.sample size = db.sampleAlong .inOrder .inOrder size := rfl

variable {first again : Walk} {db : Database} {size : Nat} {p : Bytes × Entry}

/-- A sample moves the cursor and nothing else. -/
theorem sampleAlong_snd :
    (db.sampleAlong first again size).2
      = { db with cursor := (db.sampleAlong first again size).2.cursor } := by
  unfold sampleAlong
  dsimp only
  split <;> rfl

theorem mem_of_mem_sampleAlong (h : p ∈ (db.sampleAlong first again size).1) :
    p ∈ db.entries.toList := by
  unfold sampleAlong at h
  dsimp only at h
  split at h
  · exact first.mem_visit.1 (List.mem_of_mem_drop (List.mem_of_mem_take h))
  · rcases List.mem_append.1 h with hfirst | hagain
    · exact first.mem_visit.1 (List.mem_of_mem_drop (List.mem_of_mem_take hfirst))
    · exact again.mem_visit.1 (List.mem_of_mem_take hagain)

/-- **A map with entries has no empty sample**, wherever the cursor is: either there is an
entry at the cursor, or the cursor is past the end and the sample begins again. -/
theorem sampleAlong_ne_nil (first again : Walk) (hsize : 0 < size)
    (hentries : db.entries.isEmpty = false) : (db.sampleAlong first again size).1 ≠ [] := by
  have hsome : 0 < db.entries.size := by
    unfold ByteMap.isEmpty at hentries
    unfold ByteMap.size
    exact List.length_pos_iff.2 fun hnil => by simp [hnil] at hentries
  have hfirst := first.length_visit db.entries
  have hagain := again.length_visit db.entries
  intro hnil
  have hlength := congrArg List.length hnil
  unfold sampleAlong at hlength
  dsimp only at hlength
  split at hlength
  · rename_i hfull
    simp only [hfull, List.length_nil] at hlength
    omega
  · simp only [List.length_append, List.length_take, List.length_drop, List.length_nil] at hlength
    split at hlength <;> omega

/-! ## §3. Going round. -/

/-- How far a place lies ahead of the cursor among `n` places, going round at the end.  A
cursor at the end or past it stands before the first place. -/
def ahead (cursor place n : Nat) : Nat :=
  if n ≤ cursor then place else if cursor ≤ place then place - cursor else place + n - cursor

theorem ahead_lt (cursor : Nat) {place n : Nat} (h : place < n) : ahead cursor place n < n := by
  unfold ahead
  split_ifs <;> omega

theorem mem_take_drop_of_getElem? {α : Type} {l : List α} {a : α} {place start count : Nat}
    (h : l[place]? = some a) (hfrom : start ≤ place) (hcount : place < start + count) :
    a ∈ (l.drop start).take count := by
  refine List.mem_of_getElem? (i := place - start) ?_
  rw [List.getElem?_take_of_lt (by omega), List.getElem?_drop, Nat.add_sub_cancel' hfrom]
  exact h

/-- **What is not sampled comes nearer.**  The entries of a map that is walked the same way
twice have fixed places.  A sample meets the places up to its size ahead, and the others are
then nearer to the cursor by its size. -/
theorem sampled_or_nearer (size : Nat) {l : List (Bytes × Entry)} {place : Nat}
    (hfirst : first.visit db.entries = l) (hagain : again.visit db.entries = l)
    (hplace : l[place]? = some p) :
    p ∈ (db.sampleAlong first again size).1
      ∨ size ≤ ahead db.cursor place l.length
        ∧ ahead (db.sampleAlong first again size).2.cursor place l.length
          = ahead db.cursor place l.length - size := by
  have hinside : place < l.length := (List.getElem?_eq_some_iff.1 hplace).1
  have hlength : ((l.drop db.cursor).take size).length = min size (l.length - db.cursor) := by
    rw [List.length_take, List.length_drop]
  unfold sampleAlong
  dsimp only
  rw [hfirst, hagain, hlength]
  split
  · -- the sample ends before the walk does
    by_cases hsampled : db.cursor ≤ place ∧ place < db.cursor + size
    · exact .inl (mem_take_drop_of_getElem? hplace hsampled.1 hsampled.2)
    · right
      unfold ahead
      dsimp only
      split_ifs <;> omega
  · rename_i hshort
    by_cases hbehind : db.cursor ≤ place
    · -- the sample takes all that is left of the walk
      exact .inl (List.mem_append_left _
        (mem_take_drop_of_getElem? hplace hbehind (by omega)))
    · have hcursor : 0 < db.cursor := by omega
      rw [if_pos hcursor]
      by_cases hwrapped : place < size - min size (l.length - db.cursor)
      · exact .inl (List.mem_append_right _
          (mem_take_drop_of_getElem? hplace (Nat.zero_le _) (by omega)))
      · right
        unfold ahead
        dsimp only
        split_ifs <;> omega

/-! ## §4. Samples in a row. -/

/-- All that the store samples in so many samples in a row. -/
def samples (size : Nat) : Nat → Database → List (Bytes × Entry)
  | 0, _ => []
  | calls + 1, db => (db.sample size).1 ++ samples size calls (db.sample size).2

/-- All that is sampled in so many samples in a row, each along walks of its own. -/
def samplesAlong (walks : Nat → Walk) (size : Nat) : Nat → Database → List (Bytes × Entry)
  | 0, _ => []
  | calls + 1, db =>
    let sampled := db.sampleAlong (walks (2 * calls)) (walks (2 * calls + 1)) size
    sampled.1 ++ samplesAlong walks size calls sampled.2

/-- The store's samples in a row are along the order of the keys. -/
theorem samples_eq_samplesAlong (db : Database) (size calls : Nat) :
    db.samples size calls = db.samplesAlong (fun _ => .inOrder) size calls := by
  induction calls generalizing db with
  | zero => rfl
  | succ calls ih =>
    rw [samples, samplesAlong, sample_eq_sampleAlong]
    exact congrArg (_ ++ ·) (ih _)

/-- What is ahead by less than all samples together is sampled, by induction on their number:
it is in the first of them, or nearer for the others. -/
theorem mem_samplesAlong_of_ahead {walks : Nat → Walk} {l : List (Bytes × Entry)}
    {place calls : Nat} (hwalks : ∀ t, (walks t).visit db.entries = l) (hplace : l[place]? = some p)
    (hnear : ahead db.cursor place l.length < calls * size) :
    p ∈ db.samplesAlong walks size calls := by
  induction calls generalizing db with
  | zero => omega
  | succ calls ih =>
    rw [samplesAlong]
    rcases sampled_or_nearer size (hwalks (2 * calls)) (hwalks (2 * calls + 1)) hplace with
      hsampled | ⟨hle, hnearer⟩
    · exact List.mem_append_left _ hsampled
    · have hentries : (db.sampleAlong (walks (2 * calls)) (walks (2 * calls + 1)) size).2.entries
          = db.entries := by rw [sampleAlong_snd]
      refine List.mem_append_right _ (ih ?_ ?_)
      · rw [hentries]
        exact hwalks
      · rw [hnearer]
        rw [Nat.succ_mul] at hnear
        omega

/-- **Enough samples in a row meet every entry**, wherever the cursor is at first. -/
theorem mem_samplesAlong {walks : Nat → Walk} {calls : Nat} (hsteady : SameOrder walks db.entries)
    (hcalls : db.entries.size ≤ calls * size) (hp : p ∈ db.entries.toList) :
    p ∈ db.samplesAlong walks size calls := by
  obtain ⟨place, hplace⟩ := List.mem_iff_getElem?.1 ((walks 0).mem_visit.2 hp)
  have hinside := ahead_lt db.cursor (List.getElem?_eq_some_iff.1 hplace).1
  refine mem_samplesAlong_of_ahead (fun t => hsteady t 0) hplace ?_
  rw [(walks 0).length_visit] at hinside ⊢
  omega

end Database

end DurableStore
