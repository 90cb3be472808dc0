/-
  DurableStore.Bytes.Map
  ────────────────────────────────
  **FINITE MAPS KEYED BY BYTE STRINGS.**

  A `ByteMap` is a list of key–value pairs in strictly increasing key
  order, and the order is part of the type.  So a map has one form only:
  two maps that answer every lookup alike are equal, and listing a map
  lists its keys in order.

  Main results:
    * `find?_insert`, `find?_erase` — what each update does to a lookup;
    * `ByteMap.ext` — maps with equal lookups are equal.
-/
import DurableStore.Bytes.Basic

namespace DurableStore

/-! ## §1. The list operations. -/

namespace Assoc

variable {α : Type}

/-- The keys increase strictly along the list. -/
def Sorted (ps : List (Bytes × α)) : Prop := ps.Pairwise fun a b => a.1 < b.1

/-- The value under a key. -/
def find? (key : Bytes) : List (Bytes × α) → Option α
  | [] => none
  | (k, v) :: rest =>
    match Bytes.order key k with
    | .eq => some v
    | _ => find? key rest

/-- Puts a pair at its place, replacing the pair of the same key. -/
def insert (key : Bytes) (value : α) : List (Bytes × α) → List (Bytes × α)
  | [] => [(key, value)]
  | (k, v) :: rest =>
    match Bytes.order key k with
    | .lt => (key, value) :: (k, v) :: rest
    | .eq => (key, value) :: rest
    | .gt => (k, v) :: insert key value rest

/-- Drops the pair of a key. -/
def erase (key : Bytes) (ps : List (Bytes × α)) : List (Bytes × α) :=
  ps.filter fun p => Bytes.order p.1 key ≠ .eq

theorem find?_nil (key : Bytes) : find? key ([] : List (Bytes × α)) = none := rfl

theorem find?_cons (key k : Bytes) (v : α) (rest : List (Bytes × α)) :
    find? key ((k, v) :: rest) = if key = k then some v else find? key rest := by
  simp only [find?]
  split
  · rename_i h
    simp [(Bytes.order_eq_iff key k).1 h]
  · rename_i h
    simp [mt (Bytes.order_eq_iff key k).2 h]

theorem insert_cons (key k : Bytes) (value v : α) (rest : List (Bytes × α)) :
    insert key value ((k, v) :: rest) =
      if key < k then (key, value) :: (k, v) :: rest
      else if key = k then (key, value) :: rest
      else (k, v) :: insert key value rest := by
  simp only [insert]
  split
  · rename_i h
    simp [(Bytes.order_lt_iff key k).1 h]
  · rename_i h
    have hk := (Bytes.order_eq_iff key k).1 h
    simp [hk, List.lt_irrefl]
  · rename_i h
    have hlt : ¬ key < k := fun hk => by simp [(Bytes.order_lt_iff key k).2 hk] at h
    have hne : key ≠ k := fun hk => by simp [(Bytes.order_eq_iff key k).2 hk] at h
    simp [hlt, hne]

theorem mem_insert {key : Bytes} {value : α} {ps : List (Bytes × α)} {p : Bytes × α}
    (h : p ∈ insert key value ps) : p = (key, value) ∨ p ∈ ps := by
  induction ps with
  | nil => simpa [insert] using h
  | cons q rest ih =>
    obtain ⟨k, v⟩ := q
    rw [insert_cons] at h
    split at h
    · simpa using h
    · split at h
      · rcases List.mem_cons.1 h with h | h
        · exact .inl h
        · exact .inr (List.mem_cons_of_mem _ h)
      · rcases List.mem_cons.1 h with h | h
        · exact .inr (h ▸ List.mem_cons_self)
        · rcases ih h with h | h
          · exact .inl h
          · exact .inr (List.mem_cons_of_mem _ h)

theorem sorted_insert {key : Bytes} {value : α} {ps : List (Bytes × α)}
    (h : Sorted ps) : Sorted (insert key value ps) := by
  induction ps with
  | nil => simp [insert, Sorted]
  | cons q rest ih =>
    obtain ⟨k, v⟩ := q
    have hrest : Sorted rest := List.Pairwise.of_cons h
    have hk : ∀ p ∈ rest, k < p.1 := fun p hp => List.rel_of_pairwise_cons h hp
    rw [insert_cons]
    split
    · rename_i hlt
      refine List.pairwise_cons.2 ⟨?_, h⟩
      intro p hp
      rcases List.mem_cons.1 hp with hp | hp
      · exact hp ▸ hlt
      · exact List.lt_trans hlt (hk p hp)
    · rename_i hnlt
      split
      · rename_i heq
        exact List.pairwise_cons.2 ⟨fun p hp => heq ▸ hk p hp, hrest⟩
      · rename_i hne
        refine List.pairwise_cons.2 ⟨?_, ih hrest⟩
        intro p hp
        rcases mem_insert hp with hp | hp
        · subst hp
          exact Decidable.byContradiction fun hle =>
            hne (List.le_antisymm hle hnlt)
        · exact hk p hp

theorem sorted_erase {key : Bytes} {ps : List (Bytes × α)} (h : Sorted ps) :
    Sorted (erase key ps) :=
  List.Pairwise.filter _ h

theorem find?_insert (key k : Bytes) (value : α) (ps : List (Bytes × α)) :
    find? k (insert key value ps) = if k = key then some value else find? k ps := by
  induction ps with
  | nil => simp [insert, find?_cons, find?_nil]
  | cons q rest ih =>
    obtain ⟨k', v⟩ := q
    rw [insert_cons]
    split
    · rw [find?_cons]
    · split
      · rename_i heq
        subst heq
        rw [find?_cons, find?_cons]
        split <;> rfl
      · rename_i hne
        rw [find?_cons, find?_cons, ih]
        by_cases hk : k = k'
        · subst hk
          simp [Ne.symm hne]
        · simp [hk]

theorem find?_erase (key k : Bytes) (ps : List (Bytes × α)) :
    find? k (erase key ps) = if k = key then none else find? k ps := by
  induction ps with
  | nil => simp [erase, find?_nil]
  | cons q rest ih =>
    obtain ⟨k', v⟩ := q
    by_cases hk' : k' = key
    · subst hk'
      have : erase k' ((k', v) :: rest) = erase k' rest := by simp [erase]
      rw [this, ih]
      by_cases hk : k = k' <;> simp [find?_cons, hk]
    · have : erase key ((k', v) :: rest) = (k', v) :: erase key rest := by
        simp [erase, hk']
      rw [this, find?_cons, find?_cons, ih]
      by_cases hk : k = k'
      · subst hk
        simp [hk']
      · simp [hk]

theorem find?_eq_some_iff {ps : List (Bytes × α)} (h : Sorted ps) {k : Bytes} {v : α} :
    find? k ps = some v ↔ (k, v) ∈ ps := by
  induction ps with
  | nil => simp [find?_nil]
  | cons q rest ih =>
    obtain ⟨k', v'⟩ := q
    have hrest : Sorted rest := List.Pairwise.of_cons h
    have hk : ∀ p ∈ rest, k' < p.1 := fun p hp => List.rel_of_pairwise_cons h hp
    simp only [find?_cons, List.mem_cons, Prod.mk.injEq]
    by_cases hkk : k = k'
    · subst hkk
      have : (k, v) ∉ rest := fun hm => List.lt_irrefl k (hk _ hm)
      simp [this, eq_comm]
    · simp [hkk, ih hrest]

theorem eq_of_find?_eq {ps qs : List (Bytes × α)} (hp : Sorted ps) (hq : Sorted qs)
    (h : ∀ k, find? k ps = find? k qs) : ps = qs := by
  induction ps generalizing qs with
  | nil =>
    cases qs with
    | nil => rfl
    | cons q _ =>
      obtain ⟨k, v⟩ := q
      simpa [find?_cons, find?_nil] using h k
  | cons p ps ih =>
    obtain ⟨k, v⟩ := p
    cases qs with
    | nil => simpa [find?_cons, find?_nil] using h k
    | cons q qs =>
      obtain ⟨k', v'⟩ := q
      have hps : ∀ r ∈ ps, k < r.1 := fun r hr => List.rel_of_pairwise_cons hp hr
      have hqs : ∀ r ∈ qs, k' < r.1 := fun r hr => List.rel_of_pairwise_cons hq hr
      have hmem : (k, v) ∈ (k', v') :: qs :=
        (find?_eq_some_iff hq).1 (by simpa [find?_cons] using (h k).symm)
      have hmem' : (k', v') ∈ (k, v) :: ps :=
        (find?_eq_some_iff hp).1 (by simpa [find?_cons] using h k')
      have hhead : k = k' ∧ v = v' := by
        rcases List.mem_cons.1 hmem with hm | hm
        · exact Prod.mk.inj hm
        · rcases List.mem_cons.1 hmem' with hm' | hm'
          · exact ⟨(Prod.mk.inj hm').1.symm, (Prod.mk.inj hm').2.symm⟩
          · exact absurd (List.lt_trans (hqs _ hm) (hps _ hm')) (List.lt_irrefl _)
      obtain ⟨rfl, rfl⟩ := hhead
      have htail : ps = qs := by
        refine ih (List.Pairwise.of_cons hp) (List.Pairwise.of_cons hq) fun j => ?_
        by_cases hj : j = k
        · subst hj
          have hnone : ∀ {rs : List (Bytes × α)}, Sorted rs → (∀ r ∈ rs, j < r.1) →
              find? j rs = none := by
            intro rs hs hr
            cases hf : find? j rs with
            | none => rfl
            | some w =>
              exact absurd (hr _ ((find?_eq_some_iff hs).1 hf)) (List.lt_irrefl _)
          rw [hnone (List.Pairwise.of_cons hp) hps, hnone (List.Pairwise.of_cons hq) hqs]
        · simpa [find?_cons, hj] using h j
      rw [htail]

end Assoc

/-! ## §2. The map type. -/

/-- A finite map from byte strings, held in key order. -/
structure ByteMap (α : Type) where
  /-- The pairs, keys strictly increasing. -/
  toList : List (Bytes × α)
  sorted : Assoc.Sorted toList

namespace ByteMap

variable {α : Type}

instance [DecidableEq α] : DecidableEq (ByteMap α) := fun m n =>
  if h : m.toList = n.toList then
    .isTrue (by cases m; cases n; simp_all)
  else
    .isFalse (by intro e; exact h (e ▸ rfl))

/-- The map without any key. -/
def empty : ByteMap α := ⟨[], List.Pairwise.nil⟩

instance : Inhabited (ByteMap α) := ⟨empty⟩

/-- The value under a key. -/
def find? (m : ByteMap α) (key : Bytes) : Option α := Assoc.find? key m.toList

/-- Whether a key is present. -/
def contains (m : ByteMap α) (key : Bytes) : Bool := (m.find? key).isSome

/-- The map with one pair added or replaced. -/
def insert (m : ByteMap α) (key : Bytes) (value : α) : ByteMap α :=
  ⟨Assoc.insert key value m.toList, Assoc.sorted_insert m.sorted⟩

/-- The map without a key. -/
def erase (m : ByteMap α) (key : Bytes) : ByteMap α :=
  ⟨Assoc.erase key m.toList, Assoc.sorted_erase m.sorted⟩

/-- Inserts pairs one after the other: of equal keys the last one stays. -/
def insertMany (m : ByteMap α) (ps : List (Bytes × α)) : ByteMap α :=
  ps.foldl (fun m p => m.insert p.1 p.2) m

/-- The map of a list of pairs; of equal keys the last one stays. -/
def ofList (ps : List (Bytes × α)) : ByteMap α := empty.insertMany ps

/-- The number of keys. -/
def size (m : ByteMap α) : Nat := m.toList.length

/-- Whether there is no key. -/
def isEmpty (m : ByteMap α) : Bool := m.toList.isEmpty

/-- The keys in order. -/
def keys (m : ByteMap α) : List Bytes := m.toList.map Prod.fst

@[simp] theorem find?_empty (k : Bytes) : (empty : ByteMap α).find? k = none := rfl

@[simp] theorem find?_insert (m : ByteMap α) (key k : Bytes) (value : α) :
    (m.insert key value).find? k = if k = key then some value else m.find? k :=
  Assoc.find?_insert key k value m.toList

@[simp] theorem find?_erase (m : ByteMap α) (key k : Bytes) :
    (m.erase key).find? k = if k = key then none else m.find? k :=
  Assoc.find?_erase key k m.toList

theorem find?_eq_some_iff (m : ByteMap α) {k : Bytes} {v : α} :
    m.find? k = some v ↔ (k, v) ∈ m.toList :=
  Assoc.find?_eq_some_iff m.sorted

/-- A map is what its lookups answer. -/
theorem ext {m n : ByteMap α} (h : ∀ k, m.find? k = n.find? k) : m = n := by
  have : m.toList = n.toList := Assoc.eq_of_find?_eq m.sorted n.sorted h
  cases m
  cases n
  simp_all

end ByteMap

/-! ## §3. Sets of byte strings. -/

/-- A finite set of byte strings: a map that stores nothing with its keys. -/
abbrev ByteSet := ByteMap Unit

namespace ByteSet

/-- The set with one more member. -/
def add (s : ByteSet) (member : Bytes) : ByteSet := ByteMap.insert s member ()

/-- The set with further members. -/
def addMany (s : ByteSet) (members : List Bytes) : ByteSet := members.foldl add s

/-- The set of the members of a list. -/
def ofList (members : List Bytes) : ByteSet := addMany ByteMap.empty members

/-- The members in order. -/
def members (s : ByteSet) : List Bytes := ByteMap.keys s

end ByteSet

end DurableStore
