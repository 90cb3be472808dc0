/-
  DurableStore.Proofs.Value.Rebuild
  ────────────────────────────────
  **COLLECTIONS MADE AGAIN FROM THEIR LISTS.**

  Maps, sets and sorted sets are kept as ordered lists, and are written out
  as such.  Whoever reads them back inserts the items one after the other.
  Of items with one key the last one stays.  An item that comes after all
  that are there is put at the end, so the list is built up as it was.

  Main results:
    * `ByteMap.find?_ofList`, `ByteSet.contains_ofList`,
      `SortedSet.score?_ofList` — what the collection of any list holds;
    * `ByteMap.ofList_toList`, `ByteSet.ofList_members`,
      `SortedSet.ofList_toList` — a collection is the one of its list;
    * `Value.Sound` — the values that can be written out: their byte strings
      fit in memory, and their scores are numbers.
-/
import DurableStore.Value.Entry
import DurableStore.Proofs.Bytes.Decimal

namespace DurableStore

/-! ## §1. Maps and sets. -/

/-- What is looked up in a list has what all of its items and the fallback have. -/
theorem forall_getD {α : Type} {P : α → Prop} {items : List α} (h : ∀ a ∈ items, P a) (fallback : α)
    (hfallback : P fallback) (i : Nat) : P (items.getD i fallback) := by
  rw [List.getD_eq_getElem?_getD]
  cases hget : items[i]? with
  | none => exact hfallback
  | some a => exact h a (List.mem_of_getElem? hget)

namespace Assoc

variable {α : Type}

theorem find?_eq_none_of_not_mem {ps : List (Bytes × α)} {key : Bytes}
    (h : key ∉ ps.map Prod.fst) : find? key ps = none := by
  induction ps with
  | nil => rfl
  | cons p ps ih =>
    rw [List.map_cons, List.mem_cons, not_or] at h
    rw [find?_cons, if_neg h.1, ih h.2]

theorem find?_eq_none_of_lt {ps : List (Bytes × α)} {key : Bytes} (h : ∀ p ∈ ps, key < p.1) :
    find? key ps = none := by
  apply find?_eq_none_of_not_mem
  intro hmem
  obtain ⟨p, hp, rfl⟩ := List.mem_map.1 hmem
  exact List.lt_irrefl p.1 (h p hp)

/-- Among distinct keys every pair is found. -/
theorem find?_eq_some_iff_of_nodup {ps : List (Bytes × α)} (h : (ps.map Prod.fst).Nodup)
    {key : Bytes} {value : α} : find? key ps = some value ↔ (key, value) ∈ ps := by
  induction ps with
  | nil => simp [find?_nil]
  | cons p ps ih =>
    rw [List.map_cons, List.nodup_cons] at h
    rw [find?_cons, List.mem_cons, Prod.ext_iff]
    by_cases hkey : key = p.1
    · have hnot : (key, value) ∉ ps := fun hmem => h.1 (hkey ▸ List.mem_map_of_mem hmem)
      simp [hkey, eq_comm, hkey ▸ hnot]
    · simp [hkey, ih h.2]

theorem Sorted.nodup {ps : List (Bytes × α)} (h : Sorted ps) : (ps.map Prod.fst).Nodup := by
  unfold List.Nodup
  rw [List.pairwise_map]
  refine h.imp ?_
  intro p q hlt heq
  rw [heq] at hlt
  exact List.lt_irrefl q.1 hlt

theorem find?_append (key : Bytes) (ps qs : List (Bytes × α)) :
    find? key (ps ++ qs) = (find? key ps).or (find? key qs) := by
  induction ps with
  | nil => rfl
  | cons p ps ih =>
    rw [List.cons_append, find?_cons, find?_cons, ih]
    split <;> rfl

/-- Among sorted pairs the first of a key is the last of it. -/
theorem find?_reverse {ps : List (Bytes × α)} (h : Sorted ps) (key : Bytes) :
    find? key ps.reverse = find? key ps := by
  have hnodup : (ps.reverse.map Prod.fst).Nodup := by
    rw [List.map_reverse]
    exact List.pairwise_reverse.2 (h.nodup.imp Ne.symm)
  refine Option.ext fun value => ?_
  rw [find?_eq_some_iff_of_nodup hnodup, find?_eq_some_iff_of_nodup h.nodup, List.mem_reverse]

theorem find?_map {β : Type} (f : α → β) (key : Bytes) (ps : List (Bytes × α)) :
    find? key (ps.map fun p => (p.1, f p.2)) = (find? key ps).map f := by
  induction ps with
  | nil => rfl
  | cons p ps ih =>
    rw [List.map_cons, find?_cons, find?_cons, ih]
    split <;> rfl

theorem sorted_map {β : Type} (f : α → β) {ps : List (Bytes × α)} (h : Sorted ps) :
    Sorted (ps.map fun p => (p.1, f p.2)) :=
  List.pairwise_map.2 h

/-- Some of the pairs are left, and each key is there once. -/
theorem find?_filter (keep : α → Bool) {ps : List (Bytes × α)} (h : Sorted ps) (key : Bytes) :
    find? key (ps.filter fun p => keep p.2) = (find? key ps).filter keep := by
  induction ps with
  | nil => rfl
  | cons p ps ih =>
    have hlater : ∀ q ∈ ps.filter (fun p => keep p.2), p.1 < q.1 :=
      fun q hq => List.rel_of_pairwise_cons h (List.mem_filter.1 hq).1
    have htail := ih (List.Pairwise.of_cons h)
    rw [List.filter_cons, find?_cons]
    by_cases hkey : key = p.1
    · rw [if_pos hkey, Option.filter_some, hkey]
      split
      · rw [find?_cons, if_pos rfl]
      · rw [find?_eq_none_of_lt hlater]
    · rw [if_neg hkey, ← htail]
      split
      · rw [find?_cons, if_neg hkey]
      · rfl

end Assoc

namespace ByteMap

variable {α : Type}

/-- After pairs are inserted, a lookup finds the last of them first. -/
theorem find?_insertMany (m : ByteMap α) (ps : List (Bytes × α)) (k : Bytes) :
    (m.insertMany ps).find? k = (Assoc.find? k ps.reverse).or (m.find? k) := by
  induction ps generalizing m with
  | nil => rfl
  | cons p ps ih =>
    have htail := ih (m.insert p.1 p.2)
    rw [insertMany] at htail ⊢
    rw [List.foldl_cons, htail, find?_insert, List.reverse_cons, Assoc.find?_append,
      Option.or_assoc,
      Assoc.find?_cons]
    split <;> rfl

theorem find?_ofList (ps : List (Bytes × α)) (k : Bytes) :
    (ofList ps).find? k = Assoc.find? k ps.reverse := by
  rw [ofList, find?_insertMany, find?_empty, Option.or_none]

/-- **A map is the one of its list.** -/
theorem ofList_toList (m : ByteMap α) : ofList m.toList = m := by
  refine ByteMap.ext fun k => ?_
  rw [find?_ofList, Assoc.find?_reverse m.sorted]
  rfl

end ByteMap

namespace ByteSet

theorem addMany_eq (s : ByteSet) (members : List Bytes) :
    addMany s members = s.insertMany (members.map fun member => (member, ())) := by
  unfold addMany ByteMap.insertMany
  rw [List.foldl_map]
  rfl

/-- **A set is the one of its members.** -/
theorem ofList_members (s : ByteSet) : ofList s.members = s := by
  have hpairs : s.members.map (fun member => (member, ())) = s.toList := by
    unfold members ByteMap.keys
    rw [List.map_map]
    exact List.map_id s.toList
  rw [ofList, addMany_eq, hpairs]
  exact ByteMap.ofList_toList s

theorem contains_ofList (items : List Bytes) (member : Bytes) :
    (ofList items).contains member = true ↔ member ∈ items := by
  have hfound : ∀ members : List Bytes,
      (Assoc.find? member (members.map fun m => (m, ()))).isSome = true ↔ member ∈ members := by
    intro members
    induction members with
    | nil => simp [Assoc.find?_nil]
    | cons m members ih =>
      rw [List.map_cons, Assoc.find?_cons, List.mem_cons]
      split <;> simp_all
  rw [ByteMap.contains, ofList, addMany_eq, ← ByteMap.ofList, ByteMap.find?_ofList,
    ← List.map_reverse,
    hfound, List.mem_reverse]

end ByteSet

/-! ## §2. Sorted sets. -/

namespace Ranking

theorem place_last {item : Bytes × Score} {items : List (Bytes × Score)}
    (h : ∀ x ∈ items, Precedes x item) : place item items = items ++ [item] := by
  induction items with
  | nil => rfl
  | cons other rest ih =>
    obtain ⟨hother, hrest⟩ := List.forall_mem_cons.1 h
    have hnot : ¬ Precedes item other := fun hback => Precedes.irrefl _ (hother.trans hback)
    rw [place, if_neg hnot, ih hrest, List.cons_append]

theorem without_of_not_mem {member : Bytes} {items : List (Bytes × Score)}
    (h : ∀ x ∈ items, x.1 ≠ member) : without member items = items := by
  unfold without
  refine List.filter_eq_self.2 ?_
  intro x hx
  rw [decide_eq_true_iff, Ne, Bytes.order_eq_iff]
  exact h x hx

end Ranking

namespace SortedSet

theorem ext {y z : SortedSet} (h : y.toList = z.toList) : y = z := by
  cases y
  cases z
  cases h
  rfl

/-- After members are inserted, the last score of each counts. -/
theorem score?_insertMany (z : SortedSet) (items : List (Bytes × Score)) (member : Bytes) :
    (z.insertMany items).score? member
      = (Assoc.find? member items.reverse).or (z.score? member) := by
  induction items generalizing z with
  | nil => rfl
  | cons item items ih =>
    have htail := ih (z.insert item.1 item.2)
    rw [insertMany] at htail ⊢
    rw [List.foldl_cons, htail, score?_insert, List.reverse_cons, Assoc.find?_append,
      Option.or_assoc,
      Assoc.find?_cons]
    split <;> rfl

theorem score?_ofList (items : List (Bytes × Score)) (member : Bytes) :
    (ofList items).score? member = Assoc.find? member items.reverse := by
  rw [ofList, score?_insertMany]
  exact Option.or_none

/-- Items that come after all others, in order, are put at the end. -/
theorem toList_insertMany (z : SortedSet) {items : List (Bytes × Score)}
    (hsorted : (z.toList ++ items).Pairwise Ranking.Precedes)
    (hdistinct : ((z.toList ++ items).map Prod.fst).Nodup) :
    (z.insertMany items).toList = z.toList ++ items := by
  induction items generalizing z with
  | nil => exact (List.append_nil _).symm
  | cons item items ih =>
    have hbefore : ∀ x ∈ z.toList, Ranking.Precedes x item := by
      intro x hx
      exact (List.pairwise_append.1 hsorted).2.2 x hx item List.mem_cons_self
    have hnew : ∀ x ∈ z.toList, x.1 ≠ item.1 := by
      intro x hx
      rw [List.map_append] at hdistinct
      exact (List.nodup_append.1 hdistinct).2.2 x.1 (List.mem_map_of_mem hx) item.1
        (List.mem_map_of_mem List.mem_cons_self)
    have hone : (z.insert item.1 item.2).toList = z.toList ++ [item] := by
      show Ranking.place item (Ranking.without item.1 z.toList) = _
      rw [Ranking.without_of_not_mem hnew, Ranking.place_last hbefore]
    have hsplit : (z.insert item.1 item.2).toList ++ items = z.toList ++ item :: items := by
      rw [hone, List.append_assoc, List.singleton_append]
    rw [insertMany, List.foldl_cons]
    have htail := ih (z.insert item.1 item.2) (by rw [hsplit]; exact hsorted)
      (by rw [hsplit]; exact hdistinct)
    rw [insertMany, hsplit] at htail
    exact htail

/-- **A sorted set is the one of its list.** -/
theorem ofList_toList (z : SortedSet) : ofList z.toList = z := by
  refine ext ?_
  rw [ofList, toList_insertMany empty z.sorted z.distinct]
  rfl

end SortedSet

/-! ## §3. Values that can be written out. -/

namespace Value

/-- Every byte string in a value fits in memory, and every score is a number. -/
def Sound : Value → Prop
  | .string bytes => bytes.length < lengthBound
  | .list items => ∀ item ∈ items, item.length < lengthBound
  | .hash fields => ∀ p ∈ fields.toList, p.1.length < lengthBound ∧ p.2.length < lengthBound
  | .set members => ∀ member ∈ members.members, member.length < lengthBound
  | .sortedSet members => ∀ p ∈ members.toList, p.1.length < lengthBound ∧ p.2.isNaN = false

/-- Every score in a value is a number. -/
def Numeric : Value → Prop
  | .sortedSet members => ∀ p ∈ members.toList, p.2.isNaN = false
  | _ => True

/-- The byte strings in a value. -/
def strings : Value → List Bytes
  | .string bytes => [bytes]
  | .list items => items
  | .hash fields => fields.toList.flatMap fun p => [p.1, p.2]
  | .set members => members.members
  | .sortedSet members => members.toList.map Prod.fst

/-- A value of which memory holds all byte strings, and all scores are numbers. -/
theorem sound_of_numeric {v : Value} (h : v.Numeric)
    (hmemory : ∀ bytes ∈ v.strings, bytes.length < lengthBound) : v.Sound := by
  cases v with
  | string bytes => exact hmemory bytes (List.mem_singleton_self bytes)
  | list items => exact hmemory
  | hash fields =>
    intro p hp
    have hpair : ∀ bytes ∈ [p.1, p.2], bytes.length < lengthBound :=
      fun bytes hbytes => hmemory bytes (List.mem_flatMap.2 ⟨p, hp, hbytes⟩)
    exact ⟨hpair _ List.mem_cons_self, hpair _ (List.mem_cons_of_mem _ (List.mem_singleton_self _))⟩
  | set members => exact hmemory
  | sortedSet members => exact fun p hp => ⟨hmemory p.1 (List.mem_map_of_mem hp), h p hp⟩

theorem Sound.strings {v : Value} (h : v.Sound) :
    ∀ bytes ∈ v.strings, bytes.length < lengthBound := by
  intro bytes hbytes
  cases v with
  | string value =>
    rw [List.mem_singleton.1 hbytes]
    exact h
  | list items => exact h bytes hbytes
  | hash fields =>
    obtain ⟨p, hp, hpair⟩ := List.mem_flatMap.1 hbytes
    rcases List.mem_cons.1 hpair with rfl | hvalue
    · exact (h p hp).1
    · rw [List.mem_singleton.1 hvalue]
      exact (h p hp).2
  | set members => exact h bytes hbytes
  | sortedSet members =>
    obtain ⟨p, hp, rfl⟩ := List.mem_map.1 hbytes
    exact (h p hp).1

/-- The number of elements of a collection. -/
def count : Value → Nat
  | .string _ => 0
  | .list items => items.length
  | .hash fields => fields.size
  | .set members => members.size
  | .sortedSet members => members.size

end Value

end DurableStore
