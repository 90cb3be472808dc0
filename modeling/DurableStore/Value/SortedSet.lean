/-
  DurableStore.Value.SortedSet
  ────────────────────────────────
  **SORTED SETS.**

  A sorted set gives each of its members one score and lists them by score,
  members of one score by their bytes.  It is held as that list: strictly
  increasing in (score, member), no member twice.  Giving a member a new
  score therefore takes it out of its old place first.

  Main results:
    * `score?_insert`, `score?_remove` — the set as a map from member to
      score;
    * the list stays in order and without repetition, by its type.
-/
import DurableStore.Score.Basic
import DurableStore.Bytes.Map

namespace DurableStore

namespace Ranking

/-! ## §1. The order of members with scores. -/

/-- Lower score first, and members of equal score by their bytes. -/
def Precedes (a b : Bytes × Score) : Prop :=
  a.2.rank < b.2.rank ∨ (a.2.rank = b.2.rank ∧ a.1 < b.1)

instance (a b : Bytes × Score) : Decidable (Precedes a b) :=
  inferInstanceAs (Decidable (_ ∨ _))

theorem Precedes.trans {a b c : Bytes × Score} (hab : Precedes a b) (hbc : Precedes b c) :
    Precedes a c := by
  rcases hab with hab | ⟨hab, hlt⟩ <;> rcases hbc with hbc | ⟨hbc, hlt'⟩
  · exact .inl (Nat.lt_trans hab hbc)
  · exact .inl (hbc ▸ hab)
  · exact .inl (hab ▸ hbc)
  · exact .inr ⟨hab.trans hbc, List.lt_trans hlt hlt'⟩

theorem Precedes.irrefl (a : Bytes × Score) : ¬ Precedes a a := by
  rintro (h | ⟨-, h⟩)
  · exact Nat.lt_irrefl _ h
  · exact List.lt_irrefl _ h

/-- Of two different members one precedes the other. -/
theorem precedes_of_not_precedes {a b : Bytes × Score} (hne : a.1 ≠ b.1)
    (h : ¬ Precedes a b) : Precedes b a := by
  simp only [Precedes, not_or, not_and] at h
  rcases Nat.lt_trichotomy a.2.rank b.2.rank with hr | hr | hr
  · exact absurd hr h.1
  · refine .inr ⟨hr.symm, Decidable.byContradiction fun hle => hne ?_⟩
    exact List.le_antisymm hle (h.2 hr)
  · exact .inl hr

/-! ## §2. The list operations. -/

/-- The score of a member. -/
def score? (member : Bytes) : List (Bytes × Score) → Option Score
  | [] => none
  | (m, s) :: rest => if member = m then some s else score? member rest

/-- Puts an item before the first one that it precedes. -/
def place (item : Bytes × Score) : List (Bytes × Score) → List (Bytes × Score)
  | [] => [item]
  | other :: rest =>
    if Precedes item other then item :: other :: rest else other :: place item rest

/-- Takes a member out. -/
def without (member : Bytes) (items : List (Bytes × Score)) : List (Bytes × Score) :=
  items.filter fun item => Bytes.order item.1 member ≠ .eq

theorem mem_place {item x : Bytes × Score} {items : List (Bytes × Score)} :
    x ∈ place item items ↔ x = item ∨ x ∈ items := by
  induction items with
  | nil => simp [place]
  | cons other rest ih =>
    simp only [place]
    split
    · simp
    · simp only [List.mem_cons, ih]
      grind

theorem not_mem_without (member : Bytes) (s : Score) (items : List (Bytes × Score)) :
    (member, s) ∉ without member items := by
  simp [without]

theorem pairwise_place {item : Bytes × Score} {items : List (Bytes × Score)}
    (h : items.Pairwise Precedes) (hne : ∀ x ∈ items, item.1 ≠ x.1) :
    (place item items).Pairwise Precedes := by
  induction items with
  | nil => simp [place]
  | cons other rest ih =>
    have hother : ∀ x ∈ rest, Precedes other x := fun x hx => List.rel_of_pairwise_cons h hx
    simp only [place]
    split
    · rename_i hp
      refine List.pairwise_cons.2 ⟨fun x hx => ?_, h⟩
      rcases List.mem_cons.1 hx with hx | hx
      · exact hx ▸ hp
      · exact hp.trans (hother x hx)
    · rename_i hp
      refine List.pairwise_cons.2
        ⟨fun x hx => ?_, ih (List.Pairwise.of_cons h)
          fun x hx => hne x (List.mem_cons_of_mem _ hx)⟩
      rcases mem_place.1 hx with hx | hx
      · exact hx ▸ precedes_of_not_precedes (hne other List.mem_cons_self) hp
      · exact hother x hx

theorem nodup_place {item : Bytes × Score} {items : List (Bytes × Score)}
    (h : (items.map Prod.fst).Nodup) (hne : ∀ x ∈ items, item.1 ≠ x.1) :
    ((place item items).map Prod.fst).Nodup := by
  induction items with
  | nil => simp [place]
  | cons other rest ih =>
    simp only [place]
    split
    · refine List.nodup_cons.2 ⟨?_, h⟩
      intro hm
      obtain ⟨x, hx, he⟩ := List.mem_map.1 hm
      exact hne x hx he.symm
    · simp only [List.map_cons, List.nodup_cons] at h ⊢
      refine ⟨?_, ih h.2 fun x hx => hne x (List.mem_cons_of_mem _ hx)⟩
      intro hm
      obtain ⟨x, hx, he⟩ := List.mem_map.1 hm
      rcases mem_place.1 hx with hx | hx
      · exact hne other List.mem_cons_self (hx ▸ he)
      · exact h.1 (List.mem_map.2 ⟨x, hx, he⟩)

theorem nodup_without {member : Bytes} {items : List (Bytes × Score)}
    (h : (items.map Prod.fst).Nodup) : ((without member items).map Prod.fst).Nodup :=
  h.sublist (List.filter_sublist.map _)

theorem score?_place (item : Bytes × Score) {items : List (Bytes × Score)}
    (hne : ∀ x ∈ items, item.1 ≠ x.1) (member : Bytes) :
    score? member (place item items) =
      if member = item.1 then some item.2 else score? member items := by
  induction items with
  | nil => simp [place, score?]
  | cons other rest ih =>
    have hrest := ih fun x hx => hne x (List.mem_cons_of_mem _ hx)
    have hother := hne other List.mem_cons_self
    simp only [place]
    split
    · simp [score?]
    · simp only [score?, hrest]
      by_cases hm : member = other.1
      · subst hm
        simp [Ne.symm hother]
      · simp [hm]

theorem score?_without (gone member : Bytes) (items : List (Bytes × Score)) :
    score? member (without gone items) =
      if member = gone then none else score? member items := by
  induction items with
  | nil => simp [without, score?]
  | cons other rest ih =>
    by_cases hg : other.1 = gone
    · have : without gone (other :: rest) = without gone rest := by simp [without, hg]
      rw [this, ih]
      subst hg
      by_cases hm : member = other.1 <;> simp [score?, hm]
    · have : without gone (other :: rest) = other :: without gone rest := by
        simp [without, hg]
      rw [this, score?, score?, ih]
      by_cases hm : member = other.1
      · subst hm
        simp [hg]
      · simp [hm]

end Ranking

/-! ## §3. The type. -/

/-- Members with scores, listed by score and then by member. -/
structure SortedSet where
  /-- Each member with its score, in order. -/
  toList : List (Bytes × Score)
  sorted : toList.Pairwise Ranking.Precedes
  distinct : (toList.map Prod.fst).Nodup

namespace SortedSet

instance : DecidableEq SortedSet := fun a b =>
  if h : a.toList = b.toList then
    .isTrue (by cases a; cases b; simp_all)
  else
    .isFalse (by intro e; exact h (e ▸ rfl))

/-- The set without members. -/
def empty : SortedSet := ⟨[], List.Pairwise.nil, List.nodup_nil⟩

instance : Inhabited SortedSet := ⟨empty⟩

/-- The score of a member. -/
def score? (z : SortedSet) (member : Bytes) : Option Score := Ranking.score? member z.toList

/-- The set without a member. -/
def remove (z : SortedSet) (member : Bytes) : SortedSet :=
  ⟨Ranking.without member z.toList, z.sorted.filter _, Ranking.nodup_without z.distinct⟩

theorem ne_of_mem_remove (z : SortedSet) (member : Bytes) :
    ∀ x ∈ (z.remove member).toList, member ≠ x.1 := by
  rintro ⟨m, s⟩ hx rfl
  exact Ranking.not_mem_without _ _ _ hx

/-- The set in which a member has the given score. -/
def insert (z : SortedSet) (member : Bytes) (score : Score) : SortedSet :=
  let rest := z.remove member
  ⟨Ranking.place (member, score) rest.toList,
    Ranking.pairwise_place rest.sorted (z.ne_of_mem_remove member),
    Ranking.nodup_place rest.distinct (z.ne_of_mem_remove member)⟩

/-- Gives a member a score; true if the member is new. -/
def assign (z : SortedSet) (member : Bytes) (score : Score) : Bool × SortedSet :=
  ((z.score? member).isNone, z.insert member score)

/-- Takes a member out, and tells the score that it had. -/
def take (z : SortedSet) (member : Bytes) : Option Score × SortedSet :=
  (z.score? member, z.remove member)

/-- Inserts one after the other: of equal members the last score stays. -/
def insertMany (z : SortedSet) (items : List (Bytes × Score)) : SortedSet :=
  items.foldl (fun z item => z.insert item.1 item.2) z

/-- The set of a list of members with scores. -/
def ofList (items : List (Bytes × Score)) : SortedSet := empty.insertMany items

/-- The number of members. -/
def size (z : SortedSet) : Nat := z.toList.length

/-- Whether there is no member. -/
def isEmpty (z : SortedSet) : Bool := z.toList.isEmpty

@[simp] theorem score?_insert (z : SortedSet) (member m : Bytes) (s : Score) :
    (z.insert member s).score? m = if m = member then some s else z.score? m := by
  have h := Ranking.score?_place (member, s) (z.ne_of_mem_remove member) m
  simp only [insert, score?] at h ⊢
  rw [h, remove, Ranking.score?_without]
  by_cases hm : m = member <;> simp [hm]

@[simp] theorem score?_remove (z : SortedSet) (member m : Bytes) :
    (z.remove member).score? m = if m = member then none else z.score? m :=
  Ranking.score?_without member m z.toList

end SortedSet

end DurableStore
