/-
  DurableStore.Proofs.Value.SortedSet
  ────────────────────────────────
  **A SORTED SET IS A MAP IN ORDER.**

  Members are given scores and taken out again, in any order.  What counts
  is the score that each of them was given last:

      lastScore? m changes   — the last change that names `m`, and no other

  Three ways to keep the books agree on every answer and on what is there in
  the end: the sorted set, which is one list; a map from members to scores;
  and a map with an INDEX of its pairs beside it, which is told of every
  change in so many words,

      scores:  fig ↦ 10               index:  (apple, 2) (pear, 2) (fig, 10)

  and takes a pair out by looking for it under its score.  It never keeps a
  pair that the map has given up, since the map knows the score under which
  the pair stands, down to the sign of a zero.

  Main results:
    * `SortedSet.ext_score?` — sorted sets of the same scores are equal;
    * `Indexed.Keeps.change` — map and index stay together;
    * `changes_faithful` — all answers and the whole content, after any changes.
-/
import DurableStore.Proofs.Value.Rebuild

namespace DurableStore

/-! ## §1. What a sorted set holds. -/

theorem Ranking.score?_eq_find? (member : Bytes) (items : List (Bytes × Score)) :
    score? member items = Assoc.find? member items := by
  induction items with
  | nil => rfl
  | cons item items ih => rw [Assoc.find?_cons, ← ih, score?]

namespace SortedSet

theorem mem_toList_iff {z : SortedSet} {member : Bytes} {score : Score} :
    (member, score) ∈ z.toList ↔ z.score? member = some score := by
  unfold score?
  rw [Ranking.score?_eq_find?]
  exact (Assoc.find?_eq_some_iff_of_nodup z.distinct).symm

theorem nodup_toList (z : SortedSet) : z.toList.Nodup := by
  refine z.sorted.imp ?_
  rintro a _ hprecedes rfl
  exact Ranking.Precedes.irrefl a hprecedes

/-- A member is not listed without its score. -/
theorem ne_of_score?_eq_none {z : SortedSet} {member : Bytes} (h : z.score? member = none) :
    ∀ x ∈ z.toList, x.1 ≠ member := by
  rintro ⟨m, s⟩ hx rfl
  rw [mem_toList_iff.1 hx] at h
  cases h

/-- **Sorted sets of the same scores are equal**: they list the same pairs, and there is one
order for them. -/
theorem ext_score? {y z : SortedSet} (h : ∀ member, y.score? member = z.score? member) : y = z := by
  refine ext (List.Perm.eq_of_pairwise (fun a b _ _ hab hba => ?_) y.sorted z.sorted ?_)
  · exact absurd (hab.trans hba) (Ranking.Precedes.irrefl a)
  · refine (List.perm_ext_iff_of_nodup y.nodup_toList z.nodup_toList).2 ?_
    rintro ⟨member, score⟩
    rw [mem_toList_iff, mem_toList_iff, h]

/-- A sorted set lists the pairs of the map with the same scores. -/
theorem toList_perm {z : SortedSet} {scores : ByteMap Score}
    (h : ∀ member, z.score? member = scores.find? member) : z.toList.Perm scores.toList := by
  have hnodup : scores.toList.Nodup := by
    refine scores.sorted.imp ?_
    rintro a _ hlt rfl
    exact List.lt_irrefl a.1 hlt
  refine (List.perm_ext_iff_of_nodup z.nodup_toList hnodup).2 ?_
  rintro ⟨member, score⟩
  rw [mem_toList_iff, h, ByteMap.find?_eq_some_iff]

/-! ## §2. Changes. -/

/-- A change of what members score. -/
inductive Change where
  | assign (member : Bytes) (score : Score)
  | take (member : Bytes)
  deriving DecidableEq, Repr

/-- What is answered to a change. -/
inductive Answer where
  | assigned (isNew : Bool)
  | taken (score : Option Score)
  deriving DecidableEq, Repr

namespace Change

/-- The member that a change names. -/
def member : Change → Bytes
  | .assign member _ => member
  | .take member => member

/-- The score that the member has after a change. -/
def score? : Change → Option Score
  | .assign _ score => some score
  | .take _ => none

end Change

/-- The score that a member was given last, unless it was taken out after that. -/
def lastScore? (member : Bytes) (changes : List Change) : Option Score :=
  (changes.reverse.find? fun change => change.member = member).bind Change.score?

/-- The answers to changes that are made one after the other, and what is there in the end. -/
def runWith {σ : Type} (step : σ → Change → Answer × σ) (s : σ) : List Change → List Answer × σ
  | [] => ([], s)
  | change :: rest =>
    let (answer, s) := step s change
    let (answers, s) := runWith step s rest
    (answer :: answers, s)

/-- What answers every change alike and stays alike answers all changes alike. -/
theorem runWith_congr {σ τ : Type} {step : σ → Change → Answer × σ}
    {step' : τ → Change → Answer × τ} {R : σ → τ → Prop}
    (hstep : ∀ {s t}, R s t → ∀ change,
      (step s change).1 = (step' t change).1 ∧ R (step s change).2 (step' t change).2)
    {s : σ} {t : τ} (h : R s t) (changes : List Change) :
    (runWith step s changes).1 = (runWith step' t changes).1
      ∧ R (runWith step s changes).2 (runWith step' t changes).2 := by
  induction changes generalizing s t with
  | nil => exact ⟨rfl, h⟩
  | cons change rest ih =>
    obtain ⟨hanswer, hnext⟩ := hstep h change
    obtain ⟨hanswers, hend⟩ := ih hnext
    exact ⟨List.cons_eq_cons.2 ⟨hanswer, hanswers⟩, hend⟩

/-! ## §3. Three ways to keep the books. -/

/-- A change of a sorted set. -/
def change (z : SortedSet) : Change → Answer × SortedSet
  | .assign member score =>
    let (isNew, z) := z.assign member score
    (.assigned isNew, z)
  | .take member =>
    let (score, z) := z.take member
    (.taken score, z)

/-- A change of a map. -/
def changeMap (scores : ByteMap Score) : Change → Answer × ByteMap Score
  | .assign member score => (.assigned (scores.find? member).isNone, scores.insert member score)
  | .take member => (.taken (scores.find? member), scores.erase member)

end SortedSet

namespace Ranking

/-- Puts an item into an index, unless it is there: to the index two items are one if neither
precedes the other. -/
def enter (item : Bytes × Score) : List (Bytes × Score) → List (Bytes × Score)
  | [] => [item]
  | other :: rest =>
    if Precedes item other then item :: other :: rest
    else if Precedes other item then other :: enter item rest
    else other :: rest

/-- Takes an item out of an index. -/
def strike (item : Bytes × Score) (index : List (Bytes × Score)) : List (Bytes × Score) :=
  index.filter fun other => Precedes item other ∨ Precedes other item

/-- A new member is put where a list in order has it. -/
theorem enter_of_new {item : Bytes × Score} {index : List (Bytes × Score)}
    (hne : ∀ x ∈ index, item.1 ≠ x.1) : enter item index = place item index := by
  induction index with
  | nil => rfl
  | cons other rest ih =>
    obtain ⟨hother, hrest⟩ := List.forall_mem_cons.1 hne
    unfold enter place
    by_cases hfirst : Precedes item other
    · rw [if_pos hfirst, if_pos hfirst]
    · rw [if_neg hfirst, if_neg hfirst, if_pos (precedes_of_not_precedes hother hfirst), ih hrest]

/-- **A member is found under its score**, and nothing else is taken out with it. -/
theorem strike_of_score? {z : SortedSet} {member : Bytes} {score : Score}
    (h : z.score? member = some score) :
    strike (member, score) z.toList = without member z.toList := by
  refine List.filter_congr fun other hother => ?_
  rw [decide_eq_decide, Ne, Bytes.order_eq_iff]
  constructor
  · rintro hapart rfl
    -- the member has one score, so the other item is the item itself
    have hsame : other = (other.1, score) :=
      Prod.ext rfl (Option.some.inj ((SortedSet.mem_toList_iff.1 hother).symm.trans h))
    rw [← hsame] at hapart
    exact hapart.elim (Precedes.irrefl other) (Precedes.irrefl other)
  · intro hne
    by_cases hfirst : Precedes (member, score) other
    · exact .inl hfirst
    · exact .inr (precedes_of_not_precedes (Ne.symm hne) hfirst)

end Ranking

namespace SortedSet

/-- A map from members to scores, with an index of its pairs. -/
structure Indexed where
  scores : ByteMap Score
  index : List (Bytes × Score)

namespace Indexed

/-- Without members. -/
def empty : Indexed := ⟨ByteMap.empty, []⟩

/-- The index without the pair of a member, which is found by the score that the map has. -/
def struck (x : Indexed) (member : Bytes) : List (Bytes × Score) :=
  match x.scores.find? member with
  | some score => Ranking.strike (member, score) x.index
  | none => x.index

/-- A change of the map, and then of the index. -/
def change (x : Indexed) : Change → Answer × Indexed
  | .assign member score =>
    (.assigned (x.scores.find? member).isNone,
      { scores := x.scores.insert member score
        index := Ranking.enter (member, score) (x.struck member) })
  | .take member =>
    (.taken (x.scores.find? member),
      { scores := x.scores.erase member, index := x.struck member })

end Indexed

/-! ## §4. They agree. -/

/-- A map has the scores of a sorted set. -/
def Scored (z : SortedSet) (scores : ByteMap Score) : Prop :=
  ∀ member, z.score? member = scores.find? member

variable {z : SortedSet} {scores : ByteMap Score} {x : Indexed}

/-- **A map answers like the set** and keeps its scores. -/
theorem Scored.change (h : z.Scored scores) (c : Change) :
    (z.change c).1 = (changeMap scores c).1 ∧ (z.change c).2.Scored (changeMap scores c).2 := by
  cases c with
  | assign member score =>
    refine ⟨congrArg (fun found : Option Score => Answer.assigned found.isNone) (h member),
      fun m => ?_⟩
    show (z.insert member score).score? m = (scores.insert member score).find? m
    rw [score?_insert, ByteMap.find?_insert, h]
  | take member =>
    refine ⟨congrArg Answer.taken (h member), fun m => ?_⟩
    show (z.remove member).score? m = (scores.erase member).find? m
    rw [score?_remove, ByteMap.find?_erase, h]

/-- Map and index are those of a sorted set. -/
structure Indexed.Keeps (x : Indexed) (z : SortedSet) : Prop where
  scores : z.Scored x.scores
  index : x.index = z.toList

/-- The pair that a change replaces is struck out, and no other. -/
theorem Indexed.Keeps.struck (h : x.Keeps z) (member : Bytes) :
    x.struck member = (z.remove member).toList := by
  unfold Indexed.struck
  rw [h.index]
  cases hfound : x.scores.find? member with
  | some score => exact Ranking.strike_of_score? ((h.scores member).trans hfound)
  | none =>
    have hnone := ne_of_score?_eq_none ((h.scores member).trans hfound)
    exact (Ranking.without_of_not_mem hnone).symm

/-- **A map with an index answers like the set**, and the two of them stay together. -/
theorem Indexed.Keeps.change (h : x.Keeps z) (c : Change) :
    (x.change c).1 = (z.change c).1 ∧ (x.change c).2.Keeps (z.change c).2 := by
  obtain ⟨hanswer, hscores⟩ := h.scores.change c
  cases c with
  | assign member score =>
    refine ⟨hanswer.symm, hscores, ?_⟩
    show Ranking.enter (member, score) (x.struck member) = _
    rw [h.struck]
    -- the index is told of a member that it does not list
    exact Ranking.enter_of_new (z.ne_of_mem_remove member)
  | take member => exact ⟨hanswer.symm, hscores, h.struck member⟩

/-! ## §5. After any changes. -/

/-- The answers of a sorted set to changes from the beginning, and the set after them. -/
def run (changes : List Change) : List Answer × SortedSet := runWith SortedSet.change empty changes

/-- The same of a map. -/
def runMap (changes : List Change) : List Answer × ByteMap Score :=
  runWith changeMap ByteMap.empty changes

/-- The same of a map with an index. -/
def Indexed.run (changes : List Change) : List Answer × Indexed :=
  runWith Indexed.change Indexed.empty changes

theorem find?_changeMap (scores : ByteMap Score) (c : Change) (member : Bytes) :
    (changeMap scores c).2.find? member
      = if c.member = member then c.score? else scores.find? member := by
  cases c with
  | assign m s =>
    show (scores.insert m s).find? member = if m = member then some s else _
    simp only [ByteMap.find?_insert, eq_comm]
  | take m =>
    show (scores.erase m).find? member = if m = member then none else _
    simp only [ByteMap.find?_erase, eq_comm]

/-- What the map says is what was said last, by induction on the changes: the first of them
counts for nothing if a later one names the member. -/
theorem find?_runWith (scores : ByteMap Score) (changes : List Change) (member : Bytes) :
    (runWith changeMap scores changes).2.find? member
      = match changes.reverse.find? fun change => change.member = member with
        | some change => change.score?
        | none => scores.find? member := by
  induction changes generalizing scores with
  | nil => rfl
  | cons c rest ih =>
    show (runWith changeMap (changeMap scores c).2 rest).2.find? member = _
    rw [ih, List.reverse_cons, List.find?_append]
    cases hlater : rest.reverse.find? fun change => change.member = member with
    | some change => rfl
    | none =>
      rw [Option.none_or, List.find?_singleton]
      dsimp only
      rw [find?_changeMap]
      by_cases hnames : c.member = member
      · rw [if_pos hnames, if_pos (decide_eq_true hnames)]
      · rw [if_neg hnames, if_neg (by rwa [decide_eq_true_eq])]

/-- A new map says of a member what was said last. -/
theorem find?_runMap (changes : List Change) (member : Bytes) :
    (runMap changes).2.find? member = lastScore? member changes := by
  unfold runMap lastScore?
  rw [find?_runWith]
  cases changes.reverse.find? fun change => change.member = member <;> rfl

/-- **A sorted set is a finite map in order.**  Whatever members were given scores and taken
out, it gives the answers of a map and has what the map has, the last score of each member; so
does a map with an index, whose index is the list of the set.  The list has every member once,
in the order of scores and members; and two sets are equal exactly if each member was given
the same score last.  A score is its bits, so the two zeros differ. -/
theorem changes_faithful (changes changes' : List Change) :
    (run changes).1 = (runMap changes).1
      ∧ (∀ member, (run changes).2.score? member = lastScore? member changes
        ∧ (runMap changes).2.find? member = lastScore? member changes)
      ∧ (run changes).2.size = (runMap changes).2.size
      ∧ (run changes).2.isEmpty = (runMap changes).2.isEmpty
      ∧ (∀ member score, (member, score) ∈ (run changes).2.toList
        ↔ lastScore? member changes = some score)
      ∧ ((run changes).2.toList.map Prod.fst).Nodup
      ∧ (run changes).2.toList.Pairwise Ranking.Precedes
      ∧ Indexed.run changes = ((run changes).1, ⟨(runMap changes).2, (run changes).2.toList⟩)
      ∧ ((run changes).2 = (run changes').2
        ↔ ∀ member, lastScore? member changes = lastScore? member changes') := by
  have hmap : ∀ cs, (run cs).1 = (runMap cs).1 ∧ (run cs).2.Scored (runMap cs).2 := fun cs =>
    runWith_congr Scored.change (R := Scored) (fun _ => rfl) cs
  have hlast : ∀ cs member, (run cs).2.score? member = lastScore? member cs := fun cs member =>
    ((hmap cs).2 member).trans (find?_runMap cs member)
  have hperm := toList_perm (hmap changes).2
  obtain ⟨hanswers, hkeeps⟩ : (Indexed.run changes).1 = (run changes).1
      ∧ (Indexed.run changes).2.Keeps (run changes).2 :=
    runWith_congr Indexed.Keeps.change (R := Indexed.Keeps) ⟨fun _ => rfl, rfl⟩ changes
  refine ⟨(hmap changes).1, fun member => ⟨hlast changes member, find?_runMap changes member⟩,
    hperm.length_eq, ?_, fun member score => ?_, (run changes).2.distinct, (run changes).2.sorted,
    ?_, ?_⟩
  · exact hperm.isEmpty_eq
  · rw [mem_toList_iff, hlast]
  · refine Prod.ext hanswers ?_
    have hscores : (Indexed.run changes).2.scores = (runMap changes).2 :=
      ByteMap.ext fun member => (hkeeps.scores member).symm.trans ((hmap changes).2 member)
    rw [← hscores, ← hkeeps.index]
  · constructor
    · intro hsame member
      rw [← hlast, ← hlast, hsame]
    · intro hsame
      refine ext_score? fun member => ?_
      rw [hlast, hlast, hsame]

/-- A member that is given the other zero moves behind those of the lesser one. -/
example : (run [.assign [97] ⟨0x8000000000000000⟩, .assign [98] ⟨0x8000000000000000⟩,
    .assign [97] ⟨0⟩]).2.toList = [([98], ⟨0x8000000000000000⟩), ([97], ⟨0⟩)] := by decide

end SortedSet

end DurableStore
