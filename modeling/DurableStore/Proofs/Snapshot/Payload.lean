/-
  DurableStore.Proofs.Snapshot.Payload
  ────────────────────────────────
  **VALUES OF A SNAPSHOT FILE READ BACK.**

  A collection that is stored element by element is a count and its
  elements, each in any of its forms:

      Counted form items bytes  — a count and the items, each in a form

  So the elements come back as a list, and the collection is the one of its
  list.  The text of a score fits in the length byte before it, below the
  three lengths that stand for scores without a text.

  Main results:
    * `Counted.reads` — counted items are read;
    * `reads_textScore` — a score that is a number;
    * `reads_value` — a value of any kind, in the layout it is written in;
    * `score_in_place` — a score in the middle of a file, which is taken for
      no reserved length.
-/
import DurableStore.Snapshot.Payload
import DurableStore.Proofs.Score.Text
import DurableStore.Proofs.Snapshot.Text
import DurableStore.Proofs.Value.Rebuild

namespace DurableStore.Snapshot

/-! ## §1. Counted items. -/

/-- A count, in any of its forms, and so many items. -/
inductive Counted {α : Type} (form : α → Bytes → Prop) : List α → Bytes → Prop where
  | mk {items : List α} {count rows : Bytes} (hcount : LengthForm items.length count)
      (hrows : Row form items rows) : Counted form items (count ++ rows)

/-- **Counted items are read.** -/
theorem Counted.reads {α : Type} {form : α → Bytes → Prop}
    {item : Reader → Except Fault (α × Reader)} {items : List α} {bytes : Bytes}
    (h : Counted form items bytes) (hform : ∀ x bs, form x bs → Reads item bs x) :
    Reads (fun r => readLength r >>= fun p => Reader.many item p.1 p.2) bytes items := by
  cases h with
  | mk hcount hrows => exact hcount.reads.bind (hrows.reads hform)

theorem Counted.ne_nil {α : Type} {form : α → Bytes → Prop} {items : List α} {bytes : Bytes}
    (h : Counted form items bytes) : bytes ≠ [] := by
  cases h with
  | mk hcount hrows =>
    intro hnil
    exact hcount.ne_nil (List.append_eq_nil_iff.1 hnil).1

theorem lt_u64Bound_of_lt {n : Nat} (h : n < lengthBound) : n < Bytes.u64Bound :=
  Nat.lt_trans h (by decide)

/-- Items that were written are counted items. -/
theorem counted_flatMap {α : Type} {form : α → Bytes → Prop} {write : α → Bytes} {items : List α}
    (hcount : items.length < lengthBound) (h : ∀ x ∈ items, form x (write x)) :
    Counted form items (writeLength items.length ++ items.flatMap write) :=
  .mk (lengthForm_writeLength (lt_u64Bound_of_lt hcount)) (row_flatMap h)

/-- A count and so many strings. -/
theorem Counted.reads_strings {items : List Bytes} {bytes : Bytes}
    (h : Counted TextForm items bytes) :
    Reads readStrings bytes items := h.reads fun _ _ hform => hform.reads

/-- Two strings, one after the other. -/
inductive PairForm : Bytes × Bytes → Bytes → Prop where
  | mk {first second a b : Bytes} (hfirst : TextForm first a) (hsecond : TextForm second b) :
      PairForm (first, second) (a ++ b)

theorem PairForm.reads {p : Bytes × Bytes} {bytes : Bytes} (h : PairForm p bytes) :
    Reads readPair bytes p := by
  cases h with
  | mk hfirst hsecond =>
    refine hfirst.reads.bind ?_
    exact hsecond.reads.map fun r => rfl

/-- A count and so many pairs of strings. -/
theorem Counted.reads_pairs {pairs : List (Bytes × Bytes)} {bytes : Bytes}
    (h : Counted PairForm pairs bytes) (hcount : pairs.length < lengthBound) :
    Reads readPairs bytes pairs := by
  have hfits : ¬ Bytes.u64Bound ≤ pairs.length * 2 := by
    have hbound : lengthBound * 2 = Bytes.u64Bound := rfl
    omega
  refine Reads.peek h.ne_nil ?_
  intro first after
  cases h with
  | mk hlength hrows =>
    refine hlength.reads.bind ?_
    simp only [if_neg hfits]
    exact hrows.reads fun _ _ hform => hform.reads

theorem pairForm_writeString (compression : Bool) {p : Bytes × Bytes}
    (hfirst : p.1.length < lengthBound) (hsecond : p.2.length < lengthBound) :
    PairForm p (writeString compression p.1 ++ writeString compression p.2) :=
  .mk (textForm_writeString compression (lt_u64Bound_of_lt hfirst))
    (textForm_writeString compression (lt_u64Bound_of_lt hsecond))

/-! ## §2. Scores. -/

theorem length_scoreText_lt (score : Score) : (scoreText score).length < scoreNaN := by
  unfold scoreText
  dsimp only
  split
  · assumption
  · exact Nat.lt_of_le_of_lt (Score.length_formatShort_le score) (by decide)

theorem scoreOfText_scoreText {score : Score} (h : score.isNaN = false) :
    scoreOfText (scoreText score) = .ok score := by
  have hparse : Score.parse? (scoreText score) = some score := by
    unfold scoreText
    dsimp only
    split
    · exact Score.parse?_format h
    · exact Score.parse?_formatShort h
  unfold scoreOfText
  rw [hparse]

/-- A text whose length is below the three reserved ones is read as the score it spells. -/
theorem readTextScore_text {text : Bytes} (h : text.length < scoreNaN) (position : Nat)
    (rest : Bytes) :
    readTextScore ⟨position, UInt8.ofNat text.length :: text ++ rest⟩
      = (fun score => (score, ⟨position + (text.length + 1), rest⟩)) <$> scoreOfText text := by
  have hbyte := Lzf.toNat_ofNat_of_lt (Nat.lt_trans h (by decide : scoreNaN < 256))
  have hNaN : ¬ text.length = scoreNaN := Nat.ne_of_lt h
  have hpos : ¬ text.length = scoreInfinity := Nat.ne_of_lt (Nat.lt_trans h (by decide))
  have hneg : ¬ text.length = scoreNegInfinity := Nat.ne_of_lt (Nat.lt_trans h (by decide))
  show (if (UInt8.ofNat text.length).toNat = scoreNaN then _ else _) = _
  rw [hbyte, if_neg hNaN, if_neg hpos, if_neg hneg]
  refine ((reads_take text).step _ (position + 1) rest).trans ?_
  rw [Nat.add_assoc, Nat.add_comm 1]
  exact (map_eq_pure_bind _ _).symm

/-- **A score that is a number is read back.** -/
theorem reads_textScore {score : Score} (h : score.isNaN = false) :
    Reads readTextScore (writeTextScore score) score := by
  unfold writeTextScore
  split
  · rename_i hinf
    rw [hinf]
    exact fun position rest => rfl
  · split
    · rename_i hinf
      rw [hinf]
      exact fun position rest => rfl
    · intro position rest
      dsimp only
      rw [readTextScore_text (length_scoreText_lt score), scoreOfText_scoreText h]
      rfl

/-- The length byte of a score is one of the reserved ones exactly if the score is infinite.
Every other score stands behind it, and is as long as it says. -/
theorem writeTextScore_eq_cons (score : Score) :
    ∃ length text, writeTextScore score = length :: text
      ∧ (253 ≤ length.toNat ↔ score.isInfinite = true)
      ∧ (score.isInfinite = false → length.toNat = text.length) := by
  unfold writeTextScore
  split
  · rename_i hinf
    subst hinf
    exact ⟨254, [], rfl, by decide, by decide⟩
  · rename_i hpos
    split
    · rename_i hinf
      subst hinf
      exact ⟨255, [], rfl, by decide, by decide⟩
    · rename_i hneg
      have hshort : (scoreText score).length < 253 := length_scoreText_lt score
      have hbyte := Lzf.toNat_ofNat_of_lt (by omega : (scoreText score).length < 256)
      refine ⟨_, _, rfl, ?_, fun _ => hbyte⟩
      rw [hbyte, Score.isInfinite_iff]
      exact ⟨fun h => absurd h (by omega), fun h => absurd h (not_or.2 ⟨hpos, hneg⟩)⟩

/-- A count and so many members with their scores. -/
theorem reads_scored (compression : Bool) {items : List (Bytes × Score)}
    (hcount : items.length < lengthBound)
    (hitems : ∀ p ∈ items, p.1.length < lengthBound ∧ p.2.isNaN = false) :
    Reads (readScored readTextScore)
      (writeLength items.length
        ++ items.flatMap fun p => writeString compression p.1 ++ writeTextScore p.2)
      items := by
  refine Counted.reads (counted_flatMap hcount fun p hp => ?_) fun _ _ => id
  obtain ⟨hmember, hscore⟩ := hitems p hp
  refine (reads_string compression (lt_u64Bound_of_lt hmember)).bind ?_
  exact (reads_textScore hscore).map fun r => rfl

/-! ## §3. Values. -/

/-- **A value is read back in the layout in which it is written.** -/
theorem reads_value (compression : Bool) {value : Value} (hsound : value.Sound)
    (hcount : value.count < lengthBound) :
    Reads (readValue (Layout.ofValue value)) (writeValue compression value) value := by
  cases value with
  | string bytes =>
    exact (reads_string compression (lt_u64Bound_of_lt hsound)).map fun r => rfl
  | list items =>
    have hstored : Counted TextForm _ _ := counted_flatMap hcount
      fun item hitem => textForm_writeString compression (lt_u64Bound_of_lt (hsound item hitem))
    exact hstored.reads_strings.map fun r => rfl
  | hash fields =>
    have hstored : Counted PairForm _ _ := counted_flatMap hcount
      fun p hp => pairForm_writeString compression (hsound p hp).1 (hsound p hp).2
    refine (hstored.reads_pairs hcount).map ?_
    intro r
    dsimp only
    rw [ByteMap.ofList_toList]
    rfl
  | set members =>
    have hsize : members.size = members.members.length := by
      rw [ByteMap.size, ByteSet.members, ByteMap.keys, List.length_map]
    -- a set is written from its size and its members, which are counted alike
    have hwrite : writeValue compression (.set members)
        = writeLength members.members.length
          ++ members.members.flatMap (writeString compression) := by
      rw [← hsize]
      rfl
    rw [Value.count, hsize] at hcount
    have hstored : Counted TextForm _ _ := counted_flatMap hcount
      fun item hitem => textForm_writeString compression (lt_u64Bound_of_lt (hsound item hitem))
    rw [hwrite]
    refine hstored.reads_strings.map ?_
    intro r
    dsimp only
    rw [ByteSet.ofList_members]
    rfl
  | sortedSet members =>
    refine (reads_scored compression hcount hsound).map ?_
    intro r
    dsimp only
    rw [SortedSet.ofList_toList]
    rfl

/-! ## §4. In the middle of a file. -/

/-- **A score is read back in place**, whatever stands before and behind it: the reader returns
the same bits and moves on by as many bytes as were written.  The length byte of a finite score
is that of its text and below the three reserved ones, and no other score begins there. -/
theorem score_in_place {score : Score} (hnum : score.isNaN = false) (before after : Bytes) :
    readTextScore ((Reader.start (before ++ writeTextScore score ++ after)).skip before.length)
        = .ok (score, ⟨before.length + (writeTextScore score).length, after⟩)
      ∧ (∃ length text, writeTextScore score = length :: text
          ∧ (253 ≤ length.toNat ↔ score.isInfinite = true)
          ∧ (score.isInfinite = false → length.toNat = text.length))
      ∧ ∀ other : Score, other.isNaN = false →
          writeTextScore other <+: writeTextScore score ++ after → other = score := by
  refine ⟨(reads_textScore hnum).in_place before after, writeTextScore_eq_cons score, ?_⟩
  rintro other hother ⟨more, hmore⟩
  exact ((reads_textScore hother).unique (reads_textScore hnum) hmore).1

/-- The least positive score: written out in full its text takes 326 bytes, so it is written
with a power of ten.  It stands here between bytes that are reserved lengths. -/
theorem score_in_place_leastPositive :
    (Score.format ⟨1⟩).length = 326
      ∧ writeTextScore ⟨1⟩ = 6 :: Bytes.ofString "5e-324"
      ∧ (⟨1⟩ : Score).isNaN = false
      ∧ readTextScore
          ((Reader.start ([254] ++ writeTextScore ⟨1⟩ ++ [253])).skip ([254] : Bytes).length)
        = .ok (⟨1⟩, ⟨([254] : Bytes).length + (writeTextScore ⟨1⟩).length, [253]⟩)
      ∧ (∃ length text, writeTextScore ⟨1⟩ = length :: text
          ∧ (253 ≤ length.toNat ↔ (⟨1⟩ : Score).isInfinite = true)
          ∧ ((⟨1⟩ : Score).isInfinite = false → length.toNat = text.length))
      ∧ ∀ other : Score, other.isNaN = false →
          writeTextScore other <+: writeTextScore ⟨1⟩ ++ [253] → other = ⟨1⟩ := by
  have hnum : (⟨1⟩ : Score).isNaN = false := by decide
  exact ⟨by decide +kernel, by decide +kernel, hnum, score_in_place hnum [254] [253]⟩

end DurableStore.Snapshot
