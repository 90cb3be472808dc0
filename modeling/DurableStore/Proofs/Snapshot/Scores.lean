/-
  DurableStore.Proofs.Snapshot.Scores
  ────────────────────────────────
  **EVERY SCORE THAT IS READ IS A NUMBER.**

  A snapshot file may have been written by anybody, and there are three ways
  in which it can spell a score: as text with its length, as the eight bytes
  of its bits, and as an element of a packed container.  Each of them refuses
  what is not a number.  So no dataset that was loaded holds a NaN, whatever
  the file was.

  Whatever holds of every record that a key and its value make holds of every
  entry that is read (`each_of_decode`).

  Main results: `numeric_of_decode`, `live_of_decode`.
-/
import DurableStore.Proofs.Command.Storable
import DurableStore.Snapshot.Format

namespace DurableStore

theorem Value.numeric_ofList {items : List (Bytes × Score)}
    (h : ∀ item ∈ items, item.2.isNaN = false) : (Value.sortedSet (.ofList items)).Numeric := by
  intro p hp
  rcases SortedSet.mem_insertMany hp with hitem | hnone
  · exact h p hitem
  · exact absurd hnone List.not_mem_nil

namespace Snapshot

/-! ## §1. What a reader returns. -/

/-- Whatever is returned has a property. -/
def Gives {α : Type} (P : α → Prop) (x : Except Fault α) : Prop := ∀ a, x = .ok a → P a

namespace Gives

variable {α β : Type} {P : α → Prop} {Q : β → Prop} {x : Except Fault α}

theorem any (x : Except Fault α) : Gives (fun _ => True) x := fun _ _ => trivial

theorem error (fault : Fault) : Gives P (.error fault) := fun _ h => nomatch h

theorem ok {a : α} (h : P a) : Gives P (.ok a) := by
  intro b hb
  cases hb
  exact h

theorem bind {f : α → Except Fault β} (hx : Gives P x) (hf : ∀ a, P a → Gives Q (f a)) :
    Gives Q (x >>= f) := by
  cases x with
  | error fault => exact error fault
  | ok a => exact hf a (hx a rfl)

theorem map {f : α → β} (hx : Gives P x) (hf : ∀ a, P a → Q (f a)) : Gives Q (f <$> x) := by
  cases x with
  | error fault => exact error fault
  | ok a => exact ok (hf a (hx a rfl))

theorem ite {c : Prop} [Decidable c] {y : Except Fault α} (hx : Gives P x) (hy : Gives P y) :
    Gives P (if c then x else y) := by
  split
  · exact hx
  · exact hy

/-- A number of readings one after the other. -/
theorem many {P : α → Prop} {item : Reader → Except Fault (α × Reader)}
    (hitem : ∀ r, Gives (fun p => P p.1) (item r)) (n : Nat) (r : Reader) :
    Gives (fun p => ∀ a ∈ p.1, P a) (Reader.many item n r) := by
  induction n generalizing r with
  | zero => exact ok fun a ha => absurd ha List.not_mem_nil
  | succ n ih =>
    refine bind (hitem r) fun p hp => bind (ih p.2) fun q hq => ?_
    exact ok (List.forall_mem_cons.2 ⟨hp, hq⟩)

end Gives

/-! ## §2. Scores. -/

theorem gives_scoreOfText (text : Bytes) : Gives (·.isNaN = false) (scoreOfText text) := by
  unfold scoreOfText
  cases h : Score.parse? text with
  | none => exact .error _
  | some score => exact .ok (Score.isNaN_of_parse? h)

theorem gives_readTextScore (r : Reader) : Gives (·.1.isNaN = false) (readTextScore r) := by
  refine .bind (.any _) fun first _ => .ite (.error _) ?_
  refine .ite (.ok (show Score.infinity.isNaN = false by decide)) ?_
  refine .ite (.ok (show Score.negInfinity.isNaN = false by decide)) ?_
  exact .bind (.any _) fun text _ => .bind (gives_scoreOfText text.1) fun _ h => .ok h

theorem gives_readBinaryScore (r : Reader) : Gives (·.1.isNaN = false) (readBinaryScore r) := by
  refine .bind (.any _) fun bits _ => ?_
  dsimp only
  split
  · exact .error _
  · rename_i hnum
    exact .ok (Bool.eq_false_iff.2 hnum)

theorem gives_readScored {readScore : Reader → Except Fault (Score × Reader)}
    (h : ∀ r, Gives (·.1.isNaN = false) (readScore r)) (r : Reader) :
    Gives (fun p => ∀ item ∈ p.1, item.2.isNaN = false) (readScored readScore r) := by
  refine .bind (.any _) fun count _ => Gives.many (fun r => ?_) _ _
  exact .bind (.any _) fun member _ => .bind (h member.2) fun _ hscore => .ok hscore

theorem gives_scored (pairs : List (Bytes × Bytes)) :
    Gives (fun items => ∀ item ∈ items, item.2.isNaN = false) (scored pairs) := by
  induction pairs with
  | nil => exact .ok fun item hitem => absurd hitem List.not_mem_nil
  | cons p pairs ih =>
    refine .bind (gives_scoreOfText p.2) fun score hscore => .bind ih fun items hitems => ?_
    exact .ok (List.forall_mem_cons.2 ⟨hscore, hitems⟩)

/-! ## §3. Values. -/

theorem gives_unpackSortedSet (container : Container) (decode : Bytes → Except Fault (List Bytes))
    (blob : Bytes) : Gives Value.Numeric (unpackSortedSet container decode blob) := by
  refine .bind (.any _) fun entries _ => .bind (.any _) fun pairs _ => ?_
  exact .bind (gives_scored pairs) fun items hitems => .ok (Value.numeric_ofList hitems)

theorem gives_unpackHash (container : Container) (decode : Bytes → Except Fault (List Bytes))
    (blob : Bytes) : Gives Value.Numeric (unpackHash container decode blob) :=
  .bind (.any _) fun _ _ => .bind (.any _) fun _ _ => .ok trivial

theorem gives_readPacked {decode : Bytes → Except Fault Value}
    (h : ∀ blob, Gives Value.Numeric (decode blob)) (r : Reader) :
    Gives (·.1.Numeric) (readPacked decode r) :=
  .bind (.any _) fun blob _ => .bind (h blob.1) fun _ hvalue => .ok hvalue

/-- **Whatever the layout of a value, its scores are numbers.** -/
theorem gives_readValue (layout : Layout) (r : Reader) :
    Gives (·.1.Numeric) (readValue layout r) := by
  have hplain : ∀ {α : Type} (x : Except Fault (α × Reader)) (value : α → Value),
      (∀ a, (value a).Numeric) →
      Gives (·.1.Numeric) (x >>= fun p => .ok (value p.1, p.2)) :=
    fun x value h => .bind (.any x) fun p _ => .ok (h p.1)
  have hscored : ∀ {readScore : Reader → Except Fault (Score × Reader)},
      (∀ r, Gives (·.1.isNaN = false) (readScore r)) →
      Gives (·.1.Numeric) (readScored readScore r >>= fun p =>
        .ok (Value.sortedSet (.ofList p.1), p.2)) :=
    fun h => .bind (gives_readScored h r) fun _ hitems => .ok (Value.numeric_ofList hitems)
  have hpacked : ∀ {decode : Bytes → Except Fault (List Bytes)} (value : List Bytes → Value),
      (∀ items, (value items).Numeric) →
      Gives (·.1.Numeric) (readPacked (fun blob => value <$> decode blob) r) :=
    fun value h => gives_readPacked (fun _ => .map (.any _) fun items _ => h items) r
  cases layout with
  | string => exact hplain _ Value.string fun _ => trivial
  | list => exact hplain _ Value.list fun _ => trivial
  | set => exact hplain _ (fun items => .set (ByteSet.ofList items)) fun _ => trivial
  | hash => exact hplain _ (fun pairs => .hash (ByteMap.ofList pairs)) fun _ => trivial
  | sortedSetText => exact hscored gives_readTextScore
  | sortedSetBinary => exact hscored gives_readBinaryScore
  | quicklistZiplist => exact hplain _ Value.list fun _ => trivial
  | quicklistListpack => exact hplain _ Value.list fun _ => trivial
  | listZiplist => exact hpacked Value.list fun _ => trivial
  | setIntset | setListpack => exact hpacked (.set ∘ ByteSet.ofList) fun _ => trivial
  | hashZipmap | hashZiplist | hashListpack => exact gives_readPacked (gives_unpackHash _ _) r
  | sortedSetZiplist | sortedSetListpack => exact gives_readPacked (gives_unpackSortedSet _ _) r

/-! ## §4. Files. -/

/-- The value of an item, if it has one, holds numbers only. -/
def Item.Numeric : Item → Prop
  | .entry _ value => value.Numeric
  | _ => True

theorem gives_readItem (r : Reader) : Gives (·.1.Numeric) (readItem r) := by
  refine .bind (.any _) fun marker _ => ?_
  -- only an entry has a value; the other items are read off and done with
  refine .ite (.bind (.any _) fun _ _ => .ok trivial) ?_
  refine .ite (.bind (.any _) fun _ _ => .bind (.any _) fun _ _ => .ok trivial) ?_
  refine .ite (.bind (.any _) fun _ _ => .ok trivial) ?_
  refine .ite (.bind (.any _) fun _ _ => .ok trivial) ?_
  refine .ite (.bind (.any _) fun _ _ => .ok trivial) (.ite (.ok trivial) ?_)
  refine .bind (.any _) fun key _ => ?_
  dsimp only
  split
  · exact .bind (gives_readValue _ _) fun _ hvalue => .ok hvalue
  · exact .error _

/-- The records of a file have what every record has that a key and its value make. -/
theorem gives_records {t : Target} {P : Record → Prop}
    (hrecord : ∀ {r next key value}, readItem r = .ok (.entry key value, next) → ∀ c,
      Gives (fun record? => ∀ record ∈ record?, P record) (t.record? c key value))
    (budget : Nat) (c : Context) (r : Reader) :
    Gives (fun p => ∀ record ∈ p.1, P record) (t.records budget c r) := by
  induction budget generalizing c r with
  | zero => exact .error _
  | succ budget ih =>
    refine .bind (P := fun p => readItem r = .ok p) (fun p hp => hp) fun p hitem => ?_
    obtain ⟨item, next⟩ := p
    cases item with
    | entry key value =>
      -- a key adds a record to those that follow it, unless it has expired
      refine .bind (hrecord hitem c) fun record? hfirst => .bind (ih _ next) fun q hq => ?_
      refine .ok fun record hmem => ?_
      rcases List.mem_append.1 hmem with hhere | hlater
      · exact hfirst record (Option.mem_toList.1 hhere)
      · exact hq record hlater
    | endOfFile => exact .ite (.error _) (.ok fun record hmem => absurd hmem List.not_mem_nil)
    | info | sizes | deadline | database => exact .bind (.any _) fun c _ => ih c next

/-- **What every record has, every entry of a snapshot has** that was read from a file. -/
theorem each_of_decode {databases : Nat} {now : Millis} {bytes : Bytes} {s : Snapshot}
    {P : Entry → Prop}
    (hrecord : ∀ {r next key value}, readItem r = .ok (.entry key value, next) → ∀ c,
      Gives (fun record? => ∀ record ∈ record?, P record.entry)
        (Target.record? ⟨databases, now⟩ c key value))
    (h : decode databases now bytes = .ok s) : ∀ entries ∈ s.databases, ∀ p ∈ entries, P p.2 := by
  have hgives : Gives (fun s : Snapshot => ∀ entries ∈ s.databases, ∀ p ∈ entries, P p.2)
      (decode databases now bytes) := by
    refine .bind (.bind (.any _) fun r _ => .bind (gives_records hrecord _ _ _) ?_) fun q hq => .ok hq
    rintro ⟨records, stop⟩ hrecords
    refine .ok ?_
    intro entries hentries p hp
    obtain ⟨index, -, rfl⟩ := List.mem_map.1 hentries
    obtain ⟨record, hmem, rfl⟩ := List.mem_map.1 hp
    exact hrecords record (List.mem_filter.1 hmem).1
  exact hgives s h

/-- **Every score that is read from a snapshot file is a number.** -/
theorem numeric_of_decode {databases : Nat} {now : Millis} {bytes : Bytes} {s : Snapshot}
    (h : decode databases now bytes = .ok s) :
    ∀ entries ∈ s.databases, ∀ p ∈ entries, p.2.value.Numeric := by
  refine each_of_decode (P := fun entry => entry.value.Numeric)
    (fun {r next key value} hitem c => ?_) h
  refine .ite (.ok fun record hrecord => nomatch hrecord) (.ite (.ok ?_) (.error _))
  intro record hrecord
  cases hrecord
  exact gives_readItem r _ hitem

/-- **Nothing that is read from a snapshot file has expired.** -/
theorem live_of_decode {databases : Nat} {now : Millis} {bytes : Bytes} {s : Snapshot}
    (h : decode databases now bytes = .ok s) :
    ∀ entries ∈ s.databases, ∀ p ∈ entries, p.2.isExpired now = false := by
  refine each_of_decode (P := fun entry => entry.isExpired now = false)
    (fun {r next key value} _ c => ?_) h
  unfold Target.record?
  dsimp only
  split
  · exact .ok fun record hrecord => nomatch hrecord
  · rename_i hlive
    refine .ite (.ok ?_) (.error _)
    intro record hrecord
    cases hrecord
    exact Bool.eq_false_iff.2 hlive

end Snapshot

end DurableStore
