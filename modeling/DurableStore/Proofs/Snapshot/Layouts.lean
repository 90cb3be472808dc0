/-
  DurableStore.Proofs.Snapshot.Layouts
  ────────────────────────────────
  **THE LAYOUTS OF A COLLECTION.**

  One collection has several layouts: element by element, packed in a
  container, or spread over the nodes of a quicklist.  Within a layout every
  element still has the choice of its form, and a container may be stored
  compressed.

      StoredAs layout e bytes  — the bytes are a form of the collection

  None of this is seen after loading.  The elements alone make the value:

      list         the elements in order
      set          what is an element is a member
      hash         the last value of a field
      sorted set   the last score of a member, by its text

  Main results:
    * `StoredAs.yields` — one value for every layout, form and split;
    * `stored_forms_load_alike` — and it is the one that the elements make.
-/
import DurableStore.Proofs.Snapshot.Containers
import DurableStore.Proofs.Snapshot.RoundTrip

namespace DurableStore.Snapshot

variable {α : Type}

/-! ## §1. Reading with a given outcome. -/

/-- A decoder comes to an outcome on these bytes, and is behind them if it succeeds. -/
def Yields (read : Reader → Except Fault (α × Reader)) (bytes : Bytes) (outcome : Except Fault α) :
    Prop :=
  ∀ position rest, read ⟨position, bytes ++ rest⟩
    = (fun a => (a, ⟨position + bytes.length, rest⟩)) <$> outcome

/-! ## §2. Scores. -/

/-- The forms of a score text in front of which stands its length.  Three lengths stand
for a text by themselves. -/
inductive ScoreForm : Bytes → Bytes → Prop where
  | text {text : Bytes} (h : text.length < 253) : ScoreForm text (UInt8.ofNat text.length :: text)
  | notANumber : ScoreForm (Bytes.ofString "nan") [253]
  | greatest : ScoreForm (Bytes.ofString "inf") [254]
  | least : ScoreForm (Bytes.ofString "-inf") [255]

theorem ScoreForm.yields {text bytes : Bytes} (h : ScoreForm text bytes) :
    Yields readTextScore bytes (scoreOfText text) := by
  cases h with
  | text hlength => exact readTextScore_text hlength
  | notANumber =>
    have htext : scoreOfText (Bytes.ofString "nan") = .error .invalidScore := by decide
    rw [htext]
    exact fun position rest => rfl
  | greatest =>
    have htext : scoreOfText (Bytes.ofString "inf") = .ok Score.infinity := by decide
    rw [htext]
    exact fun position rest => rfl
  | least =>
    have htext : scoreOfText (Bytes.ofString "-inf") = .ok Score.negInfinity := by decide
    rw [htext]
    exact fun position rest => rfl

/-- A member, and the text of its score. -/
inductive MemberForm : Bytes × Bytes → Bytes → Prop where
  | mk {member text a b : Bytes} (hmember : TextForm member a) (hscore : ScoreForm text b) :
      MemberForm (member, text) (a ++ b)

/-- A member with its score, as `readScored` reads it. -/
def readMember (r : Reader) : Except Fault ((Bytes × Score) × Reader) := do
  let (member, r) ← readString r
  let (score, r) ← readTextScore r
  return ((member, score), r)

theorem MemberForm.yields {p : Bytes × Bytes} {bytes : Bytes} (h : MemberForm p bytes) :
    Yields readMember bytes ((fun score => (p.1, score)) <$> scoreOfText p.2) := by
  cases h with
  | @mk member text a b hmember hscore =>
    intro position rest
    rw [List.append_assoc]
    refine (hmember.reads.step _ position (b ++ rest)).trans ?_
    dsimp only
    rw [hscore.yields, List.length_append, Nat.add_assoc]
    cases scoreOfText text <;> rfl

/-- Members in a row are read until a score text is none. -/
theorem row_members {pairs : List (Bytes × Bytes)} {bytes : Bytes}
    (h : Row MemberForm pairs bytes) :
    Yields (Reader.many readMember pairs.length) bytes (scored pairs) := by
  induction h with
  | nil => exact fun position rest => rfl
  | @cons p pairs bytes more hp _ ih =>
    intro position rest
    rw [List.append_assoc, List.length_cons, Reader.many, hp.yields, scored]
    -- A text that is no score ends the reading where it ends `scored`.
    cases scoreOfText p.2 with
    | error fault => rfl
    | ok score =>
      show (Reader.many readMember pairs.length ⟨_, _⟩ >>= _) = _
      rw [ih, List.length_append, Nat.add_assoc]
      cases scored pairs <;> rfl

theorem Counted.yields_members {pairs : List (Bytes × Bytes)} {bytes : Bytes}
    (h : Counted MemberForm pairs bytes) :
    Yields (readScored readTextScore) bytes (scored pairs) := by
  cases h with
  | @mk count rows hcount hrows =>
    intro position rest
    rw [List.append_assoc]
    refine (hcount.reads.step _ position (rows ++ rest)).trans ?_
    rw [List.length_append, ← Nat.add_assoc]
    exact row_members hrows _ rest

/-! ## §3. Layouts. -/

/-- The elements of a collection: the items of a list or a set, the pairs of a hash, or the
members of a sorted set with their score texts. -/
inductive Elements where
  | list (items : List Bytes)
  | set (items : List Bytes)
  | hash (pairs : List (Bytes × Bytes))
  | sortedSet (pairs : List (Bytes × Bytes))

/-- A container that is stored as a string, in any form of a string. -/
inductive Packed (holds : Bytes → Prop) : Bytes → Prop where
  | mk {blob bytes : Bytes} (hblob : holds blob) (h : TextForm blob bytes) : Packed holds bytes

/-- The nodes of a quicklist that say what they are. -/
inductive TaggedNode : List Bytes → Bytes → Prop where
  /-- A single element. -/
  | plain {item kind bytes : Bytes} (hkind : LengthForm 1 kind) (h : TextForm item bytes) :
      TaggedNode [item] (kind ++ bytes)
  | packed {items : List Bytes} {kind bytes : Bytes} (hkind : LengthForm 2 kind)
      (h : Packed (Listpack items) bytes) : TaggedNode items (kind ++ bytes)

/-- The forms of a collection in each of its layouts. -/
inductive StoredAs : Layout → Elements → Bytes → Prop where
  | list {items : List Bytes} {bytes : Bytes} (h : Counted TextForm items bytes) :
      StoredAs .list (.list items) bytes
  | listZiplist {items : List Bytes} {bytes : Bytes} (h : Packed (Ziplist items) bytes) :
      StoredAs .listZiplist (.list items) bytes
  /-- The elements are split into nodes in any way. -/
  | quicklistZiplist {nodes : List (List Bytes)} {bytes : Bytes}
      (h : Counted (fun items => Packed (Ziplist items)) nodes bytes) :
      StoredAs .quicklistZiplist (.list nodes.flatten) bytes
  | quicklistListpack {nodes : List (List Bytes)} {bytes : Bytes}
      (h : Counted TaggedNode nodes bytes) :
      StoredAs .quicklistListpack (.list nodes.flatten) bytes
  | set {items : List Bytes} {bytes : Bytes} (h : Counted TextForm items bytes) :
      StoredAs .set (.set items) bytes
  | setListpack {items : List Bytes} {bytes : Bytes} (h : Packed (Listpack items) bytes) :
      StoredAs .setListpack (.set items) bytes
  | setIntset {items : List Bytes} {bytes : Bytes} (h : Packed (Intset items) bytes) :
      StoredAs .setIntset (.set items) bytes
  /-- The number of strings, twice the count, must be a number of 64 bits. -/
  | hash {pairs : List (Bytes × Bytes)} {bytes : Bytes} (hcount : pairs.length < lengthBound)
      (h : Counted PairForm pairs bytes) : StoredAs .hash (.hash pairs) bytes
  | hashZipmap {pairs : List (Bytes × Bytes)} {bytes : Bytes} (h : Packed (Zipmap pairs) bytes) :
      StoredAs .hashZipmap (.hash pairs) bytes
  | hashZiplist {pairs : List (Bytes × Bytes)} {bytes : Bytes}
      (h : Packed (Ziplist (inTurn pairs)) bytes) : StoredAs .hashZiplist (.hash pairs) bytes
  | hashListpack {pairs : List (Bytes × Bytes)} {bytes : Bytes}
      (h : Packed (Listpack (inTurn pairs)) bytes) : StoredAs .hashListpack (.hash pairs) bytes
  | sortedSetText {pairs : List (Bytes × Bytes)} {bytes : Bytes}
      (h : Counted MemberForm pairs bytes) :
      StoredAs .sortedSetText (.sortedSet pairs) bytes
  | sortedSetZiplist {pairs : List (Bytes × Bytes)} {bytes : Bytes}
      (h : Packed (Ziplist (inTurn pairs)) bytes) : StoredAs .sortedSetZiplist (.sortedSet pairs) bytes
  | sortedSetListpack {pairs : List (Bytes × Bytes)} {bytes : Bytes}
      (h : Packed (Listpack (inTurn pairs)) bytes) :
      StoredAs .sortedSetListpack (.sortedSet pairs) bytes

/-- What the elements come to, without any bytes. -/
def Elements.load : Elements → Except Fault Value
  | .list items => .ok (.list items)
  | .set items => .ok (.set (ByteSet.ofList items))
  | .hash pairs => .ok (.hash (ByteMap.ofList pairs))
  | .sortedSet pairs => (fun items => .sortedSet (SortedSet.ofList items)) <$> scored pairs

/-- A container comes to what each of its strings is decoded to. -/
theorem Packed.yields {holds : Bytes → Prop} {bytes : Bytes} (h : Packed holds bytes)
    {decode : Bytes → Except Fault Value} {outcome : Except Fault Value}
    (hdecode : ∀ blob, holds blob → decode blob = outcome) :
    Yields (readPacked decode) bytes outcome := by
  cases h with
  | @mk blob _ hblob htext =>
    intro position rest
    refine (htext.reads.step _ position rest).trans ?_
    dsimp only
    rw [hdecode blob hblob]
    exact (map_eq_pure_bind _ _).symm

theorem reads_ziplistNode {items : List Bytes} {bytes : Bytes} (h : Packed (Ziplist items) bytes) :
    Reads readZiplistNode bytes items := by
  cases h with
  | mk hblob htext =>
    refine htext.reads.map ?_
    intro r
    dsimp only
    rw [decodeZiplist_eq hblob]
    rfl

theorem TaggedNode.reads {items : List Bytes} {bytes : Bytes} (h : TaggedNode items bytes) :
    Reads readTaggedNode bytes items := by
  cases h with
  | plain hkind htext =>
    refine hkind.reads.bind ?_
    exact htext.reads.map fun r => rfl
  | packed hkind hpacked =>
    cases hpacked with
    | mk hblob htext =>
      refine hkind.reads.bind (htext.reads.map ?_)
      intro r
      dsimp only
      rw [decodeListpack_eq hblob]
      rfl

/-- Counted nodes are put together to one list. -/
theorem Counted.reads_nodes {form : List Bytes → Bytes → Prop}
    {node : Reader → Except Fault (List Bytes × Reader)} {nodes : List (List Bytes)} {bytes : Bytes}
    (h : Counted form nodes bytes) (hform : ∀ items bs, form items bs → Reads node bs items) :
    Reads (readNodes node) bytes nodes.flatten := by
  have hassoc : readNodes node = fun r =>
      (readLength r >>= fun p => Reader.many node p.1 p.2) >>= fun q => .ok (q.1.flatten, q.2) := by
    funext r
    rw [bind_assoc]
    rfl
  rw [hassoc]
  exact (h.reads hform).map fun r => rfl

theorem unpackHash_eq {container : Container} {decode : Bytes → Except Fault (List Bytes)}
    {blob : Bytes} {pairs : List (Bytes × Bytes)} (h : decode blob = .ok (inTurn pairs)) :
    unpackHash container decode blob = (Elements.hash pairs).load := by
  unfold unpackHash
  rw [h]
  show (inPairs container (inTurn pairs) >>= _) = _
  rw [inPairs_inTurn]
  rfl

theorem unpackSortedSet_eq {container : Container} {decode : Bytes → Except Fault (List Bytes)}
    {blob : Bytes} {pairs : List (Bytes × Bytes)} (h : decode blob = .ok (inTurn pairs)) :
    unpackSortedSet container decode blob = (Elements.sortedSet pairs).load := by
  unfold unpackSortedSet
  rw [h]
  show (inPairs container (inTurn pairs) >>= _) = _
  rw [inPairs_inTurn, Elements.load]
  show (scored pairs >>= _) = _
  cases scored pairs <;> rfl

/-- **One outcome for every layout and every form.** -/
theorem StoredAs.yields {layout : Layout} {e : Elements} {bytes : Bytes}
    (h : StoredAs layout e bytes) :
    Yields (readValue layout) bytes e.load := by
  -- plain layouts are read as rows of texts; packed ones are expanded first and read as one
  -- container, after which the elements are loaded as they are from a plain one
  cases h with
  | list h => exact h.reads_strings.map fun r => rfl
  | listZiplist h =>
    show Yields (readPacked fun blob => Value.list <$> decodeZiplist blob) bytes _
    refine h.yields fun blob hblob => ?_
    rw [decodeZiplist_eq hblob]
    rfl
  | quicklistZiplist h => exact (h.reads_nodes fun _ _ => reads_ziplistNode).map fun r => rfl
  | quicklistListpack h => exact (h.reads_nodes fun _ _ => TaggedNode.reads).map fun r => rfl
  | set h => exact h.reads_strings.map fun r => rfl
  | setListpack h =>
    show Yields (readPacked fun blob => (Value.set ∘ ByteSet.ofList) <$> decodeListpack blob) bytes _
    refine h.yields fun blob hblob => ?_
    rw [decodeListpack_eq hblob]
    rfl
  | setIntset h =>
    show Yields (readPacked fun blob => (Value.set ∘ ByteSet.ofList) <$> decodeIntset blob) bytes _
    refine h.yields fun blob hblob => ?_
    rw [decodeIntset_eq hblob]
    rfl
  | hash hcount h => exact (h.reads_pairs hcount).map fun r => rfl
  | hashZipmap h => exact h.yields fun _ hblob => unpackHash_eq (decodeZipmap_eq hblob)
  | hashZiplist h => exact h.yields fun _ hblob => unpackHash_eq (decodeZiplist_eq hblob)
  | hashListpack h => exact h.yields fun _ hblob => unpackHash_eq (decodeListpack_eq hblob)
  | @sortedSetText pairs _ h =>
    intro position rest
    show (readScored readTextScore ⟨position, bytes ++ rest⟩ >>= _) = _
    rw [h.yields_members, Elements.load]
    cases scored pairs <;> rfl
  | sortedSetZiplist h => exact h.yields fun _ hblob => unpackSortedSet_eq (decodeZiplist_eq hblob)
  | sortedSetListpack h =>
    exact h.yields fun _ hblob => unpackSortedSet_eq (decodeListpack_eq hblob)

/-! ## §4. What is loaded. -/

namespace Elements

/-- The elements make a value: the items of a list in order, the members of a set, the last
value of every field of a hash, the last score of every member of a sorted set. -/
def Makes : Elements → Value → Prop
  | .list items, .list stored => stored = items
  | .set items, .set stored => ∀ member, stored.contains member = true ↔ member ∈ items
  | .hash pairs, .hash stored => ∀ field, stored.find? field = Assoc.find? field pairs.reverse
  | .sortedSet pairs, .sortedSet stored =>
    ∀ member, stored.score? member = (Assoc.find? member pairs.reverse).bind Score.parse?
  | _, _ => False

/-- Every score text is the text of a number. -/
def Readable : Elements → Prop
  | .sortedSet pairs => ∀ p ∈ pairs, (Score.parse? p.2).isSome = true
  | _ => True

end Elements

theorem scored_of_readable {pairs : List (Bytes × Bytes)}
    (h : ∀ p ∈ pairs, (Score.parse? p.2).isSome = true) :
    ∃ items, scored pairs = .ok items
      ∧ items.map (fun p => (p.1, some p.2)) = pairs.map (fun p => (p.1, Score.parse? p.2)) := by
  induction pairs with
  | nil => exact ⟨[], rfl, rfl⟩
  | cons p pairs ih =>
    obtain ⟨hp, hpairs⟩ := List.forall_mem_cons.1 h
    obtain ⟨items, hscored, htexts⟩ := ih hpairs
    obtain ⟨score, hscore⟩ := Option.isSome_iff_exists.1 hp
    refine ⟨(p.1, score) :: items, ?_, ?_⟩
    · rw [scored, scoreOfText, hscore, hscored]
      rfl
    · rw [List.map_cons, List.map_cons, htexts, hscore]

theorem scored_of_not_readable {pairs : List (Bytes × Bytes)}
    (h : ¬ ∀ p ∈ pairs, (Score.parse? p.2).isSome = true) :
    scored pairs = .error .invalidScore := by
  induction pairs with
  | nil => exact absurd (fun p hp => absurd hp List.not_mem_nil) h
  | cons p pairs ih =>
    rw [scored, scoreOfText]
    cases hscore : Score.parse? p.2 with
    | none => rfl
    | some score =>
      have hrest : ¬ ∀ p ∈ pairs, (Score.parse? p.2).isSome = true := by
        intro hall
        refine h (List.forall_mem_cons.2 ⟨?_, hall⟩)
        rw [hscore]
        rfl
      rw [ih hrest]
      rfl

/-- **Readable elements make a value.** -/
theorem Elements.load_of_readable {e : Elements} (h : e.Readable) :
    ∃ v, e.load = .ok v ∧ e.Makes v := by
  cases e with
  | list items => exact ⟨_, rfl, rfl⟩
  | set items => exact ⟨_, rfl, ByteSet.contains_ofList items⟩
  | hash pairs => exact ⟨_, rfl, ByteMap.find?_ofList pairs⟩
  | sortedSet pairs =>
    obtain ⟨items, hscored, htexts⟩ := scored_of_readable h
    refine ⟨.sortedSet (SortedSet.ofList items), ?_, ?_⟩
    · rw [load, hscored]
      rfl
    · intro member
      -- Scores and texts stand side by side, so the last of a member are side by side too.
      have hlast : (Assoc.find? member items.reverse).map some
          = (Assoc.find? member pairs.reverse).map Score.parse? := by
        rw [← Assoc.find?_map, ← Assoc.find?_map, List.map_reverse, List.map_reverse, htexts]
      rw [SortedSet.score?_ofList]
      cases hitem : Assoc.find? member items.reverse <;>
        cases hpair : Assoc.find? member pairs.reverse <;>
        simp_all

theorem Elements.load_of_not_readable {e : Elements} (h : ¬ e.Readable) :
    e.load = .error .invalidScore := by
  cases e with
  | list items => exact absurd trivial h
  | set items => exact absurd trivial h
  | hash pairs => exact absurd trivial h
  | sortedSet pairs =>
    rw [load, scored_of_not_readable h]
    rfl

/-- **All forms of a collection load alike.**  Its elements make one value, and every layout,
every split into nodes and every form of an element gives that value, also behind its type
byte and a key in a file; if a score text is none, every one of them is refused for it. -/
theorem stored_forms_load_alike (e : Elements) :
    (∀ layout : Layout, Layout.ofCode? layout.code = some layout)
    ∧ (e.Readable → ∃ v, e.Makes v
      ∧ ∀ layout bytes, StoredAs layout e bytes → Reads (readValue layout) bytes v
        ∧ ∀ key form, TextForm key form →
          Reads readItem (layout.code :: (form ++ bytes)) (.entry key v))
    ∧ (¬ e.Readable → ∀ layout bytes, StoredAs layout e bytes → ∀ position rest,
      readValue layout ⟨position, bytes ++ rest⟩ = .error .invalidScore) := by
  refine ⟨Layout.ofCode?_code, ?_, ?_⟩
  · intro hreadable
    obtain ⟨v, hload, hmakes⟩ := Elements.load_of_readable hreadable
    refine ⟨v, hmakes, ?_⟩
    intro layout bytes hstored
    have hreads : Reads (readValue layout) bytes v := by
      intro position rest
      rw [hstored.yields, hload]
      rfl
    exact ⟨hreads, fun key form hkey => reads_stored hkey.reads hreads⟩
  · intro hunreadable layout bytes hstored position rest
    rw [hstored.yields, Elements.load_of_not_readable hunreadable]
    rfl

/-- A hash that stores a field twice, plain, in a listpack, under a key behind the type byte of
that, and in a compressed listpack, and a sorted set in a ziplist of which the score text is
none. -/
theorem stored_forms_load_alike_repeatedField :
    (∃ v, (Elements.hash [([102], [55]), ([102], [49, 50])]).Makes v
      ∧ Reads (readValue .hash) [2, 1, 102, 0xC0, 7, 1, 102, 2, 49, 50] v
      ∧ Reads (readValue .hashListpack)
        [17, 17, 0, 0, 0, 4, 0, 0x81, 102, 2, 7, 1, 0x81, 102, 2, 12, 1, 0xFF] v
      ∧ Reads readItem
        [16, 1, 107, 17, 17, 0, 0, 0, 4, 0, 0x81, 102, 2, 7, 1, 0x81, 102, 2, 12, 1, 0xFF]
        (.entry [107] v)
      ∧ Reads (readValue .hashListpack)
        [0xC3, 18, 17, 16, 17, 0, 0, 0, 4, 0, 0x81, 102, 2, 7, 1, 0x81, 102, 2, 12, 1, 0xFF] v)
    ∧ readValue .sortedSetZiplist
        (Reader.start [17, 17, 0, 0, 0, 13, 0, 0, 0, 2, 0, 0, 1, 109, 3, 1, 120, 0xFF])
      = .error .invalidScore := by
  have hfield : TextForm [102] [1, 102] := @TextForm.plain [102] [1] (.six (by decide))
  have hseven : TextForm [55] [0xC0, 7] :=
    .integer (show ((0xC0 : UInt8), 1) ∈ integerForms by decide)
      (.mk (i := 7) (by decide) (by decide))
  have htwelve : TextForm [49, 50] [2, 49, 50] := @TextForm.plain [49, 50] [2] (.six (by decide))
  have hpairs :
      Row PairForm [([102], [55]), ([102], [49, 50])] [1, 102, 0xC0, 7, 1, 102, 2, 49, 50] :=
    .cons (PairForm.mk hfield hseven) (.cons (PairForm.mk hfield htwelve) .nil)
  have hplain : StoredAs .hash (.hash [([102], [55]), ([102], [49, 50])])
      [2, 1, 102, 0xC0, 7, 1, 102, 2, 49, 50] :=
    .hash (by decide) (@Counted.mk _ _ _ [2] _ (.six (by decide)) hpairs)
  have hname : ListpackEntry [102] [0x81, 102] := @ListpackEntry.short [102] (by decide)
  have hlistpack : Listpack [[102], [55], [102], [49, 50]]
      [17, 0, 0, 0, 4, 0, 0x81, 102, 2, 7, 1, 0x81, 102, 2, 12, 1, 0xFF] :=
    @Listpack.mk _ [17, 0, 0, 0] _ _ rfl (.counted (by decide))
      (.cons hname (.one (by decide)) (.cons (.tiny (n := 7) (by decide)) (.one (by decide))
        (.cons hname (.one (by decide)) (.cons (.tiny (n := 12) (by decide)) (.one (by decide)) .nil))))
  have hpacked : StoredAs .hashListpack (.hash [([102], [55]), ([102], [49, 50])])
      [17, 17, 0, 0, 0, 4, 0, 0x81, 102, 2, 7, 1, 0x81, 102, 2, 12, 1, 0xFF] :=
    .hashListpack (.mk hlistpack (@TextForm.plain _ [17] (.six (by decide))))
  have hcompressed : StoredAs .hashListpack (.hash [([102], [55]), ([102], [49, 50])])
      [0xC3, 18, 17, 16, 17, 0, 0, 0, 4, 0, 0x81, 102, 2, 7, 1, 0x81, 102, 2, 12, 1, 0xFF] :=
    .hashListpack (.mk hlistpack
      (@TextForm.compressed _ [18] [17]
        [.literal [17, 0, 0, 0, 4, 0, 0x81, 102, 2, 7, 1, 0x81, 102, 2, 12, 1, 0xFF]]
        ⟨⟨by decide, by decide, List.prefix_rfl⟩, rfl⟩ (.six (by decide)) (.six (by decide))))
  have hziplist : Ziplist [[109], [120]]
      [17, 0, 0, 0, 13, 0, 0, 0, 2, 0, 0, 1, 109, 3, 1, 120, 0xFF] :=
    @Ziplist.mk _ [17, 0, 0, 0, 13, 0, 0, 0] _ _ rfl (.counted (by decide))
      (.cons (.short (by decide)) (@ZiplistEntry.short [109] (by decide))
        (.cons (.short (by decide)) (@ZiplistEntry.short [120] (by decide)) .nil))
  have hunread : StoredAs .sortedSetZiplist (.sortedSet [([109], [120])])
      [17, 17, 0, 0, 0, 13, 0, 0, 0, 2, 0, 0, 1, 109, 3, 1, 120, 0xFF] :=
    .sortedSetZiplist (.mk hziplist (@TextForm.plain _ [17] (.six (by decide))))
  have hkey : TextForm [107] [1, 107] := @TextForm.plain [107] [1] (.six (by decide))
  obtain ⟨-, hreadable, -⟩ := stored_forms_load_alike (.hash [([102], [55]), ([102], [49, 50])])
  obtain ⟨v, hmakes, hreads⟩ := hreadable trivial
  refine ⟨⟨v, hmakes, (hreads _ _ hplain).1, (hreads _ _ hpacked).1,
    (hreads _ _ hpacked).2 _ _ hkey, (hreads _ _ hcompressed).1⟩, ?_⟩
  obtain ⟨-, -, hrefused⟩ := stored_forms_load_alike (.sortedSet [([109], [120])])
  refine hrefused ?_ _ _ hunread 0 []
  intro hreadable
  exact absurd (hreadable _ List.mem_cons_self) (by decide)

end DurableStore.Snapshot
