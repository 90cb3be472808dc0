/-
  DurableStore.Proofs.Snapshot.Wholeness
  ────────────────────────────────
  **A CONTAINER IS DECODED WHOLE OR NOT AT ALL.**

  A packed container ends with a marker, or says at its front how long it
  is.  So a decoder that was given less than a whole container finds out:
  it BREAKS OFF, whatever the forms of the entries are and wherever the cut
  is, be it in a header, in the bytes of an entry, or in bytes that are
  passed over without a look.

      Needs decode bytes  — from a shorter front it ends unexpectedly

  What a decoder reads it needs, and what is decoded behind that is needed
  as well.  Bytes that are passed over may be missing without notice, but
  then the byte behind them is missing too (`Needs.skip`).

  Main results:
    * `ziplist_listpack_exact` — containers with a count are decoded to their
      entries if the count is theirs or is left open, and else refused;
    * `zipmap_intset_exact` — containers without one are decoded to theirs;
    * and every one of them is refused wherever it is cut.
-/
import DurableStore.Proofs.Snapshot.Containers
import DurableStore.Proofs.Snapshot.Truncation

namespace DurableStore.Snapshot

variable {α β : Type}

/-! ## §1. Decoders that need all of their bytes. -/

/-- What is read is needed, and so is what is decoded behind it. -/
theorem Tight.needs_bind {first : Reader → Except Fault (α × Reader)}
    {next : α × Reader → Except Fault β} {s t : Bytes} {a : α} (hfirst : Tight first)
    (hreads : Reads first s a) (hnext : Needs (fun r => next (a, r)) t) :
    Needs (fun r => first r >>= next) (s ++ t) :=
  (hfirst.needs hreads).bind hreads hnext

/-- Bytes that are passed over without a look, before others that are missed. -/
theorem Needs.skip {next : Reader → Except Fault α} {s t : Bytes} {n : Nat} (hlength : s.length = n)
    (hne : t ≠ []) (hnext : Needs next t) : Needs (fun r => next (r.skip n)) (s ++ t) := by
  have hpos : 0 < t.length := List.length_pos_iff.2 hne
  intro k hk position
  show BrokenOff (next ⟨position + n, ((s ++ t).take k).drop n⟩)
  rcases Nat.lt_or_ge k n with hcut | hcut
  · have hnone : ((s ++ t).take k).drop n = t.take 0 := by
      rw [List.take_zero, List.drop_eq_nil_iff, List.length_take]
      omega
    rw [hnone]
    exact hnext 0 hpos _
  · have hrest : ((s ++ t).take k).drop n = t.take (k - n) := by
      rw [List.take_append, List.take_of_length_le (by omega), ← hlength, List.drop_left]
    rw [List.length_append] at hk
    rw [hrest]
    exact hnext (k - n) (by omega) _

/-- What is done with the outcome does not matter. -/
theorem Needs.andThen {read : Reader → Except Fault α} {bytes : Bytes} (h : Needs read bytes)
    (next : α → Except Fault β) : Needs (fun r => read r >>= next) bytes :=
  fun k hk position => (h k hk position).bind next

theorem Needs.map {read : Reader → Except Fault α} {bytes : Bytes} (h : Needs read bytes)
    (f : α → β) : Needs (fun r => f <$> read r) bytes := by
  intro k hk position
  obtain ⟨stop, needed, hbroken⟩ := h k hk position
  exact ⟨stop, needed, congrArg (f <$> ·) hbroken⟩

/-- Where the end marker alone is left, it is missing. -/
theorem needs_end {read : Reader → Except Fault α}
    (h : ∀ position, BrokenOff (read ⟨position, []⟩)) :
    Needs read [endMarker] := by
  intro k hk position
  obtain rfl : k = 0 := Nat.lt_one_iff.1 hk
  exact h position

/-- Cut anywhere, a container is refused by its name as one that breaks off. -/
def RefusesCut (container : Container) (decode : Bytes → Except Fault (List Bytes)) (blob : Bytes) :
    Prop :=
  ∀ k < blob.length, ∃ position,
    decode (blob.take k) = .error (.invalidContainer container (.truncated position))

theorem BrokenOff.inContainer {container : Container} {blob : Bytes}
    {decode : Reader → Except Fault α} (h : BrokenOff (decode (Reader.start blob))) : ∃ position,
      inContainer container blob decode = .error (.invalidContainer container (.truncated position)) := by
  obtain ⟨position, needed, hbroken⟩ := h
  refine ⟨position, ?_⟩
  unfold Snapshot.inContainer
  rw [hbroken]

/-- The budget of a decoder may depend on the container that it is given. -/
theorem refusesCut_of_needs {container : Container} {blob : Bytes}
    {decode : Bytes → Reader → Except Fault (List Bytes)} (h : ∀ given, Needs (decode given) blob) :
    RefusesCut container (fun given => inContainer container given (decode given)) blob :=
  fun k hk => (h (blob.take k) k hk 0).inContainer

/-! ## §2. Entries of ziplists and listpacks. -/

theorem tight_readDecimal (width : Nat) : Tight (readDecimal · width) :=
  .bind (tight_intLE width) fun _ => tight_pure _

theorem tight_ziplistEntry (header : UInt8) : Tight (ziplistEntry header) := by
  refine .ite (tight_take _) (.ite (.bind tight_byte fun low => tight_take _) ?_)
  refine .ite (.bind (tight_natBE 4) fun length => tight_take length) ?_
  refine .ite (tight_readDecimal 2) (.ite (tight_readDecimal 4) (.ite (tight_readDecimal 8) ?_))
  refine .ite (tight_readDecimal 3) (.ite (tight_readDecimal 1) ?_)
  exact .ite (tight_pure _) (tight_error _)

/-- The entry of a listpack, one case for each kind of header. -/
theorem tight_sizedEntry (header : UInt8) : Tight (sizedEntry header) := by
  unfold sizedEntry listpackEntry
  simp only [apply_ite (Functor.map _), map_bind]
  refine .ite (tight_pure (Bytes.ofNat header.toNat, 1)) (.ite ?_ (.ite ?_ (.ite ?_ (.ite ?_ ?_))))
  · exact .bind (tight_take _) fun value => tight_pure (value, 1 + header.toNat % 64)
  · refine .bind tight_byte fun low => ?_
    dsimp only
    exact tight_pure (_, 2)
  · refine .bind tight_byte fun low => ?_
    dsimp only
    exact .bind (tight_take _) fun value => tight_pure (value, _)
  · refine .bind (tight_natLE 4) fun length => ?_
    dsimp only
    exact .bind (tight_take length) fun value => tight_pure (value, 5 + length)
  · refine .ite (.bind (tight_readDecimal _) fun value => ?_) (tight_error _)
    exact tight_pure (value, 1 + if header.toNat = 0xF4 then 8 else header.toNat - 0xF0 + 1)

/-- **The entries of a ziplist are needed up to the end marker**, by induction on them: one
entry more is a length that is passed over, the entry, and the entries behind it. -/
theorem ZiplistEntries.needs {previous : Nat} {items : List Bytes} {bytes : Bytes}
    (h : ZiplistEntries previous items bytes) (budget : Nat) :
    Needs (ziplistEntries budget) (bytes ++ [endMarker]) := by
  induction h generalizing budget with
  | nil => exact needs_end fun position => by cases budget <;> exact ⟨position, 1, rfl⟩
  | @cons previous item items before entry after hbefore hentry hrest ih =>
    intro k hk position
    cases budget with
    | zero => exact ⟨position, 1, rfl⟩
    | succ budget =>
      have hbehind : Needs (fun r => (fun r => r.byte >>= fun p => ziplistEntry p.1 p.2) r
          >>= fun p => (p.1 :: ·) <$> ziplistEntries budget p.2) (entry ++ (after ++ [endMarker])) :=
        Tight.needs_bind (.bind tight_byte fun header => tight_ziplistEntry header) hentry.reads
          ((ih budget).map (item :: ·))
      -- The header of the entry is missed where the length before it is passed over.
      obtain ⟨first, tail, rfl, hfirst, hskip⟩ := hbefore.skipped
      have hneeds := hbehind.skip (s := tail) rfl (by simp)
      simp only [List.cons_append, List.append_assoc, List.length_cons] at hk ⊢
      cases k with
      | zero => exact ⟨position, 1, rfl⟩
      | succ k =>
        rw [List.take_succ_cons, ziplistEntries_succ hfirst, hskip]
        exact hneeds k (Nat.lt_of_succ_lt_succ hk) (position + 1)

/-- **The entries of a listpack are needed up to the end marker**, by induction on them: one
entry more is the entry, a length that is passed over, and the entries behind it. -/
theorem ListpackEntries.needs {items : List Bytes} {bytes : Bytes} (h : ListpackEntries items bytes)
    (budget : Nat) : Needs (listpackEntries budget) (bytes ++ [endMarker]) := by
  induction h generalizing budget with
  | nil => exact needs_end fun position => by cases budget <;> exact ⟨position, 1, rfl⟩
  | @cons item items entry back after hentry hback hrest ih =>
    intro k hk position
    cases budget with
    | zero => exact ⟨position, 1, rfl⟩
    | succ budget =>
      have hbehind : Needs (fun r => (fun r => r.byte >>= fun p => sizedEntry p.1 p.2) r
          >>= fun p => (p.1.1 :: ·) <$> listpackEntries budget (p.2.skip (backLengthSize p.1.2)))
          (entry ++ (back ++ (after ++ [endMarker]))) :=
        Tight.needs_bind (.bind tight_byte fun header => tight_sizedEntry header) hentry.reads
          ((Needs.skip hback.length_eq (by simp) (ih budget)).map (item :: ·))
      obtain ⟨header, tail, rfl, hheader⟩ := hentry.header_ne
      simp only [List.cons_append, List.append_assoc, List.length_cons] at hk hbehind ⊢
      cases k with
      | zero => exact ⟨position, 1, rfl⟩
      | succ k =>
        rw [List.take_succ_cons, listpackEntries_succ hheader, ← List.take_succ_cons]
        exact hbehind (k + 1) hk position

/-! ## §3. Ziplists and listpacks. -/

/-- A container with a count: sizes, the count that is declared, the entries and the end
marker. -/
def counted (sizes : Bytes) (declared : Nat) (entries : Bytes) : Bytes :=
  sizes ++ Bytes.ofNatLE 2 declared ++ (entries ++ [endMarker])

/-- A decoder returns the entries of a container with a count if the count is theirs or is left
open.  With every other count, and wherever it is cut, it refuses the container. -/
structure DecodesExactly (container : Container) (decode : Bytes → Except Fault (List Bytes))
    (items : List Bytes) (sizes entries : Bytes) : Prop where
  counted : ∀ declared ≤ 0xFFFF, decode (counted sizes declared entries)
    = if declared = items.length ∨ declared = 0xFFFF then .ok items
      else .error (.invalidContainer container (.miscounted declared items.length))
  cut : ∀ declared, RefusesCut container decode (Snapshot.counted sizes declared entries)

theorem checkCount_ofNatLE (container : Container) (items : List Bytes) {declared : Nat}
    (h : declared ≤ 0xFFFF) :
    checkCount container (Bytes.toNatLE (Bytes.ofNatLE 2 declared)) items
      = if declared = items.length ∨ declared = 0xFFFF then .ok items
        else .error (.invalidContainer container (.miscounted declared items.length)) := by
  have hread : Bytes.toNatLE (Bytes.ofNatLE 2 declared) = declared := by
    rw [Bytes.toNatLE_ofNatLE]
    show declared % 65536 = declared
    omega
  rw [hread]
  unfold checkCount uncounted
  by_cases htrue : declared = items.length ∨ declared = 0xFFFF
  · rw [if_pos htrue, if_neg (by omega)]
  · rw [if_neg htrue, if_pos (by omega)]

/-- **A container with a count is decoded exactly** if its entries are read up to the end marker
and are needed up to there.  The length of what is given to the decoder is budget enough. -/
theorem decodesExactly_of_entries {container : Container} {items : List Bytes} {sizes body : Bytes}
    {entries : Nat → Reader → Except Fault (List Bytes)} {before : Nat} (hsizes : sizes.length = before)
    (hlength : items.length ≤ body.length)
    (hentries : ∀ budget, items.length < budget → ∀ position,
      entries budget ⟨position, body ++ [endMarker]⟩ = .ok items)
    (hneeds : ∀ budget, Needs (entries budget) (body ++ [endMarker])) :
    DecodesExactly container
      (fun blob => inContainer container blob fun r => do
        let (header, r) ← r.take (before + 2)
        let items ← entries blob.length r
        checkCount container (Bytes.toNatLE (header.drop before)) items)
      items sizes body := by
  refine ⟨?_, ?_⟩
  · intro declared hdeclared
    have hcount := Bytes.length_ofNatLE 2 declared
    refine (decode_counted hsizes hcount hlength hentries).trans ?_
    exact checkCount_ofNatLE container items hdeclared
  · intro declared
    have hheader : (sizes ++ Bytes.ofNatLE 2 declared).length = before + 2 := by
      rw [List.length_append, hsizes, Bytes.length_ofNatLE]
    have hreads := reads_take (sizes ++ Bytes.ofNatLE 2 declared)
    rw [hheader] at hreads
    refine refusesCut_of_needs fun given => ?_
    exact (tight_take (before + 2)).needs_bind hreads ((hneeds given.length).andThen _)

/-- **Ziplists and listpacks are decoded whole or not at all**, whichever forms their entries
and the lengths beside them have.  The count that is declared is that of the entries or says
that there are too many to count. -/
theorem ziplist_listpack_exact :
    (∀ items sizes entries, sizes.length = 8 → ZiplistEntries 0 items entries →
      DecodesExactly .ziplist decodeZiplist items sizes entries)
      ∧ ∀ items sizes entries, sizes.length = 4 → ListpackEntries items entries →
          DecodesExactly .listpack decodeListpack items sizes entries := by
  constructor
  · intro items sizes entries hsizes hentries
    refine decodesExactly_of_entries hsizes hentries.length_le ?_ hentries.needs
    intro budget hbudget position
    exact hentries.decode hbudget position []
  · intro items sizes entries hsizes hentries
    refine decodesExactly_of_entries hsizes hentries.length_le ?_ hentries.needs
    intro budget hbudget position
    exact hentries.decode hbudget position []

/-- Five entries of a ziplist in five forms, the length before the second in five bytes though
one would do, and four entries of a listpack. -/
theorem ziplist_listpack_exact_mixedForms :
    DecodesExactly .ziplist decodeZiplist
        [[97, 98, 99], [45, 49, 48, 48], [56, 51, 56, 56, 54, 48, 55], [49, 50], []]
        [36, 0, 0, 0, 33, 0, 0, 0]
        [0, 0x40, 3, 97, 98, 99, 0xFE, 6, 0, 0, 0, 0xFE, 0x9C, 7, 0xF0, 0xFF, 0xFF, 0x7F, 5, 0xFD, 2, 0]
      ∧ DecodesExactly .listpack decodeListpack
          [[53], [45, 49], [104, 105], [49, 48, 48, 48, 48, 48, 48]]
          [22, 0, 0, 0]
          [5, 1, 0xDF, 0xFF, 2, 0xE0, 2, 104, 105, 4, 0xF3, 0x40, 0x42, 0x0F, 0, 5] := by
  have htext : ZiplistEntry [97, 98, 99] [0x40, 3, 97, 98, 99] :=
    @ZiplistEntry.medium [97, 98, 99] (by decide)
  have hbyte : ZiplistEntry [45, 49, 48, 48] [0xFE, 0x9C] :=
    .integer (show ((0xFE : UInt8), 1) ∈ ziplistIntegers by decide)
      (.mk (i := -100) (by decide) (by decide))
  have hthree : ZiplistEntry [56, 51, 56, 56, 54, 48, 55] [0xF0, 0xFF, 0xFF, 0x7F] :=
    .integer (show ((0xF0 : UInt8), 3) ∈ ziplistIntegers by decide)
      (.mk (i := 8388607) (by decide) (by decide))
  have hziplist : ZiplistEntries 0
      [[97, 98, 99], [45, 49, 48, 48], [56, 51, 56, 56, 54, 48, 55], [49, 50], []]
      [0, 0x40, 3, 97, 98, 99, 0xFE, 6, 0, 0, 0, 0xFE, 0x9C, 7, 0xF0, 0xFF, 0xFF, 0x7F, 5, 0xFD, 2, 0] :=
    .cons (.short (by decide)) htext (.cons (.long (by decide)) hbyte
      (.cons (.short (by decide)) hthree (.cons (.short (by decide)) (.immediate (n := 12) (by decide))
        (.cons (.short (by decide)) (@ZiplistEntry.short [] (by decide)) .nil))))
  have hsmall : ListpackEntry [45, 49] [0xDF, 0xFF] := by
    have hbits : Bytes.ofSigned 13 (-1) = 8191 := by decide
    have hentry := @ListpackEntry.small (-1) (by decide) (by decide)
    rw [hbits] at hentry
    exact hentry
  have hname : ListpackEntry [104, 105] [0xE0, 2, 104, 105] :=
    @ListpackEntry.medium [104, 105] (by decide)
  have hfour : ListpackEntry [49, 48, 48, 48, 48, 48, 48] [0xF3, 0x40, 0x42, 0x0F, 0] :=
    .integer (show ((0xF3 : UInt8), 4) ∈ listpackIntegers by decide)
      (.mk (i := 1000000) (by decide) (by decide))
  have hlistpack : ListpackEntries [[53], [45, 49], [104, 105], [49, 48, 48, 48, 48, 48, 48]]
      [5, 1, 0xDF, 0xFF, 2, 0xE0, 2, 104, 105, 4, 0xF3, 0x40, 0x42, 0x0F, 0, 5] :=
    .cons (.tiny (n := 5) (by decide)) (.one (by decide)) (.cons hsmall (.one (by decide))
      (.cons hname (.one (by decide)) (.cons hfour (.one (by decide)) .nil)))
  exact ⟨ziplist_listpack_exact.1 _ _ _ rfl hziplist, ziplist_listpack_exact.2 _ _ _ rfl hlistpack⟩

/-! ## §4. Zipmaps and intsets. -/

theorem tight_zipmapLength : Tight zipmapLength := by
  refine .bind tight_byte fun first => .ite (tight_pure none) (.ite ?_ (tight_pure _))
  exact .bind (tight_natLE 4) fun length => tight_pure (some length)

/-- **The fields and values of a zipmap are needed up to the end marker**, by induction on
them: two lengths, two strings and the size of the unused space are read, and the space is
passed over. -/
theorem ZipmapEntries.needs {pairs : List (Bytes × Bytes)} {bytes : Bytes}
    (h : ZipmapEntries pairs bytes) (budget : Nat) :
    Needs (zipmapEntries budget) (bytes ++ [endMarker]) := by
  induction h generalizing budget with
  | nil => exact needs_end fun position => by cases budget <;> exact ⟨position, 1, rfl⟩
  | @cons field value pairs fieldLength valueLength unused after hfield hvalue hunused hrest ih =>
    cases budget with
    | zero => exact fun k hk position => ⟨position, 1, rfl⟩
    | succ budget =>
      have hbyte := Lzf.toNat_ofNat_of_lt hunused
      have hspace : Needs (fun r : Reader => zipmapEntries budget
          (r.skip (UInt8.ofNat unused.length).toNat)) (unused ++ (after ++ [endMarker])) :=
        .skip hbyte.symm (by simp) (ih budget)
      simp only [List.append_assoc]
      refine tight_zipmapLength.needs_bind hfield.reads ?_
      refine (tight_take _).needs_bind (reads_take field) ?_
      refine tight_zipmapLength.needs_bind hvalue.reads ?_
      refine tight_byte.needs_bind (reads_byte (UInt8.ofNat unused.length)) ?_
      refine (tight_take _).needs_bind (reads_take value) ?_
      exact hspace.andThen _

theorem Zipmap.refusesCut {pairs : List (Bytes × Bytes)} {blob : Bytes} (h : Zipmap pairs blob) :
    RefusesCut .zipmap decodeZipmap blob := by
  cases h with
  | @mk count entries hentries =>
    refine refusesCut_of_needs fun given => ?_
    exact Needs.skip (s := [count]) rfl (by simp) (hentries.needs (given.length + 1))

/-- The integers that a width holds. -/
def FitsWidth (width : Nat) (i : Int) : Prop :=
  -(Nat.pow 2 (8 * width - 1) : Int) ≤ i ∧ i < (Nat.pow 2 (8 * width - 1) : Int)

instance (width : Nat) (i : Int) :
    Decidable (FitsWidth width i) := inferInstanceAs (Decidable (_ ∧ _))

/-- The intset of some integers: a width, their number, and all of them in that width. -/
def intsetOf (width : Nat) (integers : List Int) : Bytes :=
  Bytes.ofNatLE 4 width ++ (Bytes.ofNatLE 4 integers.length
    ++ integers.flatMap fun i => Bytes.ofNatLE width (Bytes.ofSigned (8 * width) i))

theorem intset_intsetOf {width : Nat} {integers : List Int}
    (hwidth : width = 2 ∨ width = 4 ∨ width = 8)
    (hcount : integers.length < Bytes.u32Bound) (hfits : ∀ i ∈ integers, FitsWidth width i) :
    Intset (integers.map Bytes.ofInt) (intsetOf width integers) := by
  have hrow : Row (DecimalForm width) (integers.map Bytes.ofInt)
      (integers.flatMap fun i => Bytes.ofNatLE width (Bytes.ofSigned (8 * width) i)) := by
    clear hcount
    induction integers with
    | nil => exact .nil
    | cons i integers ih =>
      obtain ⟨hi, hintegers⟩ := List.forall_mem_cons.1 hfits
      exact .cons (.mk hi.1 hi.2) (ih hintegers)
  have hlength : (integers.map Bytes.ofInt).length = integers.length := List.length_map _
  have hintset := Intset.mk hwidth (hlength ▸ hcount) hrow
  rw [hlength] at hintset
  exact hintset

/-- An intset says at its front how many bytes it takes, and needs all of them. -/
theorem Intset.refusesCut {items : List Bytes} {blob : Bytes} (h : Intset items blob) :
    RefusesCut .intset decodeIntset blob := by
  cases h with
  | @mk width contents hwidth hcount hitems =>
    have hknown : ¬ (width ≠ 2 ∧ width ≠ 4 ∧ width ≠ 8) := by omega
    have hfits : width < Nat.pow 256 4 := by
      show width < 4294967296
      omega
    have htake := reads_take contents
    rw [length_row_decimal hitems] at htake
    have hneeds := (tight_take (items.length * width)).needs htake
    refine refusesCut_of_needs fun given => ?_
    refine (tight_natLE 4).needs_bind (reads_natLE hfits) ?_
    refine (tight_natLE 4).needs_bind (reads_natLE hcount) ?_
    simp only [if_neg hknown]
    exact hneeds.andThen _

/-- **Zipmaps and intsets are decoded whole or not at all**: a zipmap to its fields and values
in turn, whichever forms their lengths have and whatever fills the space behind the values,
and an intset to the decimal texts of its integers. -/
theorem zipmap_intset_exact :
    (∀ pairs blob, Zipmap pairs blob →
      decodeZipmap blob = .ok (inTurn pairs) ∧ RefusesCut .zipmap decodeZipmap blob)
      ∧ ∀ width integers, width ∈ [2, 4, 8] → integers.length < Bytes.u32Bound →
          (∀ i ∈ integers, FitsWidth width i) →
          decodeIntset (intsetOf width integers) = .ok (integers.map Bytes.ofInt)
            ∧ RefusesCut .intset decodeIntset (intsetOf width integers) := by
  constructor
  · intro pairs blob hzipmap
    exact ⟨decodeZipmap_eq hzipmap, hzipmap.refusesCut⟩
  · intro width integers hwidth hcount hfits
    have hknown : width = 2 ∨ width = 4 ∨ width = 8 := by simpa using hwidth
    have hintset := intset_intsetOf hknown hcount hfits
    exact ⟨decodeIntset_eq hintset, hintset.refusesCut⟩

/-- A zipmap with a length in five bytes, and unused space that looks like an end marker, and
an intset with the least and the greatest integer of its width. -/
theorem zipmap_intset_exact_extremes :
    (decodeZipmap [2, 1, 97, 2, 1, 255, 118, 255, 0xFE, 1, 0, 0, 0, 98, 0, 2, 3, 4, 255]
          = .ok [[97], [255, 118], [98], []]
        ∧ RefusesCut .zipmap decodeZipmap
            [2, 1, 97, 2, 1, 255, 118, 255, 0xFE, 1, 0, 0, 0, 98, 0, 2, 3, 4, 255])
      ∧ decodeIntset (intsetOf 2 [-32768, 0, 32767])
          = .ok ([-32768, 0, 32767].map Bytes.ofInt)
        ∧ RefusesCut .intset decodeIntset (intsetOf 2 [-32768, 0, 32767]) := by
  have hfirst : ZipmapEntries [([97], [255, 118]), ([98], [])]
      [1, 97, 2, 1, 255, 118, 255, 0xFE, 1, 0, 0, 0, 98, 0, 2, 3, 4] :=
    @ZipmapEntries.cons [97] [255, 118] _ [1] [2] [255] _ (.short (by decide)) (.short (by decide))
      (by decide) (@ZipmapEntries.cons [98] [] _ _ [0] [3, 4] _ (.long (by decide)) (.short (by decide))
        (by decide) .nil)
  exact ⟨zipmap_intset_exact.1 _ _ (@Zipmap.mk _ 2 _ hfirst),
    zipmap_intset_exact.2 2 [-32768, 0, 32767] (by decide) (by decide) (by decide)⟩

end DurableStore.Snapshot
