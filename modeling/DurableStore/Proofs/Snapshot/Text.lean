/-
  DurableStore.Proofs.Snapshot.Text
  ────────────────────────────────
  **STRINGS OF A SNAPSHOT FILE READ BACK.**

  A decoder READS a value from some bytes when it returns the value in front
  of whatever follows them, with the reader moved behind them:

      read ⟨position, bytes ++ rest⟩ = ok (value, ⟨position + |bytes|, rest⟩)

  A length has four forms and a string has three, each with its own first
  byte:

      LengthForm n bytes     — the bytes are a form of the length
      TextForm text bytes    — the bytes are a form of the string

  The writer chooses one of them, and the reader takes every one of them.

  Main results:
    * `LengthForm.reads`, `TextForm.reads` — every form is read;
    * `reads_length`, `reads_string` — what is written is read back;
    * `string_in_place` — in the middle of a file too, where it is taken for
      no other string.
-/
import DurableStore.Snapshot.Text
import DurableStore.Proofs.Bytes.Decimal
import DurableStore.Proofs.Snapshot.Lzf

namespace DurableStore

/-! ## §1. Two's complement. -/

namespace Bytes

theorem ofSigned_lt (bits : Nat) (i : Int) : ofSigned bits i < Nat.pow 2 bits := by
  have hpos : 0 < Nat.pow 2 bits := Nat.pow_pos (by decide)
  generalize hp : Nat.pow 2 bits = p at hpos
  unfold ofSigned
  rw [hp]
  have hlt := Int.emod_lt_of_pos i (Int.natCast_pos.2 hpos)
  have hnonneg := Int.emod_nonneg i (Int.ne_of_gt (Int.natCast_pos.2 hpos))
  omega

/-- A two's complement of `w` bytes fits in them. -/
theorem ofSigned_lt_bytes (w : Nat) (i : Int) : ofSigned (8 * w) i < Nat.pow 256 w := by
  have hlt := ofSigned_lt (8 * w) i
  rw [Nat.pow_eq, Nat.pow_mul] at hlt
  exact hlt

/-- **A number in range is read back from its two's complement.** -/
theorem toSigned_ofSigned {bits : Nat} {i : Int} (hbits : 0 < bits)
    (hlow : -(Nat.pow 2 (bits - 1) : Int) ≤ i) (hhigh : i < (Nat.pow 2 (bits - 1) : Int)) :
    toSigned bits (ofSigned bits i) = i := by
  have htwice : Nat.pow 2 bits = 2 * Nat.pow 2 (bits - 1) := by
    obtain ⟨k, rfl⟩ : ∃ k, bits = k + 1 := ⟨bits - 1, by omega⟩
    rw [Nat.pow_eq, Nat.pow_eq, Nat.pow_succ', Nat.add_sub_cancel]
  unfold toSigned ofSigned
  rw [htwice]
  generalize Nat.pow 2 (bits - 1) = half at hlow hhigh
  by_cases hneg : 0 ≤ i
  · have hmod : i % ((2 * half : Nat) : Int) = i := Int.emod_eq_of_lt hneg (by omega)
    rw [hmod, if_pos (by omega)]
    omega
  · have hmod : i % ((2 * half : Nat) : Int) = i + (2 * half : Nat) := by
      rw [← Int.add_emod_right]
      exact Int.emod_eq_of_lt (by omega) (by omega)
    rw [hmod, if_neg (by omega)]
    omega

end Bytes

namespace Snapshot

/-! ## §2. Reading exactly so many bytes. -/

/-- A decoder returns a value from exactly these bytes. -/
def Reads {α : Type} (read : Reader → Except Fault (α × Reader)) (bytes : Bytes) (value : α) :
    Prop :=
  ∀ position rest, read ⟨position, bytes ++ rest⟩ = .ok (value, ⟨position + bytes.length, rest⟩)

variable {α β : Type}

theorem reads_pure (value : α) : Reads (fun r => .ok (value, r)) [] value :=
  fun _ _ => rfl

/-- A decoder goes on behind what was read. -/
theorem Reads.step {first : Reader → Except Fault (α × Reader)} {s : Bytes} {a : α}
    (h : Reads first s a) (next : α × Reader → Except Fault β) (position : Nat) (rest : Bytes) :
    (first ⟨position, s ++ rest⟩ >>= next) = next (a, ⟨position + s.length, rest⟩) := by
  rw [h position rest]
  rfl

/-- **Decoders in a row read bytes in a row.** -/
theorem Reads.bind {first : Reader → Except Fault (α × Reader)}
    {next : α × Reader → Except Fault (β × Reader)} {s t : Bytes} {a : α} {b : β}
    (ha : Reads first s a) (hb : Reads (fun r => next (a, r)) t b) :
    Reads (fun r => first r >>= next) (s ++ t) b := by
  intro position rest
  show first _ >>= next = _
  rw [List.append_assoc, ha.step next, List.length_append, ← Nat.add_assoc]
  exact hb (position + s.length) rest

/-- A value that is only passed on under another form. -/
theorem Reads.map {read : Reader → Except Fault (α × Reader)} {bs : Bytes} {a : α} {b : β}
    {next : α × Reader → Except Fault (β × Reader)} (h : Reads read bs a)
    (hnext : ∀ r, next (a, r) = .ok (b, r)) : Reads (fun r => read r >>= next) bs b := by
  have hpass : Reads (fun r => next (a, r)) [] b := fun position rest => hnext _
  have hboth := h.bind hpass
  rw [List.append_nil] at hboth
  exact hboth

/-- A look at the first byte, which is not taken. -/
theorem Reads.peek {next : UInt8 × Reader → Reader → Except Fault (α × Reader)} {bs : Bytes} {a : α}
    (hne : bs ≠ []) (h : ∀ first after, Reads (next (first, after)) bs a) :
    Reads (fun r => r.byte >>= fun p => next p r) bs a := by
  intro position rest
  cases bs with
  | nil => exact absurd rfl hne
  | cons b bs => exact h b ⟨position + 1, bs ++ rest⟩ position rest

theorem reads_byte (b : UInt8) : Reads Reader.byte [b] b :=
  fun _ _ => rfl

/-- A first byte, and what comes behind it. -/
theorem Reads.byte {next : UInt8 × Reader → Except Fault (α × Reader)} {b : UInt8} {t : Bytes}
    {a : α} (h : Reads (fun r => next (b, r)) t a) : Reads (fun r => r.byte >>= next) (b :: t) a :=
  (reads_byte b).bind h

theorem reads_take (bytes : Bytes) : Reads (Reader.take · bytes.length) bytes bytes := by
  intro position rest
  unfold Reader.take Reader.skip
  dsimp only
  rw [List.take_left, if_neg (Nat.lt_irrefl _), List.drop_left]

theorem reads_natLE {w n : Nat} (h : n < Nat.pow 256 w) :
    Reads (Reader.natLE · w) (Bytes.ofNatLE w n) n := by
  have htake := reads_take (Bytes.ofNatLE w n)
  rw [Bytes.length_ofNatLE] at htake
  refine htake.map ?_
  intro r
  dsimp only
  rw [Bytes.toNatLE_ofNatLE, Nat.mod_eq_of_lt h]
  rfl

theorem reads_natBE {w n : Nat} (h : n < Nat.pow 256 w) :
    Reads (Reader.natBE · w) (Bytes.ofNatBE w n) n := by
  have htake := reads_take (Bytes.ofNatBE w n)
  rw [Bytes.length_ofNatBE] at htake
  refine htake.map ?_
  intro r
  dsimp only
  rw [Bytes.toNatBE_ofNatBE, Nat.mod_eq_of_lt h]
  rfl

theorem reads_intLE {w : Nat} {i : Int} (hw : 0 < w) (hlow : -(Nat.pow 2 (8 * w - 1) : Int) ≤ i)
    (hhigh : i < (Nat.pow 2 (8 * w - 1) : Int)) :
    Reads (Reader.intLE · w) (Bytes.ofNatLE w (Bytes.ofSigned (8 * w) i)) i := by
  refine (reads_natLE (Bytes.ofSigned_lt_bytes w i)).map ?_
  intro r
  dsimp only
  rw [Bytes.toSigned_ofSigned (by omega) hlow hhigh]
  rfl

/-! ## §3. Lengths. -/

/-- The four forms of a length.  The writer takes the shortest, and a file may hold any. -/
inductive LengthForm : Nat → Bytes → Prop where
  /-- Six bits in the first byte. -/
  | six {n : Nat} (h : n < 64) : LengthForm n [UInt8.ofNat n]
  /-- Fourteen bits in two bytes. -/
  | fourteen {n : Nat} (h : n < 16384) :
      LengthForm n [UInt8.ofNat (64 + n / 256), UInt8.ofNat (n % 256)]
  /-- Four bytes after a marker. -/
  | four {n : Nat} (h : n < Bytes.u32Bound) : LengthForm n (0x80 :: Bytes.ofNatBE 4 n)
  /-- Eight bytes after another. -/
  | eight {n : Nat} (h : n < Bytes.u64Bound) : LengthForm n (0x81 :: Bytes.ofNatBE 8 n)

namespace LengthForm

variable {n : Nat} {bytes : Bytes}

theorem ne_nil (h : LengthForm n bytes) : bytes ≠ [] := by
  cases h <;> exact List.cons_ne_nil _ _

/-- **Every form of a length is read.** -/
theorem reads_form (h : LengthForm n bytes) : Reads readForm bytes (.plain n) := by
  cases h with
  | six hsmall =>
    refine (reads_byte (UInt8.ofNat n)).map ?_
    intro r
    -- the upper two bits of the first byte say the form, the lower six are the length
    have hbyte := Lzf.toNat_ofNat_of_lt (by omega : n < 256)
    have hkind : n / 64 = 0 := by omega
    have hlow : n % 64 = n := by omega
    dsimp only
    rw [hbyte, hkind, hlow]
    rfl
  | fourteen hmedium =>
    have hfirst := Lzf.toNat_ofNat_of_lt (by omega : 64 + n / 256 < 256)
    have hsecond := Lzf.toNat_ofNat_of_lt (by omega : n % 256 < 256)
    -- the lower six bits of the first byte are the upper six of the length
    have hkind : (64 + n / 256) / 64 = 1 := by omega
    have hlow : (64 + n / 256) % 64 * 256 + n % 256 = n := by omega
    refine Reads.byte ?_
    dsimp only
    rw [hfirst, hkind]
    refine (reads_byte (UInt8.ofNat (n % 256))).map ?_
    intro r
    dsimp only
    rw [hsecond, hlow]
    rfl
  | four hfits =>
    refine Reads.byte ?_
    have hread := reads_natBE (w := 4) (n := n) hfits
    exact hread.map fun r => rfl
  | eight hfits =>
    refine Reads.byte ?_
    have hread := reads_natBE (w := 8) (n := n) hfits
    exact hread.map fun r => rfl

/-- **A length is read where nothing else may stand.** -/
theorem reads (h : LengthForm n bytes) : Reads readLength bytes n := by
  refine Reads.peek h.ne_nil ?_
  intro first after
  exact h.reads_form.map fun r => rfl

end LengthForm

theorem lengthForm_writeLength {n : Nat} (h : n < Bytes.u64Bound) :
    LengthForm n (writeLength n) := by
  unfold writeLength
  split
  · rename_i hsmall
    exact .six hsmall
  · split
    · rename_i hmedium
      exact .fourteen hmedium
    · split
      · rename_i hfits
        exact .four hfits
      · exact .eight h

/-- **A length is read back.** -/
theorem reads_length {n : Nat} (h : n < Bytes.u64Bound) : Reads readLength (writeLength n) n :=
  (lengthForm_writeLength h).reads

/-! ## §4. Strings. -/

/-- The decimal text of an integer, and the integer in so many bytes. -/
inductive DecimalForm (width : Nat) : Bytes → Bytes → Prop where
  | mk {i : Int} (hlow : -(Nat.pow 2 (8 * width - 1) : Int) ≤ i)
      (hhigh : i < (Nat.pow 2 (8 * width - 1) : Int)) :
      DecimalForm width (Bytes.ofInt i) (Bytes.ofNatLE width (Bytes.ofSigned (8 * width) i))

/-- **An integer is read as its decimal text.** -/
theorem DecimalForm.reads {width : Nat} {text bytes : Bytes} (h : DecimalForm width text bytes)
    (hwidth : 0 < width) :
    Reads (fun r => r.intLE width >>= fun p => .ok (Bytes.ofInt p.1, p.2)) bytes text := by
  cases h with
  | mk hlow hhigh => exact (reads_intLE hwidth hlow hhigh).map fun r => rfl

/-- The markers of integers in a string, with the number of bytes that follow. -/
def integerForms : List (UInt8 × Nat) := [(0xC0, 1), (0xC1, 2), (0xC2, 4)]

/-- The forms of a string: its bytes with their length, an integer of which it is the
decimal text, or its compressed bytes with both lengths.  The writer takes one of them,
and a file may hold any. -/
inductive TextForm : Bytes → Bytes → Prop where
  | plain {text length : Bytes} (hlength : LengthForm text.length length) :
      TextForm text (length ++ text)
  | integer {text bytes : Bytes} {marker : UInt8} {width : Nat}
      (hmarker : (marker, width) ∈ integerForms) (h : DecimalForm width text bytes) :
      TextForm text (marker :: bytes)
  | compressed {text compressed length : Bytes} {chunks : List Lzf.Chunk}
      (htiles : Lzf.Tiles text 0 chunks)
      (hcompressed : LengthForm (chunks.flatMap Lzf.Chunk.encode).length compressed)
      (hlength : LengthForm text.length length) :
      TextForm text (0xC3 :: (compressed ++ length ++ chunks.flatMap Lzf.Chunk.encode))

/-- **Every form of a string is read.** -/
theorem TextForm.reads {text bytes : Bytes} (h : TextForm text bytes) :
    Reads readString bytes text := by
  cases h with
  | plain hlength =>
    refine hlength.reads_form.bind ?_
    exact reads_take text
  | @integer bytes marker width hmarker hinteger =>
    have hform : Reads readForm [marker] (.integer width) ∧ 0 < width := by
      simp only [integerForms, List.mem_cons, Prod.mk.injEq, List.not_mem_nil, or_false] at hmarker
      rcases hmarker with ⟨rfl, rfl⟩ | ⟨rfl, rfl⟩ | ⟨rfl, rfl⟩
      · exact ⟨fun position rest => rfl, by decide⟩
      · exact ⟨fun position rest => rfl, by decide⟩
      · exact ⟨fun position rest => rfl, by decide⟩
    exact hform.1.bind (hinteger.reads hform.2)
  | @compressed compressed length chunks htiles hcompressed hlength =>
    have hform : Reads readForm [0xC3] .compressed := fun position rest => rfl
    refine hform.bind (t := compressed ++ length ++ chunks.flatMap Lzf.Chunk.encode) ?_
    rw [List.append_assoc]
    refine hcompressed.reads.bind ?_
    refine hlength.reads.bind ?_
    refine (reads_take (chunks.flatMap Lzf.Chunk.encode)).map ?_
    intro r
    dsimp only
    rw [Lzf.decompress_of_tiles htiles]
    rfl

theorem inlineInteger?_eq_some {value : Bytes} {i : Int} (h : inlineInteger? value = some i) :
    Bytes.ofInt i = value ∧ -(Nat.pow 2 31 : Int) ≤ i ∧ i < (Nat.pow 2 31 : Int) := by
  unfold inlineInteger? at h
  split at h
  · rename_i hread
    split at h
    · rename_i htext
      obtain rfl := Option.some.inj h
      exact ⟨htext, Bytes.toInt?_range hread⟩
    · exact absurd h (by simp)
  · exact absurd h (by simp)

/-- An integer is written in the least of the widths that hold it. -/
theorem textForm_writeInteger {i : Int} (hlow : -(Nat.pow 2 31 : Int) ≤ i)
    (hhigh : i < (Nat.pow 2 31 : Int)) : TextForm (Bytes.ofInt i) (writeInteger i) := by
  unfold writeInteger
  split
  · rename_i hbyte
    exact .integer (show ((0xC0 : UInt8), 1) ∈ integerForms by decide) (.mk hbyte.1 hbyte.2)
  · split
    · rename_i hword
      exact .integer (show ((0xC1 : UInt8), 2) ∈ integerForms by decide) (.mk hword.1 hword.2)
    · exact .integer (show ((0xC2 : UInt8), 4) ∈ integerForms by decide) (.mk hlow hhigh)

/-- **A string is written in one of its forms.** -/
theorem textForm_writeString (compression : Bool) {value : Bytes}
    (h : value.length < Bytes.u64Bound) :
    TextForm value (writeString compression value) := by
  have hplain : TextForm value (writePlain value) := .plain (lengthForm_writeLength h)
  unfold writeString
  split
  · rename_i i hinline
    obtain ⟨rfl, hlow, hhigh⟩ := inlineInteger?_eq_some hinline
    exact textForm_writeInteger hlow hhigh
  · split
    · dsimp only
      split
      · rename_i hshorter
        exact .compressed (Lzf.tiles_chunksOf value)
          (lengthForm_writeLength (Nat.lt_trans hshorter h)) (lengthForm_writeLength h)
      · exact hplain
    · exact hplain

/-- **A string is read back, in whatever form it was written.** -/
theorem reads_string (compression : Bool) {value : Bytes} (h : value.length < Bytes.u64Bound) :
    Reads readString (writeString compression value) value :=
  (textForm_writeString compression h).reads

/-! ## §5. Items in a row. -/

/-- Items that are stored one after the other, each in one of its forms. -/
inductive Row (form : α → Bytes → Prop) : List α → Bytes → Prop where
  | nil : Row form [] []
  | cons {x : α} {items : List α} {bytes rest : Bytes} (hx : form x bytes)
      (hitems : Row form items rest) : Row form (x :: items) (bytes ++ rest)

/-- **Items in a row are read one after the other.** -/
theorem Row.reads {form : α → Bytes → Prop} {item : Reader → Except Fault (α × Reader)}
    {items : List α} {bytes : Bytes} (h : Row form items bytes)
    (hform : ∀ x bs, form x bs → Reads item bs x) :
    Reads (Reader.many item items.length) bytes items := by
  induction h with
  | nil => exact reads_pure []
  | cons hx _ ih => exact (hform _ _ hx).bind (ih.map fun r => rfl)

theorem row_flatMap {form : α → Bytes → Prop} {write : α → Bytes} {items : List α}
    (h : ∀ x ∈ items, form x (write x)) : Row form items (items.flatMap write) := by
  induction items with
  | nil => exact .nil
  | cons x items ih =>
    obtain ⟨hx, hitems⟩ := List.forall_mem_cons.1 h
    rw [List.flatMap_cons]
    exact .cons hx (ih hitems)

/-! ## §6. In the middle of a file. -/

/-- **What a decoder reads it reads anywhere**: of a file it takes the bytes at a place, and
leaves those before and behind them alone. -/
theorem Reads.in_place {read : Reader → Except Fault (α × Reader)} {bytes : Bytes} {value : α}
    (h : Reads read bytes value) (before after : Bytes) :
    read ((Reader.start (before ++ bytes ++ after)).skip before.length)
      = .ok (value, ⟨before.length + bytes.length, after⟩) := by
  have hplace : (Reader.start (before ++ bytes ++ after)).skip before.length
      = ⟨before.length, bytes ++ after⟩ := by
    unfold Reader.start Reader.skip
    rw [Nat.zero_add, List.append_assoc, List.drop_left]
  rw [hplace]
  exact h before.length after

/-- What a decoder reads from the front of some bytes, and how much of them, is settled by
these bytes. -/
theorem Reads.unique {read : Reader → Except Fault (α × Reader)} {form form' more more' : Bytes}
    {value value' : α} (h : Reads read form value) (h' : Reads read form' value')
    (heq : form ++ more = form' ++ more') : value = value' ∧ form = form' := by
  have hread := h 0 more
  rw [heq, h' 0 more'] at hread
  simp only [Except.ok.injEq, Prod.mk.injEq, Reader.mk.injEq] at hread
  obtain ⟨hvalue, -, hmore⟩ := hread
  rw [hmore] at heq
  exact ⟨hvalue.symm, List.append_cancel_right heq⟩

/-- **Forms begin with no other form**: bytes that begin with a form of a string begin with a
form of no other string, and with no other form of this one. -/
theorem TextForm.unique {text text' form form' more more' : Bytes} (h : TextForm text form)
    (h' : TextForm text' form') (heq : form ++ more = form' ++ more') :
    text = text' ∧ form = form' := h.reads.unique h'.reads heq

/-- **A string is read back in place**, whatever stands before and behind it: the reader
returns it and moves on by as many bytes as were written.  No form of another string, plain,
integer or compressed, begins there.  The bound is that of a length in memory. -/
theorem string_in_place (compression : Bool) {value : Bytes} (h : value.length < Bytes.u64Bound)
    (before after : Bytes) :
    readString ((Reader.start (before ++ writeString compression value ++ after)).skip before.length)
        = .ok (value, ⟨before.length + (writeString compression value).length, after⟩)
      ∧ ∀ text form, TextForm text form → form <+: writeString compression value ++ after →
          text = value ∧ form = writeString compression value := by
  refine ⟨(reads_string compression h).in_place before after, ?_⟩
  rintro text form hform ⟨more, hmore⟩
  exact hform.unique (textForm_writeString compression h) hmore

/-- A zero with a sign is no integer, also between the markers of an integer and of a
compressed string. -/
theorem string_in_place_signedZero :
    writeString true (Bytes.ofString "-0") = [2, 45, 48]
      ∧ (Bytes.ofString "-0").length < Bytes.u64Bound
      ∧ readString ((Reader.start ([0xC0] ++ writeString true (Bytes.ofString "-0") ++ [0xC3])).skip 1)
        = .ok (Bytes.ofString "-0", ⟨1 + 3, [0xC3]⟩)
      ∧ ∀ text form, TextForm text form →
          form <+: writeString true (Bytes.ofString "-0") ++ [0xC3] →
          text = Bytes.ofString "-0" ∧ form = writeString true (Bytes.ofString "-0") := by
  have hlength : (Bytes.ofString "-0").length < Bytes.u64Bound := by decide
  exact ⟨by decide, hlength, string_in_place true hlength [0xC0] [0xC3]⟩

/-- The least and the greatest integers of one byte and of two, and the next ones. -/
example : (["-129", "-128", "127", "128", "32767", "32768"].map fun text =>
      writeString true (Bytes.ofString text))
    = [[0xC1, 0x7F, 0xFF], [0xC0, 0x80], [0xC0, 0x7F], [0xC1, 0x80, 0x00], [0xC1, 0xFF, 0x7F],
      [0xC2, 0x00, 0x80, 0x00, 0x00]] := by decide

end Snapshot

end DurableStore
