/-
  DurableStore.Proofs.Snapshot.Containers
  ────────────────────────────────
  **WHAT A CONTAINER HOLDS.**

  A packed container is described by itself, without the decoder: which
  bytes are an entry, and which bytes are the container of some entries.
  An entry may be stored as its bytes, or as an integer of which it is the
  decimal text, in any width that holds the integer:

      ZiplistEntry item bytes     Ziplist items blob
      ListpackEntry item bytes    Listpack items blob
                                  Zipmap pairs blob
                                  Intset items blob

  The decoders take every one of them, whichever forms its entries have.
  What a decoder passes over is either described (the length of an entry,
  before or behind it) or left open (sizes and offsets in a header, unused
  space).

  Main results:
    * `decodeZiplist_eq`, `decodeListpack_eq`, `decodeZipmap_eq`,
      `decodeIntset_eq` — a container is decoded to its elements.
-/
import DurableStore.Snapshot.Packed
import DurableStore.Proofs.Snapshot.Text

namespace DurableStore.Snapshot

variable {α : Type}

/-! ## §1. Decoding inside a container. -/

theorem skip_append (position : Nat) (s rest : Bytes) :
    Reader.skip ⟨position, s ++ rest⟩ s.length = ⟨position + s.length, rest⟩ := by
  unfold Reader.skip
  dsimp only
  rw [List.drop_left]

theorem inContainer_of_ok {container : Container} {blob : Bytes}
    {decode : Reader → Except Fault α} {a : α} (h : decode (Reader.start blob) = .ok a) :
    inContainer container blob decode = .ok a := by
  unfold inContainer
  rw [h]

/-- The number of entries in a header: as it is, or "too many to say". -/
inductive CountForm (n : Nat) : Bytes → Prop where
  | counted (h : n < 65536) : CountForm n (Bytes.ofNatLE 2 n)
  | uncounted : CountForm n (Bytes.ofNatLE 2 0xFFFF)

theorem CountForm.length_eq {n : Nat} {bytes : Bytes} (h : CountForm n bytes) :
    bytes.length = 2 := by
  cases h <;> exact Bytes.length_ofNatLE _ _

theorem CountForm.check {entries : List Bytes} {bytes : Bytes} (h : CountForm entries.length bytes)
    (container : Container) :
    checkCount container (Bytes.toNatLE bytes) entries = .ok entries := by
  unfold checkCount
  rw [if_neg]
  intro hand
  cases h with
  | counted hlt =>
    rw [Bytes.toNatLE_ofNatLE, Nat.mod_eq_of_lt hlt] at hand
    exact hand.2 rfl
  | uncounted => exact hand.1 rfl

/-- A decoder that ends with a look at the count comes to what that look comes to. -/
theorem inContainer_of_checked {container : Container} {blob : Bytes}
    {decode : Reader → Except Fault (List Bytes)} {declared : Nat} {items : List Bytes}
    (h : decode (Reader.start blob) = checkCount container declared items) :
    inContainer container blob decode = checkCount container declared items := by
  by_cases hwrong : declared ≠ uncounted ∧ declared ≠ items.length
  · have hrefused : checkCount container declared items
        = .error (.invalidContainer container (.miscounted declared items.length)) := if_pos hwrong
    rw [inContainer, h, hrefused]
  · have htaken : checkCount container declared items = .ok items := if_neg hwrong
    rw [inContainer, h, htaken]

/-- A container with a header that ends in a count, entries and the end marker: the count is
held against the entries.  The length of the container is budget enough for them. -/
theorem decode_counted {container : Container} {items : List Bytes} {sizes count body : Bytes}
    {entries : Nat → Reader → Except Fault (List Bytes)} {before : Nat} (hsizes : sizes.length = before)
    (hcount : count.length = 2) (hlength : items.length ≤ body.length)
    (hentries : ∀ budget, items.length < budget → ∀ position,
      entries budget ⟨position, body ++ [endMarker]⟩ = .ok items) :
    inContainer container (sizes ++ count ++ (body ++ [endMarker]))
      (fun r => do
        let (header, r) ← r.take (before + 2)
        let items ← entries (sizes ++ count ++ (body ++ [endMarker])).length r
        checkCount container (Bytes.toNatLE (header.drop before)) items)
      = checkCount container (Bytes.toNatLE count) items := by
  have hheader : (sizes ++ count).length = before + 2 := by
    rw [List.length_append, hsizes, hcount]
  have hbudget : items.length < (sizes ++ count ++ (body ++ [endMarker])).length := by
    simp only [List.length_append, List.length_singleton]
    omega
  refine inContainer_of_checked ?_
  rw [← hheader]
  refine ((reads_take (sizes ++ count)).step _ 0 (body ++ [endMarker])).trans ?_
  dsimp only
  rw [hentries _ hbudget, List.drop_left' hsizes]
  rfl

/-- A length that takes one byte, or four more behind 0xFE. -/
inductive SmallLength : Nat → Bytes → Prop where
  | short {n : Nat} (h : n < 254) : SmallLength n [UInt8.ofNat n]
  | long {n : Nat} (h : n < Bytes.u32Bound) : SmallLength n (0xFE :: Bytes.ofNatLE 4 n)

theorem DecimalForm.length_eq {width : Nat} {text bytes : Bytes}
    (h : DecimalForm width text bytes) :
    bytes.length = width := by
  cases h with
  | mk hlow hhigh => exact Bytes.length_ofNatLE _ _

theorem ofNat_ne_of_lt {n m : Nat} (hn : n < m) (hm : m < 256) : UInt8.ofNat n ≠ UInt8.ofNat m := by
  intro heq
  have hboth := congrArg UInt8.toNat heq
  rw [Lzf.toNat_ofNat_of_lt (by omega), Lzf.toNat_ofNat_of_lt hm] at hboth
  omega

/-- A length in one byte is neither the end marker nor the mark of a length in five. -/
theorem short_length_ne {n : Nat} (h : n < 254) :
    UInt8.ofNat n ≠ endMarker ∧ UInt8.ofNat n ≠ 0xFE :=
  ⟨ofNat_ne_of_lt (m := 255) (by omega) (by decide), ofNat_ne_of_lt (m := 254) h (by decide)⟩

/-! ## §2. Ziplists. -/

/-- The integer headers of a ziplist, with the number of bytes that follow. -/
def ziplistIntegers : List (UInt8 × Nat) := [(0xC0, 2), (0xD0, 4), (0xE0, 8), (0xF0, 3), (0xFE, 1)]

/-- The forms of a ziplist entry, behind the length of the entry before. -/
inductive ZiplistEntry : Bytes → Bytes → Prop where
  /-- Six bits of length. -/
  | short {item : Bytes} (h : item.length < 64) :
      ZiplistEntry item (UInt8.ofNat item.length :: item)
  /-- Fourteen bits of length. -/
  | medium {item : Bytes} (h : item.length < 16384) :
      ZiplistEntry item
        (UInt8.ofNat (64 + item.length / 256) :: UInt8.ofNat (item.length % 256) :: item)
  /-- Four bytes of length, most significant first. -/
  | long {item : Bytes} (h : item.length < Bytes.u32Bound) :
      ZiplistEntry item (0x80 :: (Bytes.ofNatBE 4 item.length ++ item))
  | integer {item bytes : Bytes} {header : UInt8} {width : Nat}
      (hheader : (header, width) ∈ ziplistIntegers) (h : DecimalForm width item bytes) :
      ZiplistEntry item (header :: bytes)
  /-- A number up to 12 in the header itself. -/
  | immediate {n : Nat} (h : n ≤ 12) : ZiplistEntry (Bytes.ofNat n) [UInt8.ofNat (0xF1 + n)]

/-- What a header announces, by the kinds of headers: six bits of length. -/
theorem ziplistEntry_short {n : Nat} (h : n < 64) (r : Reader) :
    ziplistEntry (UInt8.ofNat n) r = readBytes r n := by
  have hheader := Lzf.toNat_ofNat_of_lt (by omega : n < 256)
  unfold ziplistEntry
  dsimp only
  rw [hheader, if_pos h]

theorem ziplistEntry_medium {high : Nat} (h : high < 64) (r : Reader) :
    ziplistEntry (UInt8.ofNat (64 + high)) r
      = r.byte >>= fun p => readBytes p.2 (high * 256 + p.1.toNat) := by
  have hheader := Lzf.toNat_ofNat_of_lt (by omega : 64 + high < 256)
  have hhigh : (64 + high) % 64 = high := by omega
  unfold ziplistEntry
  dsimp only
  rw [hheader, if_neg (by omega), if_pos (by omega), hhigh]

theorem ziplistEntry_long (r : Reader) :
    ziplistEntry 0x80 r = r.natBE 4 >>= fun p => readBytes p.2 p.1 := rfl

theorem ziplistEntry_integer {header : UInt8} {width : Nat} (h : (header, width) ∈ ziplistIntegers)
    (r : Reader) : ziplistEntry header r = readDecimal r width := by
  simp only [ziplistIntegers, List.mem_cons, Prod.mk.injEq, List.not_mem_nil, or_false] at h
  rcases h with ⟨rfl, rfl⟩ | ⟨rfl, rfl⟩ | ⟨rfl, rfl⟩ | ⟨rfl, rfl⟩ | ⟨rfl, rfl⟩ <;> rfl

theorem ziplistEntry_immediate {n : Nat} (h : n ≤ 12) (r : Reader) :
    ziplistEntry (UInt8.ofNat (0xF1 + n)) r = .ok (Bytes.ofNat n, r) := by
  have hheader := Lzf.toNat_ofNat_of_lt (by omega : 0xF1 + n < 256)
  have hvalue : (0xF1 + n) % 16 - 1 = n := by omega
  unfold ziplistEntry
  dsimp only
  rw [hheader, if_neg (by omega), if_neg (by omega), if_neg (by omega), if_neg (by omega),
    if_neg (by omega), if_neg (by omega), if_neg (by omega), if_neg (by omega), if_pos (by omega),
    hvalue]

/-- **Every form of a ziplist entry is read.** -/
theorem ZiplistEntry.reads {item bytes : Bytes} (h : ZiplistEntry item bytes) :
    Reads (fun r => r.byte >>= fun p => ziplistEntry p.1 p.2) bytes item := by
  cases h with
  | short hlength =>
    refine Reads.byte ?_
    simp only [ziplistEntry_short hlength]
    exact reads_take item
  | medium hlength =>
    have hhigh : item.length / 256 < 64 := by omega
    have hlow := Lzf.toNat_ofNat_of_lt (by omega : item.length % 256 < 256)
    -- fourteen bits of length, the upper six of them in the header
    refine Reads.byte ?_
    simp only [ziplistEntry_medium hhigh]
    refine Reads.byte ?_
    dsimp only
    rw [hlow, Nat.div_add_mod']
    exact reads_take item
  | long hlength =>
    refine Reads.byte ?_
    simp only [ziplistEntry_long]
    exact (reads_natBE (w := 4) hlength).bind (reads_take item)
  | integer hheader hinteger =>
    have hwidths : ∀ p ∈ ziplistIntegers, 0 < p.2 := by decide
    refine Reads.byte ?_
    simp only [ziplistEntry_integer hheader]
    exact hinteger.reads (hwidths _ hheader)
  | @immediate n hsmall =>
    refine (reads_byte (UInt8.ofNat (0xF1 + n))).map ?_
    exact ziplistEntry_immediate hsmall

/-- Entries of a ziplist in a row, each behind the length of the one before. -/
inductive ZiplistEntries : Nat → List Bytes → Bytes → Prop where
  | nil {previous : Nat} : ZiplistEntries previous [] []
  | cons {previous : Nat} {item : Bytes} {items : List Bytes} {before entry rest : Bytes}
      (hbefore : SmallLength previous before) (hentry : ZiplistEntry item entry)
      (hrest : ZiplistEntries (before ++ entry).length items rest) :
      ZiplistEntries previous (item :: items) (before ++ (entry ++ rest))

/-- The ziplist of some elements: two sizes, a count, the entries and the end marker. -/
inductive Ziplist : List Bytes → Bytes → Prop where
  | mk {items : List Bytes} {sizes count entries : Bytes} (hsizes : sizes.length = 8)
      (hcount : CountForm items.length count) (hentries : ZiplistEntries 0 items entries) :
      Ziplist items (sizes ++ count ++ (entries ++ [endMarker]))

/-- The length of the entry before is passed over, whether it takes one byte or five, and
begins with no end marker. -/
theorem SmallLength.skipped {n : Nat} {bytes : Bytes} (h : SmallLength n bytes) :
    ∃ first tail, bytes = first :: tail ∧ first ≠ endMarker
      ∧ ∀ r : Reader, (if first = 0xFE then r.skip 4 else r) = r.skip tail.length := by
  cases h with
  | short hshort =>
    obtain ⟨hend, hlong⟩ := short_length_ne hshort
    exact ⟨UInt8.ofNat n, [], rfl, hend, fun r => if_neg hlong⟩
  | long hlong =>
    refine ⟨0xFE, Bytes.ofNatLE 4 n, rfl, by decide, ?_⟩
    intro r
    rw [if_pos rfl, Bytes.length_ofNatLE]

theorem ZiplistEntries.length_le {previous : Nat} {items : List Bytes} {bytes : Bytes}
    (h : ZiplistEntries previous items bytes) : items.length ≤ bytes.length := by
  induction h with
  | nil => exact Nat.le_refl _
  | cons hbefore _ _ ih =>
    obtain ⟨first, tail, rfl, -⟩ := hbefore.skipped
    simp only [List.length_cons, List.length_append]
    omega

/-- One entry of a ziplist, and the entries behind it. -/
theorem ziplistEntries_succ {first : UInt8} (hfirst : first ≠ endMarker) (budget position : Nat)
    (after : Bytes) :
    ziplistEntries (budget + 1) ⟨position, first :: after⟩
      = (fun r => r.byte >>= fun p => ziplistEntry p.1 p.2)
          (if first = 0xFE then Reader.skip ⟨position + 1, after⟩ 4 else ⟨position + 1, after⟩)
        >>= fun p => (p.1 :: ·) <$> ziplistEntries budget p.2 := by
  have hbyte : Reader.byte ⟨position, first :: after⟩ = .ok (first, ⟨position + 1, after⟩) := rfl
  rw [ziplistEntries, hbyte]
  show (if first = endMarker then _ else _) = _
  rw [if_neg hfirst, bind_assoc]
  rfl

/-- **The entries of a ziplist are read up to the end marker.** -/
theorem ZiplistEntries.decode {previous : Nat} {items : List Bytes} {bytes : Bytes}
    (h : ZiplistEntries previous items bytes) {budget : Nat} (hbudget : items.length < budget)
    (position : Nat) (rest : Bytes) :
    ziplistEntries budget ⟨position, bytes ++ endMarker :: rest⟩ = .ok items := by
  induction h generalizing budget position with
  | nil =>
    obtain ⟨k, rfl⟩ : ∃ k, budget = k + 1 := ⟨budget - 1, by omega⟩
    rfl
  | @cons previous item items before entry after hbefore hentry hrest ih =>
    obtain ⟨k, rfl⟩ : ∃ k, budget = k + 1 := ⟨budget - 1, by omega⟩
    -- The first byte is that of the length before the entry, which is never the end marker.
    obtain ⟨first, tail, rfl, hfirst, hskip⟩ := hbefore.skipped
    rw [List.length_cons] at hbudget
    rw [List.cons_append, List.cons_append, List.append_assoc, List.append_assoc,
      ziplistEntries_succ hfirst, hskip, skip_append, hentry.reads.step, ih (by omega)]
    rfl

/-- **A ziplist is decoded to its elements.** -/
theorem decodeZiplist_eq {items : List Bytes} {blob : Bytes} (h : Ziplist items blob) :
    decodeZiplist blob = .ok items := by
  cases h with
  | mk hsizes hcount hentries =>
    refine (decode_counted hsizes hcount.length_eq hentries.length_le ?_).trans (hcount.check .ziplist)
    intro budget hbudget position
    exact hentries.decode hbudget position []

/-! ## §3. Listpacks. -/

/-- The integer headers of a listpack, with the number of bytes that follow. -/
def listpackIntegers : List (UInt8 × Nat) := [(0xF1, 2), (0xF2, 3), (0xF3, 4), (0xF4, 8)]

/-- The forms of a listpack entry, without the length behind it. -/
inductive ListpackEntry : Bytes → Bytes → Prop where
  /-- A number below 128 in the header itself. -/
  | tiny {n : Nat} (h : n < 128) : ListpackEntry (Bytes.ofNat n) [UInt8.ofNat n]
  /-- Six bits of length. -/
  | short {item : Bytes} (h : item.length < 64) :
      ListpackEntry item (UInt8.ofNat (128 + item.length) :: item)
  /-- An integer of 13 bits. -/
  | small {i : Int} (hlow : -4096 ≤ i) (hhigh : i < 4096) :
      ListpackEntry (Bytes.ofInt i)
        [UInt8.ofNat (192 + Bytes.ofSigned 13 i / 256), UInt8.ofNat (Bytes.ofSigned 13 i % 256)]
  /-- Twelve bits of length. -/
  | medium {item : Bytes} (h : item.length < 4096) :
      ListpackEntry item
        (UInt8.ofNat (224 + item.length / 256) :: UInt8.ofNat (item.length % 256) :: item)
  /-- Four bytes of length, least significant first. -/
  | long {item : Bytes} (h : item.length < Bytes.u32Bound) :
      ListpackEntry item (0xF0 :: (Bytes.ofNatLE 4 item.length ++ item))
  | integer {item bytes : Bytes} {header : UInt8} {width : Nat}
      (hheader : (header, width) ∈ listpackIntegers) (h : DecimalForm width item bytes) :
      ListpackEntry item (header :: bytes)

/-- A number in seven-bit groups, most significant first; all but the first are marked. -/
def sevenBits : Nat → Nat → Bytes
  | 0, n => [UInt8.ofNat n]
  | k + 1, n => sevenBits k (n / 128) ++ [UInt8.ofNat (128 + n % 128)]

/-- The length of an entry behind the entry.  The greatest number of two groups, three or
four is written with one group more. -/
inductive BackLength (n : Nat) : Bytes → Prop where
  | one (h : n < 128) : BackLength n (sevenBits 0 n)
  | two (hlow : 128 ≤ n) (hhigh : n < 16383) : BackLength n (sevenBits 1 n)
  | three (hlow : 16383 ≤ n) (hhigh : n < 2097151) : BackLength n (sevenBits 2 n)
  | four (hlow : 2097151 ≤ n) (hhigh : n < 268435455) : BackLength n (sevenBits 3 n)
  | five (hlow : 268435455 ≤ n) : BackLength n (sevenBits 4 n)

theorem length_sevenBits (k n : Nat) : (sevenBits k n).length = k + 1 := by
  induction k generalizing n with
  | zero => rfl
  | succ k ih => rw [sevenBits, List.length_append, ih, List.length_singleton]

theorem BackLength.length_eq {n : Nat} {bytes : Bytes} (h : BackLength n bytes) :
    bytes.length = backLengthSize n := by
  unfold backLengthSize
  cases h <;> rw [length_sevenBits] <;> split_ifs <;> omega

/-- The entry that a listpack header byte announces, together with its length. -/
def sizedEntry (header : UInt8) (r : Reader) : Except Fault ((Bytes × Nat) × Reader) :=
  (fun p => ((p.1, p.2.1), p.2.2)) <$> listpackEntry header r

/-- What a header announces, by the kinds of headers: a small number. -/
theorem sizedEntry_tiny {n : Nat} (h : n < 128) (r : Reader) :
    sizedEntry (UInt8.ofNat n) r = .ok ((Bytes.ofNat n, 1), r) := by
  have hheader := Lzf.toNat_ofNat_of_lt (by omega : n < 256)
  unfold sizedEntry listpackEntry
  dsimp only
  rw [hheader, if_pos h]
  rfl

theorem sizedEntry_short {n : Nat} (h : n < 64) (r : Reader) :
    sizedEntry (UInt8.ofNat (128 + n)) r
      = readBytes r n >>= fun p => .ok ((p.1, 1 + n), p.2) := by
  have hheader := Lzf.toNat_ofNat_of_lt (by omega : 128 + n < 256)
  have hlength : (128 + n) % 64 = n := by omega
  unfold sizedEntry listpackEntry
  dsimp only
  rw [hheader, if_neg (by omega), if_pos (by omega), hlength, map_bind]
  rfl

theorem sizedEntry_small {high : Nat} (h : high < 32) (r : Reader) :
    sizedEntry (UInt8.ofNat (192 + high)) r
      = r.byte >>= fun p =>
        .ok ((Bytes.ofInt (Bytes.toSigned 13 (high * 256 + p.1.toNat)), 2), p.2) := by
  have hheader := Lzf.toNat_ofNat_of_lt (by omega : 192 + high < 256)
  have hhigh : (192 + high) % 32 = high := by omega
  unfold sizedEntry listpackEntry
  dsimp only
  rw [hheader, if_neg (by omega), if_neg (by omega), if_pos (by omega), hhigh, map_bind]
  rfl

theorem sizedEntry_medium {high : Nat} (h : high < 16) (r : Reader) :
    sizedEntry (UInt8.ofNat (224 + high)) r
      = r.byte >>= fun p => readBytes p.2 (high * 256 + p.1.toNat) >>= fun q =>
        .ok ((q.1, 2 + (high * 256 + p.1.toNat)), q.2) := by
  have hheader := Lzf.toNat_ofNat_of_lt (by omega : 224 + high < 256)
  have hhigh : (224 + high) % 16 = high := by omega
  unfold sizedEntry listpackEntry
  dsimp only
  rw [hheader, if_neg (by omega), if_neg (by omega), if_neg (by omega), if_pos (by omega), hhigh]
  simp only [map_bind]
  rfl

theorem sizedEntry_long (r : Reader) :
    sizedEntry 0xF0 r
      = r.natLE 4 >>= fun p => readBytes p.2 p.1 >>= fun q => .ok ((q.1, 5 + p.1), q.2) := by
  have hentry : listpackEntry 0xF0 r
      = r.natLE 4 >>= fun p => readBytes p.2 p.1 >>= fun q => .ok (q.1, 5 + p.1, q.2) := rfl
  rw [sizedEntry, hentry]
  simp only [map_bind]
  rfl

theorem sizedEntry_integer {header : UInt8} {width : Nat} (h : (header, width) ∈ listpackIntegers)
    (r : Reader) :
    sizedEntry header r = readDecimal r width >>= fun p => .ok ((p.1, 1 + width), p.2) := by
  simp only [listpackIntegers, List.mem_cons, Prod.mk.injEq, List.not_mem_nil, or_false] at h
  rcases h with ⟨rfl, rfl⟩ | ⟨rfl, rfl⟩ | ⟨rfl, rfl⟩ | ⟨rfl, rfl⟩ <;> exact map_bind _ _ _

/-- **Every form of a listpack entry is read, and its length is known.** -/
theorem ListpackEntry.reads {item bytes : Bytes} (h : ListpackEntry item bytes) :
    Reads (fun r => r.byte >>= fun p => sizedEntry p.1 p.2) bytes (item, bytes.length) := by
  -- one case for each form; the length behind an entry is that of its header and of what follows
  cases h with
  | @tiny n hsmall =>
    refine (reads_byte (UInt8.ofNat n)).map ?_
    exact sizedEntry_tiny hsmall
  | short hlength =>
    refine Reads.byte ?_
    simp only [sizedEntry_short hlength]
    refine (reads_take item).map ?_
    intro r
    rw [List.length_cons, Nat.add_comm]
  | @small i hlow hhigh =>
    -- thirteen bits of two's complement, the upper five in the header
    have hrange : Bytes.ofSigned 13 i < 8192 := Bytes.ofSigned_lt 13 i
    have hvalue : Bytes.toSigned 13 (Bytes.ofSigned 13 i) = i :=
      Bytes.toSigned_ofSigned (by decide) hlow hhigh
    generalize Bytes.ofSigned 13 i = n at hrange hvalue
    have hfirst : n / 256 < 32 := by omega
    have hsecond := Lzf.toNat_ofNat_of_lt (by omega : n % 256 < 256)
    refine Reads.byte ?_
    simp only [sizedEntry_small hfirst]
    refine (reads_byte (UInt8.ofNat (n % 256))).map ?_
    intro r
    dsimp only
    rw [hsecond, Nat.div_add_mod', hvalue]
    rfl
  | medium hlength =>
    have hhigh : item.length / 256 < 16 := by omega
    have hlow := Lzf.toNat_ofNat_of_lt (by omega : item.length % 256 < 256)
    refine Reads.byte ?_
    simp only [sizedEntry_medium hhigh]
    refine Reads.byte ?_
    dsimp only
    rw [hlow, Nat.div_add_mod']
    refine (reads_take item).map ?_
    intro r
    rw [List.length_cons, List.length_cons, Nat.add_comm]
  | long hlength =>
    have hsize : (0xF0 :: (Bytes.ofNatLE 4 item.length ++ item)).length = 5 + item.length := by
      rw [List.length_cons, List.length_append, Bytes.length_ofNatLE]
      omega
    rw [hsize]
    refine Reads.byte ?_
    simp only [sizedEntry_long]
    refine (reads_natLE (w := 4) hlength).bind ?_
    dsimp only
    refine (reads_take item).map ?_
    intro r
    rfl
  | integer hheader hinteger =>
    have hwidths : ∀ p ∈ listpackIntegers, 0 < p.2 := by decide
    refine Reads.byte ?_
    simp only [sizedEntry_integer hheader]
    refine (hinteger.reads (hwidths _ hheader)).map ?_
    intro r
    rw [List.length_cons, hinteger.length_eq, Nat.add_comm]

theorem ListpackEntry.header_ne {item bytes : Bytes} (h : ListpackEntry item bytes) :
    ∃ header tail, bytes = header :: tail ∧ header ≠ endMarker := by
  have hbelow : ∀ n, n < 255 → UInt8.ofNat n ≠ endMarker := fun n hn =>
    show UInt8.ofNat n ≠ UInt8.ofNat 255 from ofNat_ne_of_lt hn (by decide)
  cases h with
  | tiny hsmall => exact ⟨_, _, rfl, hbelow _ (by omega)⟩
  | short hlength => exact ⟨_, _, rfl, hbelow _ (by omega)⟩
  | @small i _ _ =>
    have hrange : Bytes.ofSigned 13 i < 8192 := Bytes.ofSigned_lt 13 i
    exact ⟨_, _, rfl, hbelow _ (by omega)⟩
  | medium hlength => exact ⟨_, _, rfl, hbelow _ (by omega)⟩
  | long hlength => exact ⟨_, _, rfl, by decide⟩
  | @integer item bytes header width hheader hinteger =>
    refine ⟨_, _, rfl, ?_⟩
    rintro rfl
    simp [listpackIntegers, endMarker] at hheader

/-- Entries of a listpack in a row, each before its own length. -/
inductive ListpackEntries : List Bytes → Bytes → Prop where
  | nil : ListpackEntries [] []
  | cons {item : Bytes} {items : List Bytes} {entry back rest : Bytes}
      (hentry : ListpackEntry item entry) (hback : BackLength entry.length back)
      (hrest : ListpackEntries items rest) :
      ListpackEntries (item :: items) (entry ++ (back ++ rest))

/-- The listpack of some elements: a size, a count, the entries and the end marker. -/
inductive Listpack : List Bytes → Bytes → Prop where
  | mk {items : List Bytes} {size count entries : Bytes} (hsize : size.length = 4)
      (hcount : CountForm items.length count) (hentries : ListpackEntries items entries) :
      Listpack items (size ++ count ++ (entries ++ [endMarker]))

theorem ListpackEntries.length_le {items : List Bytes} {bytes : Bytes}
    (h : ListpackEntries items bytes) : items.length ≤ bytes.length := by
  induction h with
  | nil => exact Nat.le_refl _
  | cons hentry _ _ ih =>
    obtain ⟨header, tail, rfl, -⟩ := hentry.header_ne
    simp only [List.length_cons, List.length_append]
    omega

/-- One entry of a listpack, and the entries behind it and its length. -/
theorem listpackEntries_succ {header : UInt8} (hheader : header ≠ endMarker) (budget position : Nat)
    (after : Bytes) :
    listpackEntries (budget + 1) ⟨position, header :: after⟩
      = (fun r : Reader => r.byte >>= fun p => sizedEntry p.1 p.2) ⟨position, header :: after⟩
        >>= fun p => (p.1.1 :: ·) <$> listpackEntries budget (p.2.skip (backLengthSize p.1.2)) := by
  have hbyte : Reader.byte ⟨position, header :: after⟩ = .ok (header, ⟨position + 1, after⟩) := rfl
  rw [listpackEntries, hbyte]
  show (if header = endMarker then _ else _) = _
  rw [if_neg hheader]
  dsimp only
  rw [hbyte]
  show _ = sizedEntry header ⟨position + 1, after⟩ >>= _
  unfold sizedEntry
  rw [bind_map_left]
  rfl

/-- **The entries of a listpack are read up to the end marker.** -/
theorem ListpackEntries.decode {items : List Bytes} {bytes : Bytes}
    (h : ListpackEntries items bytes)
    {budget : Nat} (hbudget : items.length < budget) (position : Nat) (rest : Bytes) :
    listpackEntries budget ⟨position, bytes ++ endMarker :: rest⟩ = .ok items := by
  induction h generalizing budget position with
  | nil =>
    obtain ⟨k, rfl⟩ : ∃ k, budget = k + 1 := ⟨budget - 1, by omega⟩
    rfl
  | @cons item items entry back after hentry hback hrest ih =>
    obtain ⟨k, rfl⟩ : ∃ k, budget = k + 1 := ⟨budget - 1, by omega⟩
    obtain ⟨header, tail, hcons, hheader⟩ := hentry.header_ne
    -- The decoder knows how far to skip because the entry says its own length.
    have hread := hentry.reads
    rw [hcons] at hread hback ⊢
    rw [List.length_cons] at hbudget
    rw [List.append_assoc, List.append_assoc, List.cons_append, listpackEntries_succ hheader,
      ← List.cons_append, hread.step, ← hback.length_eq, skip_append, ih (by omega)]
    rfl

/-- **A listpack is decoded to its elements.** -/
theorem decodeListpack_eq {items : List Bytes} {blob : Bytes} (h : Listpack items blob) :
    decodeListpack blob = .ok items := by
  cases h with
  | mk hsize hcount hentries =>
    refine (decode_counted hsize hcount.length_eq hentries.length_le ?_).trans (hcount.check .listpack)
    intro budget hbudget position
    exact hentries.decode hbudget position []

/-! ## §4. Zipmaps. -/

/-- The two strings of each pair in turn. -/
def inTurn (pairs : List (Bytes × Bytes)) : List Bytes := pairs.flatMap fun p => [p.1, p.2]

/-- Fields and values of a zipmap in turn.  Behind a value there may be unused space. -/
inductive ZipmapEntries : List (Bytes × Bytes) → Bytes → Prop where
  | nil : ZipmapEntries [] []
  | cons {field value : Bytes} {pairs : List (Bytes × Bytes)}
      {fieldLength valueLength unused rest : Bytes} (hfield : SmallLength field.length fieldLength)
      (hvalue : SmallLength value.length valueLength) (hunused : unused.length < 256)
      (hrest : ZipmapEntries pairs rest) :
      ZipmapEntries ((field, value) :: pairs)
        (fieldLength ++ (field ++ (valueLength ++
          ([UInt8.ofNat unused.length] ++ (value ++ (unused ++ rest))))))

/-- The zipmap of some pairs: a byte for their number, the pairs and the end marker. -/
inductive Zipmap : List (Bytes × Bytes) → Bytes → Prop where
  | mk {pairs : List (Bytes × Bytes)} {count : UInt8} {entries : Bytes}
      (hentries : ZipmapEntries pairs entries) : Zipmap pairs (count :: (entries ++ [endMarker]))

theorem SmallLength.reads {n : Nat} {bytes : Bytes} (h : SmallLength n bytes) :
    Reads zipmapLength bytes (some n) := by
  cases h with
  | short hshort =>
    have hbyte := Lzf.toNat_ofNat_of_lt (by omega : n < 256)
    obtain ⟨hend, hlong⟩ := short_length_ne hshort
    refine (reads_byte (UInt8.ofNat n)).map ?_
    intro r
    dsimp only
    rw [if_neg hend, if_neg hlong, hbyte]
    rfl
  | long hlong =>
    refine Reads.byte ?_
    have hread := reads_natLE (w := 4) (n := n) hlong
    exact hread.map fun r => rfl

theorem ZipmapEntries.length_le {pairs : List (Bytes × Bytes)} {bytes : Bytes}
    (h : ZipmapEntries pairs bytes) : pairs.length ≤ bytes.length := by
  induction h with
  | nil => exact Nat.le_refl _
  | cons _ _ _ _ ih =>
    simp only [List.length_cons, List.length_append, List.length_nil]
    omega

/-- **The fields and values of a zipmap are read up to the end marker.** -/
theorem ZipmapEntries.decode {pairs : List (Bytes × Bytes)} {bytes : Bytes}
    (h : ZipmapEntries pairs bytes) {budget : Nat} (hbudget : pairs.length < budget)
    (position : Nat) (rest : Bytes) :
    zipmapEntries budget ⟨position, bytes ++ endMarker :: rest⟩ = .ok (inTurn pairs) := by
  induction h generalizing budget position with
  | nil =>
    obtain ⟨k, rfl⟩ : ∃ k, budget = k + 1 := ⟨budget - 1, by omega⟩
    rfl
  | @cons field value pairs fieldLength valueLength unused after hfield hvalue hunused hrest ih =>
    obtain ⟨k, rfl⟩ : ∃ k, budget = k + 1 := ⟨budget - 1, by omega⟩
    have hbyte := Lzf.toNat_ofNat_of_lt hunused
    rw [List.length_cons] at hbudget
    simp only [List.append_assoc]
    rw [zipmapEntries, hfield.reads.step]
    dsimp only [readBytes]
    rw [(reads_take field).step]
    dsimp only
    rw [hvalue.reads.step]
    dsimp only
    rw [(reads_byte (UInt8.ofNat unused.length)).step]
    dsimp only
    rw [(reads_take value).step, hbyte]
    dsimp only
    rw [skip_append, ih (by omega)]
    rfl

/-- **A zipmap is decoded to its fields and values in turn.** -/
theorem decodeZipmap_eq {pairs : List (Bytes × Bytes)} {blob : Bytes} (h : Zipmap pairs blob) :
    decodeZipmap blob = .ok (inTurn pairs) := by
  cases h with
  | @mk count entries hentries =>
    have hlength := hentries.length_le
    refine inContainer_of_ok (hentries.decode ?_ 1 [])
    simp only [List.length_cons, List.length_append]
    omega

/-! ## §5. Intsets. -/

/-- The intset of some elements: a width, their number, and all of them in that width. -/
inductive Intset : List Bytes → Bytes → Prop where
  | mk {items : List Bytes} {width : Nat} {contents : Bytes} (hwidth : width = 2 ∨ width = 4 ∨ width = 8)
      (hcount : items.length < Bytes.u32Bound) (hitems : Row (DecimalForm width) items contents) :
      Intset items (Bytes.ofNatLE 4 width ++ (Bytes.ofNatLE 4 items.length ++ contents))

theorem length_row_decimal {width : Nat} {items : List Bytes} {contents : Bytes}
    (h : Row (DecimalForm width) items contents) : contents.length = items.length * width := by
  induction h with
  | nil => exact (Nat.zero_mul width).symm
  | cons hx _ ih =>
    rw [List.length_append, hx.length_eq, ih, List.length_cons, Nat.succ_mul, Nat.add_comm]

/-- An integer of a fixed width is its decimal text again. -/
theorem DecimalForm.text_eq {width : Nat} {text bytes : Bytes} (h : DecimalForm width text bytes)
    (hwidth : 0 < width) :
    Bytes.ofInt (Bytes.toSigned (8 * width) (Bytes.toNatLE bytes)) = text := by
  cases h with
  | @mk i hlow hhigh =>
    rw [Bytes.toNatLE_ofNatLE, Nat.mod_eq_of_lt (Bytes.ofSigned_lt_bytes width i),
      Bytes.toSigned_ofSigned (by omega) hlow hhigh]

theorem chunks_row_decimal {width : Nat} (hwidth : 0 < width) {items : List Bytes}
    {contents : Bytes} (h : Row (DecimalForm width) items contents) :
    (Bytes.chunks width contents).map
      (fun bytes => Bytes.ofInt (Bytes.toSigned (8 * width) (Bytes.toNatLE bytes))) = items := by
  induction h with
  | nil => rfl
  | @cons item items bytes rest hitem _ ih =>
    have hne : bytes ++ rest ≠ [] := by
      intro hnil
      have hlength := hitem.length_eq
      rw [(List.append_eq_nil_iff.1 hnil).1, List.length_nil] at hlength
      omega
    rw [Bytes.chunks_of_ne_nil hwidth hne, List.take_left' hitem.length_eq,
      List.drop_left' hitem.length_eq, List.map_cons, hitem.text_eq hwidth, ih]

/-- **An intset is decoded to its elements.** -/
theorem decodeIntset_eq {items : List Bytes} {blob : Bytes} (h : Intset items blob) :
    decodeIntset blob = .ok items := by
  cases h with
  | @mk width contents hwidth hcount hitems =>
    have hknown : ¬ (width ≠ 2 ∧ width ≠ 4 ∧ width ≠ 8) := by omega
    have hpositive : 0 < width := by omega
    have hfits : width < Nat.pow 256 4 := by
      show width < 4294967296
      omega
    refine inContainer_of_ok ?_
    refine ((reads_natLE hfits).step _ 0 _).trans ?_
    dsimp only
    refine ((reads_natLE hcount).step _ _ contents).trans ?_
    dsimp only
    rw [if_neg hknown]
    have htake := reads_take contents
    rw [length_row_decimal hitems] at htake
    have hstep := htake.step (fun p => Except.ok ((Bytes.chunks width p.1).map
      fun bytes => Bytes.ofInt (Bytes.toSigned (8 * width) (Bytes.toNatLE bytes)))) 8 []
    rw [List.append_nil] at hstep
    refine hstep.trans ?_
    rw [chunks_row_decimal hpositive hitems]

/-! ## §6. Pairs. -/

/-- The elements of pairs in turn are these pairs. -/
theorem inPairs_inTurn (container : Container) (pairs : List (Bytes × Bytes)) :
    inPairs container (inTurn pairs) = .ok pairs := by
  have hpairs : Bytes.pairUp (inTurn pairs) = some pairs := by
    induction pairs with
    | nil => rfl
    | cons p pairs ih =>
      show (Bytes.pairUp (inTurn pairs)).map ((p.1, p.2) :: ·) = _
      rw [ih]
      rfl
  unfold inPairs
  rw [hpairs]

end DurableStore.Snapshot
