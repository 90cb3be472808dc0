/-
  DurableStore.Proofs.Snapshot.Compression
  ────────────────────────────────
  **WHAT COMPRESSION SAVES AND WHAT IT COSTS.**

  A plain string stands in a file behind its length, a compressed one behind
  a marker and two lengths.  The writer compresses a string if the
  compressed bytes alone are fewer, and leaves the rest out of account:

      saved value — the bytes by which compression makes it shorter
      lost value  — the bytes by which compression makes it longer

  So a string SWELLS if its compressed bytes are fewer, but not by as much as
  the marker and the second length take.  A snapshot file is the same with
  and without compression but for its strings (`Weighs`), so what it saves
  and loses is what its strings save and lose together.

  Main results:
    * `compression_saves_iff` — when a string, and when a snapshot file, is
      no longer for being compressed;
    * `compression_lengthens` — a string, and a file of it, that is;
    * `Lzf.length_compress_le` — compressed bytes fit in what is set aside for them.
-/
import DurableStore.Proofs.Keyspace.Memory
import DurableStore.Proofs.Snapshot.RoundTrip

namespace DurableStore

/-! ## §1. Single strings. -/

namespace Snapshot

/-- With compression on, a string is written in compressed form. -/
structure Compresses (value : Bytes) : Prop where
  /-- It is not the text of an integer. -/
  text : inlineInteger? value = none
  /-- It is long enough to be tried. -/
  long : minCompressed < value.length
  /-- Its compressed bytes are fewer. -/
  fewer : (Lzf.compress value).length < value.length

instance (value : Bytes) : Decidable (Compresses value) :=
  decidable_of_iff
    (inlineInteger? value = none ∧ minCompressed < value.length
      ∧ (Lzf.compress value).length < value.length)
    ⟨fun h => ⟨h.1, h.2.1, h.2.2⟩, fun h => ⟨h.text, h.long, h.fewer⟩⟩

/-- What a compressed string takes in a file, but for the length that stands before a
plain string too: a marker, the length of the compressed bytes, and these. -/
def compressedSize (value : Bytes) : Nat :=
  1 + (writeLength (Lzf.compress value).length).length + (Lzf.compress value).length

/-- The bytes by which compression makes a string shorter. -/
def saved (value : Bytes) : Nat :=
  if Compresses value then value.length - compressedSize value else 0

/-- The bytes by which compression makes a string longer. -/
def lost (value : Bytes) : Nat :=
  if Compresses value then compressedSize value - value.length else 0

/-- A string is compressed, and the compressed form takes more than the plain one. -/
def Swells (value : Bytes) : Prop := Compresses value ∧ value.length < compressedSize value

instance (value : Bytes) : Decidable (Swells value) := inferInstanceAs (Decidable (_ ∧ _))

variable {value : Bytes}

theorem writeString_of_compresses (h : Compresses value) :
    writeString true value
        = 0xC3 :: (writeLength (Lzf.compress value).length ++ writeLength value.length
            ++ Lzf.compress value)
      ∧ writeString false value = writeLength value.length ++ value := by
  unfold writeString
  rw [h.text]
  constructor
  · simp only [h.long, h.fewer, Bool.true_and, decide_true, if_true]
  · rfl

theorem writeString_of_not_compresses (h : ¬ Compresses value) :
    writeString true value = writeString false value := by
  unfold writeString
  cases htext : inlineInteger? value with
  | some i => rfl
  | none =>
    by_cases hlong : minCompressed < value.length
    · -- it was tried, and its compressed bytes were no fewer
      have hmany : ¬ (Lzf.compress value).length < value.length :=
        fun hfewer => h ⟨htext, hlong, hfewer⟩
      simp [hlong, hmany]
    · simp [hlong]

/-- **What compression does to the length of a string.** -/
theorem length_writeString (value : Bytes) :
    (writeString true value).length + saved value
      = (writeString false value).length + lost value := by
  unfold saved lost
  by_cases h : Compresses value
  · obtain ⟨hcompressed, hplain⟩ := writeString_of_compresses h
    simp only [hcompressed, hplain, if_pos h, compressedSize, List.length_cons, List.length_append]
    omega
  · simp [writeString_of_not_compresses h, h]

theorem length_writeLength_le (n : Nat) : (writeLength n).length ≤ 9 := by
  unfold writeLength
  split_ifs <;> simp

/-- No string gets longer by more than the length of its compressed bytes takes. -/
theorem lost_le (value : Bytes) : lost value ≤ 9 := by
  have hheader := length_writeLength_le (Lzf.compress value).length
  unfold lost compressedSize
  split
  · rename_i h
    have hfewer := h.fewer
    omega
  · omega

theorem length_writeString_le_iff (value : Bytes) :
    (writeString true value).length ≤ (writeString false value).length ↔ ¬ Swells value := by
  have hlength := length_writeString value
  unfold saved lost at hlength
  unfold Swells
  by_cases h : Compresses value
  · simp only [if_pos h] at hlength
    simp only [h, true_and]
    omega
  · simp only [if_neg h] at hlength
    simp only [h, false_and, not_false_eq_true, iff_true]
    omega

/-! ## §2. Whole files. -/

/-- Bytes that were written with compression and without it, and that are the same but for
some strings. -/
def Weighs (strings : List Bytes) (compressed plain : Bytes) : Prop :=
  compressed.length + totalCost saved strings = plain.length + totalCost lost strings

theorem weighs_same (bytes : Bytes) : Weighs [] bytes bytes := rfl

theorem weighs_string (value : Bytes) :
    Weighs [value] (writeString true value) (writeString false value) := length_writeString value

theorem Weighs.append {first second : List Bytes} {compressed plain compressed' plain' : Bytes}
    (h : Weighs first compressed plain) (h' : Weighs second compressed' plain') :
    Weighs (first ++ second) (compressed ++ compressed') (plain ++ plain') := by
  unfold Weighs at h h' ⊢
  simp only [List.length_append, totalCost_append]
  omega

/-- What comes before the strings is the same with compression and without it. -/
theorem Weighs.behind {strings : List Bytes} {compressed plain : Bytes}
    (h : Weighs strings compressed plain) (front : Bytes) :
    Weighs strings (front ++ compressed) (front ++ plain) := (weighs_same front).append h

theorem Weighs.flatMap {α : Type} {strings : α → List Bytes} {compressed plain : α → Bytes}
    (h : ∀ a, Weighs (strings a) (compressed a) (plain a)) (items : List α) :
    Weighs (items.flatMap strings) (items.flatMap compressed) (items.flatMap plain) := by
  induction items with
  | nil => rfl
  | cons a items ih =>
    rw [List.flatMap_cons, List.flatMap_cons, List.flatMap_cons]
    exact (h a).append ih

theorem weighs_strings (items : List Bytes) :
    Weighs items (items.flatMap (writeString true)) (items.flatMap (writeString false)) := by
  have hall := Weighs.flatMap weighs_string items
  rw [List.flatMap_singleton'] at hall
  exact hall

/-- **A value**, one case for each kind: its elements are strings, and scores are not
compressed. -/
theorem weighs_value (value : Value) :
    Weighs value.strings (writeValue true value) (writeValue false value) := by
  cases value with
  | string bytes => exact weighs_string bytes
  | list items => exact (weighs_strings items).behind _
  | set members => exact (weighs_strings members.members).behind _
  | hash fields =>
    refine Weighs.behind (Weighs.flatMap ?_ fields.toList) _
    intro p
    exact (weighs_string p.1).append (weighs_string p.2)
  | sortedSet members =>
    have hmembers := Weighs.flatMap
      (fun p : Bytes × Score => (weighs_string p.1).append (weighs_same (writeTextScore p.2)))
      members.toList
    simp only [List.append_nil, ← List.map_eq_flatMap] at hmembers
    exact hmembers.behind _

/-- The strings of an entry: its key and those of its value. -/
def entryStrings (p : Bytes × Entry) : List Bytes := p.1 :: p.2.value.strings

/-- The strings that stand in the file of a snapshot. -/
def strings (s : Snapshot) : List Bytes := s.liveDatabases.flatMap fun d => d.2.flatMap entryStrings

theorem weighs_entry (p : Bytes × Entry) :
    Weighs (entryStrings p) (writeEntry true p.1 p.2) (writeEntry false p.1 p.2) := by
  have hentry := (weighs_string p.1).append (weighs_value p.2.value)
  exact (hentry.behind [(Layout.ofValue p.2.value).code]).behind (writeDeadline p.2.expiresAt)

theorem weighs_database (d : Nat × List (Bytes × Entry)) :
    Weighs (d.2.flatMap entryStrings) (writeDatabase true d.1 d.2) (writeDatabase false d.1 d.2) := by
  rw [writeDatabase_eq, writeDatabase_eq]
  exact ((Weighs.flatMap weighs_entry d.2).behind _).behind _

/-- **A snapshot file with compression and without it.** -/
theorem weighs_encode (s : Snapshot) : Weighs s.strings (encode true s) (encode false s) := by
  have hdatabases := (Weighs.flatMap weighs_database s.liveDatabases).append
    (weighs_same (endOfFile :: List.replicate 8 0))
  rw [List.append_nil] at hdatabases
  rw [encode_eq, encode_eq]
  exact hdatabases.behind _

/-- **When compression does not make things longer.**  A string is no longer for it exactly
if it does not swell, and by nine bytes at most if it does.  A snapshot file is no longer for
it exactly if its strings lose no more than they save, all of them together. -/
theorem compression_saves_iff (value : Bytes) (s : Snapshot) :
    ((writeString true value).length ≤ (writeString false value).length ↔ ¬ Swells value)
      ∧ (writeString true value).length ≤ (writeString false value).length + 9
      ∧ ((encode true s).length ≤ (encode false s).length
        ↔ totalCost lost s.strings ≤ totalCost saved s.strings) := by
  refine ⟨length_writeString_le_iff value, ?_, ?_⟩
  · have hlength := length_writeString value
    have hlost := lost_le value
    omega
  · have hlength := weighs_encode s
    unfold Weighs at hlength
    omega

end Snapshot

/-! ## §3. What compression may cost. -/

namespace Lzf

/-- The room that is reserved for the compressed form of `n` bytes: the bytes, a control byte
for every full run of literals, and one more. -/
def reserve (n : Nat) : Nat := n + n / maxLiteral + 1

/-- How many bytes chunks take. -/
def encodedLength (chunks : List Chunk) : Nat := (chunks.flatMap Chunk.encode).length

theorem encodedLength_cons (chunk : Chunk) (chunks : List Chunk) :
    encodedLength (chunk :: chunks) = chunk.encode.length + encodedLength chunks := by
  unfold encodedLength
  rw [List.flatMap_cons, List.length_append]

theorem encodedLength_append (first second : List Chunk) :
    encodedLength (first ++ second) = encodedLength first + encodedLength second := by
  unfold encodedLength
  rw [List.flatMap_append, List.length_append]

/-- **A reference saves a byte at least**: two bytes stand for three or more, three for nine
or more. -/
theorem length_encode_reference_lt {length : Nat} (distance : Nat) (h : 3 ≤ length) :
    (Chunk.reference distance length).encode.length < length := by
  unfold Chunk.encode
  dsimp only
  split
  · show 2 < length
    omega
  · show 3 < length
    omega

/-- Literal bytes take one control byte for each run that is begun. -/
theorem encodedLength_pieces {budget : Nat} {bytes : Bytes} (h : bytes.length ≤ budget) :
    encodedLength ((Bytes.pieces maxLiteral budget bytes).map Chunk.literal)
      = bytes.length + (bytes.length + 31) / 32 := by
  induction budget generalizing bytes with
  | zero =>
    obtain rfl := List.eq_nil_of_length_eq_zero (Nat.le_zero.1 h)
    rfl
  | succ budget ih =>
    cases bytes with
    | nil => rfl
    | cons b bytes =>
      have hdrop : ((b :: bytes).drop 32).length = bytes.length + 1 - 32 := List.length_drop
      have htake : ((b :: bytes).take 32).length = min 32 (bytes.length + 1) := List.length_take
      have hfew : ((b :: bytes).drop 32).length ≤ budget := by
        simp only [List.length_cons] at h
        omega
      have hrest := ih hfew
      show encodedLength (.literal ((b :: bytes).take 32) :: List.map Chunk.literal
        (Bytes.pieces maxLiteral budget ((b :: bytes).drop 32))) = _
      rw [encodedLength_cons, hrest]
      show ((b :: bytes).take 32).length + 1 + _ = _
      simp only [htake, hdrop, List.length_cons]
      omega

theorem encodedLength_literals_le (run : Bytes) :
    encodedLength (literals run) ≤ reserve run.length := by
  have hexact := encodedLength_pieces (Nat.le_refl run.reverse.length)
  have hlength : run.reverse.length = run.length := List.length_reverse
  show encodedLength ((Bytes.pieces maxLiteral run.reverse.length run.reverse).map Chunk.literal) ≤ _
  rw [hexact, hlength]
  unfold reserve maxLiteral
  omega

/-- A reference between two parts pays for the second one byte of their reserves. -/
theorem reserve_add_le {cost length : Nat} (h : cost < length) (before after : Nat) :
    reserve before + (cost + reserve after) ≤ reserve (before + length + after) := by
  unfold reserve maxLiteral
  omega

/-- A reference copies three bytes at least, and no more than are left. -/
theorem bounds_of_reference? {seen : Option (Nat × Bytes)} {position distance length : Nat}
    {input : Bytes} (h : reference? seen position input = some (distance, length)) :
    3 ≤ length ∧ length ≤ input.length := by
  cases seen with
  | none => exact absurd h (by simp [reference?])
  | some seen =>
    unfold reference? at h
    dsimp only at h
    split at h
    · rename_i hfound
      obtain ⟨-, rfl⟩ := Prod.mk.inj (Option.some.inj h)
      exact ⟨hfound.2, (commonLength_spec _ _ _).2.1⟩
    · exact absurd h (by simp)

/-- **The chunks from a position on fit in the reserve** of the bytes that they stand for: the
run that is not written yet, and what no reference covers of the input. -/
theorem encodedLength_chunksFrom_le {table : Table} {position skip : Nat} {run input : Bytes}
    (hskip : skip ≤ input.length) :
    encodedLength (chunksFrom table position run skip input)
      ≤ reserve (run.length + (input.length - skip)) := by
  induction input generalizing table position run skip with
  | nil =>
    obtain rfl := Nat.le_zero.1 hskip
    rw [chunksFrom]
    exact encodedLength_literals_le run
  | cons a rest ih =>
    simp only [List.length_cons] at hskip ⊢
    cases skip with
    | succ skip =>
      have hcovered : rest.length + 1 - (skip + 1) = rest.length - skip := by omega
      rw [chunksFrom, hcovered]
      exact ih (by omega)
    | zero =>
      -- A byte that goes into the run is moved from the input to the run.
      have hliteral : ∀ {table' : Table},
          encodedLength (chunksFrom table' (position + 1) (a :: run) 0 rest)
            ≤ reserve (run.length + (rest.length + 1 - 0)) := by
        intro table'
        have hmoved :
            (a :: run).length + (rest.length - 0) = run.length + (rest.length + 1 - 0) := by
          simp only [List.length_cons]
          omega
        rw [← hmoved]
        exact ih (Nat.zero_le _)
      rw [chunksFrom.eq_def]
      dsimp only
      split
      · split
        · -- A reference ends the run.  It costs less than it copies, and that pays for the
          -- control byte that the next run may need.
          rename_i b c tail _ distance length hfound
          obtain ⟨hmin, hinside⟩ := bounds_of_reference? hfound
          rw [List.length_cons] at hinside
          have hbefore := encodedLength_literals_le run
          have hafter := @ih (table.insert (slot a b c) (position, a :: b :: c :: tail))
            (position + 1) (length - 1) [] (by omega)
          have hjoin := reserve_add_le (length_encode_reference_lt distance hmin) run.length
            ((b :: c :: tail).length - (length - 1))
          have hwhole : run.length + length + ((b :: c :: tail).length - (length - 1))
              = run.length + ((b :: c :: tail).length + 1 - 0) := by omega
          rw [List.length_nil, Nat.zero_add] at hafter
          rw [encodedLength_append, encodedLength_cons, ← hwhole]
          omega
        · exact hliteral
      · exact hliteral

/-- **Compressed bytes fit in the room that is reserved for them**: of every 32 bytes one
more may be needed, and one more at the end. -/
theorem length_compress_le (input : Bytes) :
    (compress input).length ≤ input.length + input.length / 32 + 1 := by
  have hfits := @encodedLength_chunksFrom_le ∅ 0 0 [] input (Nat.zero_le input.length)
  simp only [List.length_nil, Nat.zero_add, Nat.sub_zero] at hfits
  exact hfits

/-- Of a single byte, none of the reserve is left over. -/
example : (compress [7]).length = 1 + 1 / 32 + 1 := rfl

/-! ## §4. A string that repeats late. -/

/-- Where the three bytes at a place of a string are remembered. -/
def slotAt (whole : Bytes) (i : Nat) : Nat :=
  slot (whole.getD i 0) (whole.getD (i + 1) 0) (whole.getD (i + 2) 0)

/-- **While the slots are new, all bytes are literal**, by induction on their number: each
place finds its slot empty and fills it. -/
theorem chunksOf_of_new_slots {whole : Bytes} {n : Nat} (hinside : n + 2 ≤ whole.length)
    (hnew : ((List.range n).map (slotAt whole)).Nodup) :
    ∃ table : Table, chunksOf whole = chunksFrom table n (whole.take n).reverse 0 (whole.drop n)
      ∧ (∀ i < n, table[slotAt whole i]? = some (i, whole.drop i))
      ∧ ∀ s, s ∉ (List.range n).map (slotAt whole) → table[s]? = none := by
  induction n with
  | zero =>
    refine ⟨∅, rfl, fun i hi => absurd hi (Nat.not_lt_zero i), ?_⟩
    intro s _
    exact Std.HashMap.getElem?_empty
  | succ n ih =>
    rw [List.range_succ, List.map_append, List.map_singleton, List.nodup_append] at hnew
    obtain ⟨hbefore, -, hother⟩ := hnew
    obtain ⟨table, hchunks, hfilled, hempty⟩ := ih (by omega) hbefore
    have hfresh : slotAt whole n ∉ (List.range n).map (slotAt whole) :=
      fun hmem => hother _ hmem _ (List.mem_singleton_self _) rfl
    have hrest : whole.drop n = whole[n] :: whole[n + 1] :: whole[n + 2] :: whole.drop (n + 3) := by
      rw [List.drop_eq_getElem_cons, List.drop_eq_getElem_cons, List.drop_eq_getElem_cons]
    have hslot : slot whole[n] whole[n + 1] whole[n + 2] = slotAt whole n := by
      unfold slotAt
      rw [← List.getElem_eq_getD 0, ← List.getElem_eq_getD 0, ← List.getElem_eq_getD 0]
    -- one more byte goes into the run, and its three bytes into the table
    refine ⟨table.insert (slotAt whole n) (n, whole.drop n), ?_, ?_, ?_⟩
    · -- the slot is empty, so there is nothing to refer to
      have hrun : (whole.take (n + 1)).reverse = whole[n] :: (whole.take n).reverse := by
        rw [List.take_succ_eq_append_getElem (by omega), List.reverse_append]
        rfl
      have hnext : whole.drop (n + 1) = whole[n + 1] :: whole[n + 2] :: whole.drop (n + 3) := by
        rw [List.drop_eq_getElem_cons, List.drop_eq_getElem_cons]
      rw [hchunks, hrun, hnext, hrest, chunksFrom]
      simp only [hslot, hempty _ hfresh, reference?]
    · intro i hi
      rw [Std.HashMap.getElem?_insert]
      by_cases hlast : i = n
      · rw [hlast, if_pos (beq_self_eq_true _)]
      · have hmem : slotAt whole i ∈ (List.range n).map (slotAt whole) :=
          List.mem_map_of_mem (List.mem_range.2 (by omega))
        have hne : slotAt whole n ≠ slotAt whole i := by
          intro heq
          rw [heq] at hfresh
          exact hfresh hmem
        simp only [beq_iff_eq, hne, if_false]
        exact hfilled i (by omega)
    · intro s hs
      rw [List.range_succ, List.map_append, List.map_singleton] at hs
      have hne : slotAt whole n ≠ s := fun heq => hs (by simp [heq])
      rw [Std.HashMap.getElem?_insert]
      simp only [beq_iff_eq, hne, if_false]
      exact hempty s fun hmem => hs (List.mem_append_left _ hmem)

/-- Seventeen different letters, and the first four of them again. -/
def lateRepeat : Bytes := Bytes.ofString "abcdefghijklmnopqabcd"

/-- One run of literal bytes and one reference. -/
theorem chunksOf_lateRepeat :
    chunksOf lateRepeat = [.literal (Bytes.ofString "abcdefghijklmnopq"), .reference 17 4] := by
  have hnew : ((List.range 17).map (slotAt lateRepeat)).Nodup := by decide +kernel
  obtain ⟨table, hchunks, hfilled, -⟩ := chunksOf_of_new_slots (n := 17) (by decide) hnew
  have hseen := hfilled 0 (by decide)
  have hslot : slotAt lateRepeat 0 = slot 97 98 99 := by decide
  have hfound : reference? (some (0, lateRepeat)) 17 [97, 98, 99, 100] = some (17, 4) := by decide
  rw [hslot, List.drop_zero] at hseen
  rw [hchunks, show lateRepeat.drop 17 = [97, 98, 99, 100] from by decide, chunksFrom]
  simp only [hseen, hfound]
  rfl

end Lzf

/-! ## §5. A file that compression makes longer. -/

namespace Snapshot

open Lzf (lateRepeat)

/-- A snapshot of one key that holds the string. -/
def lateRepeatSnapshot : Snapshot where
  takenAt := 0
  databases := [[(Bytes.ofString "k", Entry.fresh (.string lateRepeat) none)]]

theorem swells_lateRepeat : Swells lateRepeat := by
  have hlength : (Lzf.compress lateRepeat).length = 20 := by
    unfold Lzf.compress
    rw [Lzf.chunksOf_lateRepeat]
    decide
  refine ⟨⟨by decide, by decide, ?_⟩, ?_⟩
  · rw [hlength]
    decide
  · unfold compressedSize
    rw [hlength]
    decide

/-- **Compression makes a string, and a file of it, longer.**  The 21 bytes of the string are
compressed to 20, and the marker and the second length take two. -/
theorem compression_lengthens :
    (writeString false lateRepeat).length < (writeString true lateRepeat).length
      ∧ (encode false lateRepeatSnapshot).length < (encode true lateRepeatSnapshot).length := by
  obtain ⟨hcompresses, hlarger⟩ := swells_lateRepeat
  have hstrings : lateRepeatSnapshot.strings = [Bytes.ofString "k", lateRepeat] := rfl
  have hkey : ¬ Compresses (Bytes.ofString "k") := fun h => absurd h.long (by decide)
  have hstring := length_writeString lateRepeat
  have hfile := weighs_encode lateRepeatSnapshot
  unfold Weighs at hfile
  rw [hstrings] at hfile
  simp only [totalCost, List.foldr_cons, List.foldr_nil, saved, lost, if_neg hkey,
    if_pos hcompresses] at hstring hfile
  constructor <;> omega

end Snapshot

end DurableStore
