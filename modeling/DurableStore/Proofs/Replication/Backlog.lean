/-
  DurableStore.Proofs.Replication.Backlog
  ────────────────────────────────
  **THE BACKLOG IS THE END OF A STREAM.**

  The ring of a backlog is written and read in blocks.  A block that is
  longer than the ring loses its head, and a block that goes past the end of
  the ring is copied in two parts, so where a byte comes to stand depends on
  the lengths of all blocks before.  None of this shows:

      b.push byte     — one byte is appended, in place of the oldest one
      b.Keeps stream  — the last bytes of a stream stand in the ring where
                        their offsets say

  A block is written like its bytes one by one (`write_eq_foldl_push`), a
  byte that is appended leaves the end of the stream in the ring
  (`Keeps.push`), and what is read is a piece of the stream
  (`Keeps.read?_eq`).

  Main result: `ring_refines_stream`.
-/
import DurableStore.Replication.Backlog

namespace DurableStore.Backlog

/-! ## §1. Copying. -/

/-- **The byte at a place after a copy**: a new one if the copy reaches there. -/
theorem getElem?_copyTo (ring : Array UInt8) (start : Nat) (bytes : Bytes) (p : Nat) :
    (copyTo ring start bytes)[p]?
      = if start ≤ p ∧ p < start + bytes.length ∧ p < ring.size then bytes[p - start]?
        else ring[p]? := by
  induction bytes generalizing ring start with
  | nil =>
    have hout : ¬ (start ≤ p ∧ p < start + ([] : Bytes).length ∧ p < ring.size) := by
      simp only [List.length_nil]
      omega
    rw [if_neg hout]
    rfl
  | cons byte bytes ih =>
    rw [copyTo, ih, Array.getElem?_setIfInBounds, Array.size_setIfInBounds, List.length_cons]
    by_cases hfirst : start = p
    · subst hfirst
      by_cases hin : start < ring.size
      · rw [if_neg (by omega), if_pos rfl, if_pos hin, if_pos (by omega), Nat.sub_self]
        rfl
      · rw [if_neg (by omega), if_pos rfl, if_neg hin, if_neg (by omega),
          Array.getElem?_eq_none (by omega)]
    · by_cases hlater : start + 1 ≤ p ∧ p < start + 1 + bytes.length ∧ p < ring.size
      · have hplace : p - start = p - (start + 1) + 1 := by omega
        rw [if_pos hlater, if_pos (by omega), hplace, List.getElem?_cons_succ]
      · rw [if_neg hlater, if_neg hfirst, if_neg (by omega)]

/-- The byte at a place after a copy that goes once around the ring. -/
theorem getElem?_copyAround {ring : Array UInt8} {start : Nat} {bytes : Bytes}
    (hall : bytes.length = ring.size) (hstart : start < ring.size) (p : Nat) :
    (copyAround ring start bytes)[p]?
      = if p < start then (bytes.drop (ring.size - start))[p]?
        else if p < ring.size then (bytes.take (ring.size - start))[p - start]? else none := by
  have hfirst : min bytes.length (ring.size - start) = ring.size - start := by omega
  have hback : (bytes.take (ring.size - start)).length = ring.size - start := by
    rw [List.length_take]
    omega
  have hfront : (bytes.drop (ring.size - start)).length = start := by
    rw [List.length_drop]
    omega
  unfold copyAround
  dsimp only
  rw [hfirst, getElem?_copyTo, getElem?_copyTo, size_copyTo, hback, hfront, Nat.sub_zero]
  by_cases hbefore : p < start
  · rw [if_pos (by omega), if_pos hbefore]
  · by_cases hinside : p < ring.size
    · rw [if_neg (by omega), if_pos (by omega), if_neg hbefore, if_pos hinside]
    · rw [if_neg (by omega), if_neg (by omega), if_neg hbefore, if_neg hinside,
        Array.getElem?_eq_none (by omega)]

/-- Such a copy leaves nothing of what was there. -/
theorem copyAround_congr {ring ring' : Array UInt8} {start : Nat} {bytes : Bytes}
    (hsize : ring'.size = ring.size) (hall : bytes.length = ring.size) (hstart : start < ring.size) :
    copyAround ring' start bytes = copyAround ring start bytes := by
  refine Array.ext_getElem? fun p => ?_
  rw [getElem?_copyAround (hall.trans hsize.symm) (hsize ▸ hstart), getElem?_copyAround hall hstart,
    hsize]

/-! ## §2. One byte after the other. -/

/-- The byte kept for an offset. -/
def byteAt (b : Backlog) (offset : Nat) : UInt8 :=
  have _inRing : offset % b.ring.size < b.ring.size := Nat.mod_lt _ b.nonempty
  b.ring[offset % b.ring.size]

/-- Appends a byte to the stream, in place of the oldest one kept. -/
def push (b : Backlog) (byte : UInt8) : Backlog where
  ring := b.ring.set (b.offset % b.ring.size) byte (Nat.mod_lt _ b.nonempty)
  offset := b.offset + 1
  nonempty := by simpa using b.nonempty

@[simp] theorem capacity_push (b : Backlog) (byte : UInt8) :
    (b.push byte).capacity = b.capacity := by
  simp [push, capacity]

@[simp] theorem offset_push (b : Backlog) (byte : UInt8) :
    (b.push byte).offset = b.offset + 1 := rfl

theorem capacity_foldl_push (b : Backlog) (bytes : Bytes) :
    (bytes.foldl push b).capacity = b.capacity := by
  induction bytes generalizing b with
  | nil => rfl
  | cons byte bytes ih => exact (ih (b.push byte)).trans (capacity_push b byte)

theorem offset_foldl_push (b : Backlog) (bytes : Bytes) :
    (bytes.foldl push b).offset = b.offset + bytes.length := by
  induction bytes generalizing b with
  | nil => rfl
  | cons byte bytes ih =>
    rw [List.foldl_cons, ih, offset_push, List.length_cons]
    omega

theorem eq_of_ring_of_offset {b b' : Backlog} (hring : b.ring = b'.ring)
    (hoffset : b.offset = b'.offset) : b = b' := by
  cases b
  cases b'
  cases hring
  cases hoffset
  rfl

theorem ring_push (b : Backlog) (byte : UInt8) :
    (b.push byte).ring = b.ring.setIfInBounds (b.offset % b.capacity) byte := by
  have hplace : b.offset % b.capacity < b.ring.size := Nat.mod_lt _ b.nonempty
  unfold Array.setIfInBounds
  rw [dif_pos hplace]
  rfl

/-- Bytes that fit before the end of the ring are copied in one piece. -/
theorem ring_foldl_push_of_fits {b : Backlog} {bytes : Bytes}
    (h : b.offset % b.capacity + bytes.length ≤ b.capacity) :
    (bytes.foldl push b).ring = copyTo b.ring (b.offset % b.capacity) bytes := by
  induction bytes generalizing b with
  | nil => rfl
  | cons byte bytes ih =>
    rw [List.length_cons] at h
    rw [List.foldl_cons, copyTo, ← ring_push]
    cases bytes with
    | nil => rfl
    | cons next bytes =>
      -- another byte follows, so the next place is still in the ring
      have hnext : (b.offset + 1) % b.capacity = b.offset % b.capacity + 1 := by
        rw [List.length_cons] at h
        rw [← Nat.mod_add_mod, Nat.mod_eq_of_lt (by omega)]
      have hrest := ih (b := b.push byte) (by rw [offset_push, capacity_push, hnext]; omega)
      rw [hrest, offset_push, capacity_push, hnext]

/-- Bytes that fit in the ring are copied in two pieces. -/
theorem ring_foldl_push_of_le {b : Backlog} {bytes : Bytes} (h : bytes.length ≤ b.capacity) :
    (bytes.foldl push b).ring = copyAround b.ring (b.offset % b.capacity) bytes := by
  have hstart : b.offset % b.capacity < b.capacity := Nat.mod_lt _ b.nonempty
  unfold copyAround
  dsimp only
  rw [show b.ring.size = b.capacity from rfl]
  by_cases hfits : bytes.length ≤ b.capacity - b.offset % b.capacity
  · rw [Nat.min_eq_left hfits, List.take_length, List.drop_length,
      ring_foldl_push_of_fits (by omega)]
    rfl
  · -- the first part ends with the ring, and the second one begins at its front
    generalize hfirst : b.capacity - b.offset % b.capacity = first at hfits ⊢
    have hlength : (bytes.take first).length = first := by
      rw [List.length_take]
      omega
    have hrest : (bytes.drop first).length = bytes.length - first := List.length_drop
    have hzero : ((bytes.take first).foldl push b).offset
        % ((bytes.take first).foldl push b).capacity = 0 := by
      rw [offset_foldl_push, capacity_foldl_push, hlength, ← Nat.mod_add_mod, ← hfirst,
        Nat.add_sub_cancel' (Nat.le_of_lt hstart), Nat.mod_self]
    have hsecond : ((bytes.drop first).foldl push ((bytes.take first).foldl push b)).ring
        = copyTo ((bytes.take first).foldl push b).ring 0 (bytes.drop first) := by
      rw [ring_foldl_push_of_fits, hzero]
      rw [hzero, capacity_foldl_push, hrest]
      omega
    rw [Nat.min_eq_right (by omega), ← ring_foldl_push_of_fits (by omega), ← hsecond,
      ← List.foldl_append, List.take_append_drop]

/-- **A block is written like its bytes one by one.**  The head that a longer
block loses would be written over by what follows it. -/
theorem write_eq_foldl_push (b : Backlog) (bytes : Bytes) : b.write bytes = bytes.foldl push b := by
  refine eq_of_ring_of_offset ?_ (offset_foldl_push b bytes).symm
  unfold write
  dsimp only
  by_cases hfits : bytes.length ≤ b.capacity
  · rw [Nat.sub_eq_zero_of_le hfits, List.drop_zero, Nat.add_zero, ring_foldl_push_of_le hfits]
  · generalize hskipped : bytes.length - b.capacity = skipped
    have hhead : (bytes.take skipped).length = skipped := by
      rw [List.length_take]
      omega
    have hlast : (bytes.drop skipped).length = b.capacity := by
      rw [List.length_drop]
      omega
    have hcapacity := capacity_foldl_push b (bytes.take skipped)
    have hoffset := offset_foldl_push b (bytes.take skipped)
    have hpushed : ((bytes.drop skipped).foldl push ((bytes.take skipped).foldl push b)).ring = _ :=
      ring_foldl_push_of_le (by omega)
    rw [← List.foldl_append, List.take_append_drop, hcapacity, hoffset, hhead] at hpushed
    rw [hpushed]
    exact (copyAround_congr hcapacity hlast (Nat.mod_lt _ b.nonempty)).symm

theorem write_nil (b : Backlog) : b.write [] = b := write_eq_foldl_push b []

theorem write_append (b : Backlog) (as bs : Bytes) :
    b.write (as ++ bs) = (b.write as).write bs := by
  rw [write_eq_foldl_push, write_eq_foldl_push, write_eq_foldl_push, List.foldl_append]

/-! ## §3. The end of a stream. -/

/-- A backlog keeps the end of a stream: a byte stands where its offset says until
it is written over. -/
structure Keeps (b : Backlog) (stream : Bytes) : Prop where
  offset : b.offset = stream.length
  kept : ∀ o, o < stream.length → stream.length ≤ o + b.capacity → stream[o]? = some (b.byteAt o)

variable {b : Backlog} {stream : Bytes}

theorem keeps_new (capacity : Nat) : (new capacity).Keeps [] :=
  ⟨rfl, fun _ h => absurd h (Nat.not_lt_zero _)⟩

/-- Offsets that differ by less than the capacity stand at different places. -/
theorem mod_ne_mod {o n size : Nat} (h : o < n) (hnear : n < o + size) : o % size ≠ n % size := by
  intro heq
  have hzero : (n - o) % size = 0 := Nat.sub_mod_eq_zero_of_mod_eq heq.symm
  rw [Nat.mod_eq_of_lt (by omega)] at hzero
  omega

/-- **A byte that is appended** takes the place of the oldest one kept. -/
theorem Keeps.push (h : b.Keeps stream) (byte : UInt8) :
    (b.push byte).Keeps (stream ++ [byte]) := by
  have hlength : (stream ++ [byte]).length = stream.length + 1 := List.length_append
  have hsize : (b.push byte).ring.size = b.ring.size := b.capacity_push byte
  have hset : ∀ o, (b.push byte).byteAt o
      = if b.offset % b.ring.size = o % b.ring.size then byte else b.byteAt o := by
    intro o
    unfold byteAt
    dsimp only
    simp only [hsize]
    exact Array.getElem_set (Nat.mod_lt _ b.nonempty) _
  refine ⟨?_, ?_⟩
  · rw [offset_push, hlength, h.offset]
  · intro o ho hnear
    rw [hlength] at ho hnear
    rw [hset, h.offset]
    -- the new byte takes the place of one that is a whole ring older, and not kept any more
    by_cases hlast : o = stream.length
    · rw [hlast, if_pos rfl, List.getElem?_concat_length]
    · have hbefore : o < stream.length := by omega
      rw [capacity_push] at hnear
      have hplace : stream.length % b.ring.size ≠ o % b.ring.size :=
        (mod_ne_mod hbefore hnear).symm
      rw [if_neg hplace, List.getElem?_append_left hbefore]
      exact h.kept o hbefore (Nat.le_of_succ_le hnear)

/-- **Bytes that are appended**, by induction on them. -/
theorem Keeps.write (h : b.Keeps stream) (bytes : Bytes) :
    (b.write bytes).Keeps (stream ++ bytes) := by
  rw [write_eq_foldl_push]
  induction bytes generalizing b stream with
  | nil =>
    rw [List.append_nil]
    exact h
  | cons byte bytes ih =>
    have hrest := ih (h.push byte)
    rw [List.append_assoc] at hrest
    exact hrest

/-- What is written to an empty backlog is kept as far as it fits. -/
theorem keeps_write_new (size : Nat) (stream : Bytes) : ((new size).write stream).Keeps stream :=
  (keeps_new size).write stream

theorem capacity_write_new (size : Nat) (stream : Bytes) :
    ((new size).write stream).capacity = max size 1 := by
  rw [capacity_write]
  exact Array.size_replicate

/-! ## §4. Reading. -/

/-- The block that stands from an offset on holds the bytes of the next offsets. -/
theorem getElem?_slice {o length i : Nat} (h : length ≤ b.capacity) (hi : i < length) :
    (b.slice o length)[i]? = some (b.byteAt (o + i)) := by
  have hstart : o % b.capacity < b.capacity := Nat.mod_lt _ b.nonempty
  have hplace : (o + i) % b.capacity < b.ring.size := Nat.mod_lt _ b.nonempty
  have hbyte : some (b.byteAt (o + i)) = b.ring[(o + i) % b.capacity]? :=
    (Array.getElem?_eq_getElem hplace).symm
  have hsum : (o + i) % b.capacity = (o % b.capacity + i) % b.capacity := (Nat.mod_add_mod ..).symm
  unfold slice
  dsimp only
  rw [hbyte, hsum, List.getElem?_append, Array.length_toList, Array.size_extract,
    Array.getElem?_toList, Array.getElem?_toList, Array.getElem?_extract, Array.getElem?_extract]
  rw [show b.ring.size = b.capacity from rfl]
  by_cases hbefore : o % b.capacity + i < b.capacity
  · rw [if_pos (by omega), if_pos (by omega), Nat.mod_eq_of_lt hbefore]
  · -- past the end of the ring the block goes on at its front
    have hwrapped : (o % b.capacity + i) % b.capacity = o % b.capacity + i - b.capacity := by
      rw [Nat.mod_eq_sub_mod (by omega), Nat.mod_eq_of_lt (by omega)]
    rw [if_neg (by omega), if_pos (by omega), hwrapped]
    congr 1
    omega

theorem length_slice {o length : Nat} (h : length ≤ b.capacity) :
    (b.slice o length).length = length := by
  have hstart : o % b.capacity < b.capacity := Nat.mod_lt _ b.nonempty
  unfold slice
  dsimp only
  rw [List.length_append, Array.length_toList, Array.length_toList, Array.size_extract,
    Array.size_extract, show b.ring.size = b.capacity from rfl]
  omega

theorem isValid_iff (h : b.Keeps stream) (o : Nat) :
    b.isValid o = true ↔ stream.length - b.capacity ≤ o ∧ o ≤ stream.length := by
  unfold isValid oldest
  rw [Bool.and_eq_true, decide_eq_true_iff, decide_eq_true_iff, h.offset]

/-- **What is read is a piece of the stream**, if it is still kept. -/
theorem Keeps.read?_eq (h : b.Keeps stream) (o limit : Nat) :
    b.read? o limit
      = if stream.length - b.capacity ≤ o ∧ o ≤ stream.length then
          some ((stream.drop o).take limit)
        else none := by
  by_cases hin : stream.length - b.capacity ≤ o ∧ o ≤ stream.length
  · have hcount : min (stream.length - o) limit ≤ b.capacity := by omega
    have hpiece : b.slice o (min (stream.length - o) limit) = (stream.drop o).take limit := by
      refine List.ext_getElem? fun i => ?_
      rw [List.getElem?_take, List.getElem?_drop]
      by_cases hi : i < min (stream.length - o) limit
      · rw [getElem?_slice hcount hi, if_pos (by omega), h.kept (o + i) (by omega) (by omega)]
      · -- where the stream or the limit is reached, nothing is read either
        rw [List.getElem?_eq_none (by rw [length_slice hcount]; omega)]
        by_cases hlimit : i < limit
        · rw [if_pos hlimit, List.getElem?_eq_none (by omega)]
        · rw [if_neg hlimit]
    unfold read?
    rw [if_pos ((isValid_iff h o).2 hin), if_pos hin, h.offset, hpiece]
  · unfold read?
    rw [if_neg fun hvalid => hin ((isValid_iff h o).1 hvalid), if_neg hin]

/-- What is read without a limit is the rest of the stream. -/
theorem readAll?_eq (h : b.Keeps stream) (o : Nat) :
    b.readAll? o
      = if stream.length - b.capacity ≤ o ∧ o ≤ stream.length then some (stream.drop o) else none := by
  unfold readAll?
  rw [h.read?_eq, h.offset, List.take_of_length_le (Nat.le_of_eq List.length_drop)]

theorem readAll?_of_keeps (h : b.Keeps stream) {o : Nat} {bytes : Bytes}
    (hread : b.readAll? o = some bytes) : bytes = stream.drop o := by
  rw [readAll?_eq h] at hread
  exact (Option.some.inj (Option.ite_none_right_eq_some.1 hread).2).symm

/-! ## §5. The ring and the stream. -/

/-- A backlog to which blocks were written, one after the other. -/
def written (capacity : Nat) (blocks : List Bytes) : Backlog := blocks.foldl write (new capacity)

/-- Blocks are written like one that they make up. -/
theorem written_eq (capacity : Nat) (blocks : List Bytes) :
    written capacity blocks = (new capacity).write blocks.flatten := by
  unfold written
  generalize new capacity = b
  induction blocks generalizing b with
  | nil => exact (write_nil b).symm
  | cons block blocks ih => rw [List.foldl_cons, ih, List.flatten_cons, write_append]

/-- **The ring refines the stream.**  After any blocks, of any lengths, the
offset is the length of all that was written; from an offset one reads the
next bytes of it, up to the limit or its end, exactly if the offset is not past
the end and no more than the capacity before it; and the offsets from which one
can read are those. -/
theorem ring_refines_stream (capacity : Nat) (blocks : List Bytes) (o limit : Nat) :
    (written capacity blocks).offset = blocks.flatten.length
      ∧ (written capacity blocks).read? o limit
        = (if blocks.flatten.length - max capacity 1 ≤ o ∧ o ≤ blocks.flatten.length then
            some (blocks.flatten.extract o (min (o + limit) blocks.flatten.length))
          else none)
      ∧ (written capacity blocks).isValid o = ((written capacity blocks).read? o limit).isSome := by
  rw [written_eq]
  have hkeeps := keeps_write_new capacity blocks.flatten
  have hcapacity := capacity_write_new capacity blocks.flatten
  have hpiece : blocks.flatten.extract o (min (o + limit) blocks.flatten.length)
      = (blocks.flatten.drop o).take limit := by
    rw [List.extract_eq_take_drop, List.take_eq_take_iff, List.length_drop]
    omega
  have hvalid := isValid_iff hkeeps o
  refine ⟨hkeeps.offset, ?_, ?_⟩
  · rw [hkeeps.read?_eq, hcapacity, hpiece]
  · rw [hkeeps.read?_eq, Bool.eq_iff_iff, hvalid, hcapacity]
    by_cases hin : blocks.flatten.length - max capacity 1 ≤ o ∧ o ≤ blocks.flatten.length
    · rw [if_pos hin, Option.isSome_some]
      exact iff_of_true hin rfl
    · rw [if_neg hin, Option.isSome_none]
      exact iff_of_false hin Bool.false_ne_true

/-- Two bytes are kept, and three were written at once. -/
example : (written 2 [[1], [2, 3, 4]]).read? 2 5 = some [3, 4] := rfl

end DurableStore.Backlog
