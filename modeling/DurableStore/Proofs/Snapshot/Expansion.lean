/-
  DurableStore.Proofs.Snapshot.Expansion
  ────────────────────────────────
  **WHICH COMPRESSED STRINGS ARE DECOMPRESSED.**

  A compressed string is well formed when it splits into complete chunks,
  each of which leads from what was produced so far to what is produced with
  it.  That is said here without the functions that read chunks and carry
  them out:

      chunk.Spells bytes           — the bytes are a form of the chunk
      chunk.Extends before after   — the chunk leads from here to there
      Expands before input out     — the input splits into chunks that lead
                                     from `before` to `out`

  Reading a chunk and carrying it out agree with the first two, in both
  directions (`Chunk.read_eq_ok_iff`, `Chunk.run_of_extends`,
  `Chunk.extends_of_run`).  So a decompression is an expansion, up to the
  length that is expected.

  Main results:
    * `Expands.length_le` — no input byte stands for more than 88 bytes;
    * `decompress_of_expands` — what a well-formed string is answered with,
      whatever length is expected;
    * `decompress_accepts_iff` — the strings that are accepted.
-/
import DurableStore.Proofs.Results
import DurableStore.Snapshot.Lzf

namespace DurableStore.Lzf

/-! ## §1. Well-formed strings. -/

/-- The three forms of a chunk: `000LLLLL` before L + 1 bytes, `LLLooooo oooooooo`
with an L from 1 to 6, and `111ooooo LLLLLLLL oooooooo`. -/
inductive Chunk.Spells : Chunk → Bytes → Prop where
  | literal {control : UInt8} {bytes : Bytes} (hcontrol : control.toNat < 32)
      (hlength : bytes.length = control.toNat + 1) : Spells (.literal bytes) (control :: bytes)
  | short {control low : UInt8} {l high : Nat} (hcontrol : control.toNat = l * 32 + high)
      (hl : 1 ≤ l ∧ l ≤ 6) (hhigh : high < 32) :
      Spells (.reference (high * 256 + low.toNat + 1) (l + 2)) [control, low]
  | long {control extra low : UInt8} {high : Nat} (hcontrol : control.toNat = 7 * 32 + high)
      (hhigh : high < 32) :
      Spells (.reference (high * 256 + low.toNat + 1) (extra.toNat + 9)) [control, extra, low]

/-- A chunk leads from some bytes to more.  A reference reaches back at least one byte
and at most to the first, and every byte that it adds is the one that stands its
distance before, be it one that it has added itself. -/
def Chunk.Extends (before after : Bytes) : Chunk → Prop
  | .literal bytes => after = before ++ bytes
  | .reference distance length =>
    (0 < distance ∧ distance ≤ before.length)
      ∧ (before <+: after ∧ after.length = before.length + length)
      ∧ ∀ i < length, after[before.length + i]? = after[before.length + i - distance]?

/-- A string splits into chunks that lead from what was produced so far to an output. -/
inductive Expands : Bytes → Bytes → Bytes → Prop where
  | done (out : Bytes) : Expands out [] out
  | chunk {before after bytes rest out : Bytes} {chunk : Chunk} (hspells : chunk.Spells bytes)
      (hextends : chunk.Extends before after) (hrest : Expands after rest out) :
      Expands before (bytes ++ rest) out

/-! ## §2. Reading a chunk. -/

/-- **A chunk is read exactly from its forms.** -/
theorem Chunk.read_eq_ok_iff {control : UInt8} {input rest : Bytes} {chunk : Chunk} :
    Chunk.read control input = .ok (chunk, rest)
      ↔ ∃ bytes, chunk.Spells (control :: bytes) ∧ input = bytes ++ rest := by
  have hcontrol : control.toNat < 256 := control.toNat_lt
  constructor
  · -- the upper three bits of the control byte say the form: 0, 7, or between
    intro h
    unfold Chunk.read at h
    dsimp only at h
    split at h
    · rename_i hkind
      split at h
      · cases h
      · rename_i hcount
        cases h
        have hlength : (input.take (control.toNat % 32 + 1)).length = control.toNat + 1 := by
          rw [List.length_take] at hcount ⊢
          omega
        exact ⟨_, .literal (by omega) hlength, (List.take_append_drop _ _).symm⟩
    · split at h
      · rename_i hkind
        split at h
        · rename_i extra low rest'
          cases h
          exact ⟨[extra, low], .long (by omega) (Nat.mod_lt _ (by decide)), rfl⟩
        · cases h
      · rename_i hzero hseven
        split at h
        · rename_i low rest'
          cases h
          exact ⟨[low], .short (by omega) (by omega) (Nat.mod_lt _ (by decide)), rfl⟩
        · cases h
  · -- a form fixes those bits, so the reader takes its branch
    rintro ⟨bytes, hspells, rfl⟩
    unfold Chunk.read
    dsimp only
    cases hspells with
    | literal hshort hlength =>
      have hcount : control.toNat % 32 + 1 = bytes.length := by omega
      rw [if_pos (by omega), hcount, List.take_left, if_neg (Nat.lt_irrefl _), List.drop_left]
    | @short _ low l high hfields hl hhigh =>
      have hkind : control.toNat / 32 = l := by omega
      have hrest : control.toNat % 32 = high := by omega
      rw [if_neg (by omega), if_neg (by omega), hkind, hrest]
      rfl
    | @long _ extra low high hfields hhigh =>
      have hrest : control.toNat % 32 = high := by omega
      rw [if_neg (by omega), if_pos (by omega), hrest]
      rfl

/-! ## §3. Carrying a chunk out. -/

/-- **What a chunk makes of some bytes is determined.** -/
theorem Chunk.Extends.unique {chunk : Chunk} {before after after' : Bytes}
    (h : chunk.Extends before after) (h' : chunk.Extends before after') : after = after' := by
  cases chunk with
  | literal bytes =>
    have hafter : after = before ++ bytes := h
    have hafter' : after' = before ++ bytes := h'
    rw [hafter, hafter']
  | reference distance length =>
    obtain ⟨⟨hpos, hback⟩, ⟨⟨added, hadded⟩, hlength⟩, hbyte⟩ := h
    obtain ⟨-, ⟨⟨added', hadded'⟩, hlength'⟩, hbyte'⟩ := h'
    -- by strong induction on the place: a byte is as an earlier one, or was there before
    refine List.ext_getElem? fun p => ?_
    induction p using Nat.strongRecOn with
    | ind p ih =>
      by_cases hold : p < before.length
      · rw [← hadded, ← hadded', List.getElem?_append_left hold, List.getElem?_append_left hold]
      · by_cases hnew : p < before.length + length
        · have hplace : before.length + (p - before.length) = p := by omega
          have hsame := hbyte (p - before.length) (by omega)
          have hsame' := hbyte' (p - before.length) (by omega)
          rw [hplace] at hsame hsame'
          rw [hsame, hsame']
          exact ih (p - distance) (by omega)
        · rw [List.getElem?_eq_none (by omega), List.getElem?_eq_none (by omega)]

/-- **What is copied one byte after the other** extends what was there, by induction on
the number of bytes. -/
theorem Chunk.extends_copyBack {distance : Nat} (n : Nat) {before : Bytes} (hpos : 0 < distance)
    (hback : distance ≤ before.length) :
    (Chunk.reference distance n).Extends before (copyBack distance n before.toArray).toList := by
  induction n generalizing before with
  | zero =>
    exact ⟨⟨hpos, hback⟩, ⟨List.prefix_rfl, rfl⟩, fun i hi => absurd hi (Nat.not_lt_zero i)⟩
  | succ n ih =>
    have hplace : before.length - distance < before.length := by omega
    have hnext : before.toArray.getD (before.toArray.size - distance) 0
        = before[before.length - distance] := by
      rw [List.size_toArray, Array.getD_eq_getD_getElem?, List.getElem?_toArray,
        List.getElem?_eq_getElem hplace]
      rfl
    rw [copyBack, hnext, List.push_toArray]
    generalize hbyte : before[before.length - distance] = byte
    have hsize : (before ++ [byte]).length = before.length + 1 := List.length_append
    obtain ⟨-, ⟨hfront, hlength⟩, hlater⟩ := @ih (before ++ [byte]) (by omega)
    refine ⟨⟨hpos, hback⟩, ⟨(List.prefix_append _ _).trans hfront, by omega⟩, ?_⟩
    intro i hi
    cases i with
    | zero =>
      -- the first byte is the one that was looked up
      obtain ⟨added, hadded⟩ := hfront
      rw [← hadded, List.append_assoc, Nat.add_zero, List.getElem?_append_left hplace,
        List.getElem?_append_right (Nat.le_refl _), Nat.sub_self, List.getElem?_eq_getElem hplace,
        hbyte]
      rfl
    | succ i =>
      have hsame := hlater i (by omega)
      rw [hsize, Nat.add_right_comm, Nat.add_assoc] at hsame
      exact hsame

theorem Chunk.Extends.length_le {chunk : Chunk} {before after : Bytes}
    (h : chunk.Extends before after) : before.length ≤ after.length := by
  cases chunk with
  | literal bytes =>
    have hafter : after = before ++ bytes := h
    rw [hafter, List.length_append]
    exact Nat.le_add_right _ _
  | reference distance length =>
    obtain ⟨-, ⟨-, hlength⟩, -⟩ := h
    omega

/-- **A chunk that leads to some bytes is carried out** if they are not more than expected. -/
theorem Chunk.run_of_extends {chunk : Chunk} {before after : Bytes} (h : chunk.Extends before after)
    (expected : Nat) :
    chunk.run expected before.toArray
      = if after.length ≤ expected then .ok after.toArray else .error .outputTooLong := by
  cases chunk with
  | literal bytes =>
    have hafter : after = before ++ bytes := h
    unfold Chunk.run
    dsimp only
    rw [hafter, List.size_toArray, List.length_append]
    by_cases hfits : before.length + bytes.length ≤ expected
    · rw [if_neg (by omega), if_pos hfits]
      exact congrArg Except.ok (by simp)
    · rw [if_pos (by omega), if_neg hfits]
  | reference distance length =>
    have hcopied : (copyBack distance length before.toArray).toList = after :=
      (Chunk.extends_copyBack length h.1.1 h.1.2).unique h
    obtain ⟨⟨hpos, hback⟩, ⟨-, hlength⟩, -⟩ := h
    unfold Chunk.run
    dsimp only
    rw [List.size_toArray, if_neg (by omega), hlength, ← hcopied, Array.toArray_toList]
    by_cases hfits : before.length + length ≤ expected
    · rw [if_neg (by omega), if_pos hfits]
    · rw [if_pos (by omega), if_neg hfits]

/-- **A chunk that is carried out leads to the output**, if it is read from one of its forms. -/
theorem Chunk.extends_of_run {chunk : Chunk} {bytes before : Bytes} {expected : Nat}
    {out : Array UInt8} (hspells : chunk.Spells bytes)
    (h : chunk.run expected before.toArray = .ok out) : chunk.Extends before out.toList := by
  have hreference : ∀ distance length, 0 < distance → chunk = .reference distance length →
      chunk.Extends before out.toList := by
    rintro distance length hpos rfl
    unfold Chunk.run at h
    dsimp only at h
    rw [List.size_toArray] at h
    split at h
    · cases h
    · rename_i hback
      split at h
      · cases h
      · cases h
        exact Chunk.extends_copyBack length hpos (by omega)
  cases hspells with
  | short => exact hreference _ _ (Nat.succ_pos _) rfl
  | long => exact hreference _ _ (Nat.succ_pos _) rfl
  | @literal control bytes hcontrol hlength =>
    unfold Chunk.run at h
    dsimp only at h
    split at h
    · cases h
    · cases h
      show _ = before ++ bytes
      simp

/-! ## §4. Carrying chunks out. -/

theorem Expands.length_before_le {before input out : Bytes} (h : Expands before input out) :
    before.length ≤ out.length := by
  induction h with
  | done out => exact Nat.le_refl _
  | chunk _ hextends _ ih => exact Nat.le_trans hextends.length_le ih

/-- **An expansion is carried out** as far as the output may grow.  A chunk has at least
one byte, so the length of the input is budget enough. -/
theorem runChunks_of_expands {before input out : Bytes} (h : Expands before input out)
    {expected budget : Nat} (hbefore : before.length ≤ expected) (hbudget : input.length ≤ budget) :
    runChunks expected budget input before.toArray
      = if out.length ≤ expected then .ok out.toArray else .error .outputTooLong := by
  induction h generalizing budget with
  | done out => rw [runChunks, if_pos hbefore]
  | @chunk before after bytes rest out chunk hspells hextends hrest ih =>
    obtain ⟨control, tail, rfl⟩ : ∃ control tail, bytes = control :: tail := by
      cases hspells with
      | literal => exact ⟨_, _, rfl⟩
      | short => exact ⟨_, _, rfl⟩
      | long => exact ⟨_, _, rfl⟩
    have hread : Chunk.read control (tail ++ rest) = .ok (chunk, rest) :=
      Chunk.read_eq_ok_iff.2 ⟨tail, hspells, rfl⟩
    rw [List.cons_append, List.length_cons, List.length_append] at hbudget
    obtain ⟨budget, rfl⟩ : ∃ k, budget = k + 1 := ⟨budget - 1, by omega⟩
    rw [List.cons_append, runChunks, hread]
    dsimp only [bind, Except.bind]
    rw [Chunk.run_of_extends hextends]
    by_cases hfits : after.length ≤ expected
    · rw [if_pos hfits]
      exact ih hfits (by omega)
    · have hlonger := hrest.length_before_le
      rw [if_neg hfits, if_neg (by omega)]

/-- **Chunks that are carried out are an expansion**, by induction on the budget. -/
theorem expands_of_runChunks {expected budget : Nat} {input before : Bytes} {out : Array UInt8}
    (hbudget : input.length ≤ budget)
    (h : runChunks expected budget input before.toArray = .ok out) :
    Expands before input out.toList := by
  induction budget generalizing input before with
  | zero =>
    obtain rfl := List.eq_nil_of_length_eq_zero (Nat.le_zero.1 hbudget)
    cases h
    exact .done before
  | succ budget ih =>
    cases input with
    | nil =>
      cases h
      exact .done before
    | cons control input =>
      rw [runChunks] at h
      obtain ⟨⟨chunk, rest⟩, hread, hnext⟩ := exists_of_bind h
      obtain ⟨after, hrun, hlater⟩ := exists_of_bind hnext
      obtain ⟨bytes, hspells, rfl⟩ := Chunk.read_eq_ok_iff.1 hread
      rw [List.length_cons, List.length_append] at hbudget
      exact .chunk hspells (Chunk.extends_of_run hspells hrun) (ih (by omega) hlater)

/-- **No byte of the input stands for more than 88 bytes**, and so the bound that is
checked first refuses nothing that would be accepted. -/
theorem Expands.length_le {before input out : Bytes} (h : Expands before input out) :
    out.length ≤ before.length + input.length * maxExpansion := by
  have hmax : maxExpansion = 88 := rfl
  rw [hmax]
  induction h with
  | done out => exact Nat.le_add_right _ _
  | @chunk before after bytes rest out chunk hspells hextends hrest ih =>
    have hone : after.length ≤ before.length + bytes.length * 88 := by
      cases hspells with
      | @literal control bytes hcontrol hlength =>
        have hafter : after = before ++ bytes := hextends
        rw [hafter, List.length_append, List.length_cons]
        omega
      | @short control low l high hcontrol hl hhigh =>
        obtain ⟨-, ⟨-, hlength⟩, -⟩ := hextends
        rw [hlength, List.length_cons, List.length_singleton]
        omega
      | @long control extra low high hcontrol hhigh =>
        obtain ⟨-, ⟨-, hlength⟩, -⟩ := hextends
        have hextra := extra.toNat_lt
        rw [hlength, List.length_cons, List.length_cons, List.length_singleton]
        omega
    rw [List.length_append]
    omega

/-! ## §5. Decompression. -/

/-- **What a well-formed string is answered with**, whatever length is expected. -/
theorem decompress_of_expands {input out : Bytes} (h : Expands [] input out) (expected : Nat) :
    decompress input expected
      = if expected = out.length then .ok out
        else if expected < out.length then .error .outputTooLong
        else if input.length * maxExpansion < expected then .error .impossibleLength
        else .error .outputTooShort := by
  have hcap := h.length_le
  rw [List.length_nil, Nat.zero_add] at hcap
  have hrun : runChunks expected input.length input #[] = _ :=
    runChunks_of_expands h (Nat.zero_le expected) (Nat.le_refl _)
  unfold decompress
  by_cases himpossible : input.length * maxExpansion < expected
  · rw [if_pos himpossible, if_neg (by omega), if_neg (by omega), if_pos himpossible]
  · rw [if_neg himpossible, if_neg himpossible, hrun]
    by_cases hshort : expected < out.length
    · rw [if_neg (by omega), if_neg (by omega), if_pos hshort]
      rfl
    · rw [if_pos (by omega), if_neg hshort]
      show (if out.toArray.size = expected then Except.ok out else _) = _
      rw [List.size_toArray]
      by_cases hsame : expected = out.length
      · rw [if_pos hsame.symm, if_pos hsame]
      · rw [if_neg (Ne.symm hsame), if_neg hsame]

theorem expands_of_decompress {input out : Bytes} {expected : Nat}
    (h : decompress input expected = .ok out) : Expands [] input out ∧ out.length = expected := by
  unfold decompress at h
  split at h
  · cases h
  · obtain ⟨output, hrun, h⟩ := exists_of_bind h
    split at h
    · rename_i hsize
      cases h
      exact ⟨expands_of_runChunks (Nat.le_refl _) hrun, hsize⟩
    · cases h

/-- **Exactly the well-formed strings are decompressed.**  A string is accepted with an
output if and only if it splits into complete chunks, each of which reaches back at most
to the start of what was produced so far, that lead from nothing to that output, and the
output is as long as expected.  The bound of 88 bytes of output for a byte of input,
checked before anything is read, refuses none of them. -/
theorem decompress_accepts_iff (input : Bytes) (expected : Nat) (out : Bytes) :
    (decompress input expected = .ok out ↔ Expands [] input out ∧ out.length = expected)
      ∧ ¬ (Expands [] input out ∧ input.length * maxExpansion < out.length) := by
  refine ⟨⟨expands_of_decompress, ?_⟩, ?_⟩
  · rintro ⟨hexpands, rfl⟩
    rw [decompress_of_expands hexpands, if_pos rfl]
  · rintro ⟨hexpands, htoo⟩
    have hcap := hexpands.length_le
    rw [List.length_nil, Nat.zero_add] at hcap
    omega

/-- A reference may repeat bytes that it has added itself. -/
example : (decompress [1, 97, 98, 0x40, 1] 6).toOption = some [97, 98, 97, 98, 97, 98] := by
  decide +kernel

end DurableStore.Lzf
