/-
  DurableStore.Proofs.Snapshot.Lzf
  ────────────────────────────────
  **WHAT IS COMPRESSED IS DECOMPRESSED.**

  The output of a decompression is always a beginning of the string that was
  compressed.  So every chunk is described by what it CONTINUES: from the
  first `p` bytes of the string it leads to the first `p + size`.  Chunks
  that continue one another from the start to the end TILE the string.

      compress  emits chunks that tile its input   (`tiles_chunksOf`)
      chunks that tile a string expand to it       (`expands_of_tiles`)

  The match search is not asked to find the best reference.  What matters
  is that a remembered place holds the input from there on
  (`Table.Remembers`), and that a reference is no longer than what agrees.

  Main result: `decompress_compress`.
-/
import DurableStore.Proofs.Snapshot.Expansion

namespace DurableStore.Lzf

/-! ## §1. Chunks that tile a string. -/

/-- How many bytes a chunk stands for. -/
def Chunk.size : Chunk → Nat
  | .literal bytes => bytes.length
  | .reference _ length => length

/-- A chunk goes on after the first `p` bytes of a string. -/
def Chunk.Continues (whole : Bytes) (p : Nat) : Chunk → Prop
  | .literal bytes => 0 < bytes.length ∧ bytes.length ≤ maxLiteral ∧ bytes <+: whole.drop p
  | .reference distance length =>
    (0 < distance ∧ distance ≤ maxDistance ∧ distance ≤ p) ∧
      (3 ≤ length ∧ length ≤ maxReference ∧ p + length ≤ whole.length) ∧
        ∀ i < length, whole[p + i - distance]? = whole[p + i]?

/-- Chunks lead from the first `p` bytes of a string to its end. -/
def Tiles (whole : Bytes) : Nat → List Chunk → Prop
  | p, [] => p = whole.length
  | p, chunk :: chunks => chunk.Continues whole p ∧ Tiles whole (p + chunk.size) chunks

/-- A chunk that goes on after the first `p` bytes ends inside the string. -/
theorem Chunk.Continues.le {whole : Bytes} {p : Nat} {chunk : Chunk} (hp : p ≤ whole.length)
    (h : chunk.Continues whole p) : p + chunk.size ≤ whole.length := by
  cases chunk with
  | literal bytes =>
    have hinside := h.2.2.length_le
    rw [List.length_drop] at hinside
    show p + bytes.length ≤ whole.length
    omega
  | reference distance length => exact h.2.1.2.2

/-! ## §2. Chunks as bytes. -/

theorem toNat_ofNat_of_lt {n : Nat} (h : n < 256) : (UInt8.ofNat n).toNat = n := by
  rw [UInt8.toNat_ofNat']
  exact Nat.mod_eq_of_lt h

/-- **A chunk is written in one of its forms.** -/
theorem Chunk.Continues.spells {whole : Bytes} {p : Nat} {chunk : Chunk}
    (h : chunk.Continues whole p) : chunk.Spells chunk.encode := by
  cases chunk with
  | literal bytes =>
    obtain ⟨hpos, hmax, -⟩ := h
    unfold maxLiteral at hmax
    have hcontrol := toNat_ofNat_of_lt (by omega : bytes.length - 1 < 256)
    exact .literal (by omega) (by omega)
  | reference distance length =>
    obtain ⟨⟨hpos, hfar, -⟩, ⟨hmin, hmax, -⟩, -⟩ := h
    unfold maxDistance at hfar
    unfold maxReference at hmax
    have hoffset : (distance - 1) / 256 < 32 := by omega
    have hlow := toNat_ofNat_of_lt (by omega : (distance - 1) % 256 < 256)
    have hdistance : (distance - 1) / 256 * 256 + (UInt8.ofNat ((distance - 1) % 256)).toNat + 1
        = distance := by
      rw [hlow]
      omega
    unfold Chunk.encode
    dsimp only
    split
    · -- a short reference has its length beside the offset
      have hcontrol := toNat_ofNat_of_lt
        (by omega : (length - 2) * 32 + (distance - 1) / 256 < 256)
      have hform : Chunk.Spells _ [_, UInt8.ofNat ((distance - 1) % 256)] :=
        .short hcontrol (by omega) hoffset
      rw [hdistance, Nat.sub_add_cancel (by omega)] at hform
      exact hform
    · -- a long one has a byte of its own for it
      have hcontrol := toNat_ofNat_of_lt (by omega : 224 + (distance - 1) / 256 < 256)
      have hextra := toNat_ofNat_of_lt (by omega : length - 9 < 256)
      have hform :
          Chunk.Spells _ [_, UInt8.ofNat (length - 9), UInt8.ofNat ((distance - 1) % 256)] :=
        .long hcontrol hoffset
      rw [hdistance, hextra, Nat.sub_add_cancel (by omega)] at hform
      exact hform

/-! ## §3. Chunks in a string. -/

theorem take_add_of_initial {whole bytes : Bytes} {p : Nat} (h : bytes <+: whole.drop p) :
    whole.take (p + bytes.length) = whole.take p ++ bytes := by
  rw [List.take_add, List.prefix_iff_eq_take.1 h, List.length_take]
  congr 1
  rw [List.take_eq_take_iff]
  omega

/-- **A chunk that continues a string leads on in it.** -/
theorem Chunk.Continues.extends {whole : Bytes} {p : Nat} {chunk : Chunk} (hp : p ≤ whole.length)
    (h : chunk.Continues whole p) :
    chunk.Extends (whole.take p) (whole.take (p + chunk.size)) := by
  have hend := h.le hp
  cases chunk with
  | literal bytes => exact take_add_of_initial h.2.2
  | reference distance length =>
    obtain ⟨⟨hpos, -, hback⟩, -, hsame⟩ := h
    replace hend : p + length ≤ whole.length := hend
    have hbefore : (whole.take p).length = p := by
      rw [List.length_take]
      omega
    have hafter : (whole.take (p + length)).length = p + length := by
      rw [List.length_take]
      omega
    refine ⟨⟨hpos, hbefore.symm ▸ hback⟩,
      ⟨List.take_prefix_take_left (Nat.le_add_right p length), ?_⟩, ?_⟩
    · exact hafter.trans (congrArg (· + length) hbefore.symm)
    · intro i hi
      show (whole.take (p + length))[(whole.take p).length + i]?
        = (whole.take (p + length))[(whole.take p).length + i - distance]?
      rw [hbefore, List.getElem?_take_of_lt (by omega), List.getElem?_take_of_lt (by omega)]
      exact (hsame i hi).symm

/-- **Chunks that tile the rest of a string** expand to it. -/
theorem expands_of_tiles {whole : Bytes} {p : Nat} {chunks : List Chunk} (hp : p ≤ whole.length)
    (h : Tiles whole p chunks) :
    Expands (whole.take p) (chunks.flatMap Chunk.encode) whole := by
  induction chunks generalizing p with
  | nil =>
    obtain rfl : p = whole.length := h
    rw [List.take_length]
    exact .done whole
  | cons chunk chunks ih =>
    obtain ⟨hchunk, hrest⟩ := h
    exact .chunk hchunk.spells (hchunk.extends hp) (ih (hchunk.le hp) hrest)

/-! ## §4. The match search. -/

/-- Every remembered place lies before a position, with the input from there
on. -/
def Table.Remembers (table : Table) (whole : Bytes) (position : Nat) : Prop :=
  ∀ (slot place : Nat) (earlier : Bytes), table[slot]? = some (place, earlier) →
    place < position ∧ earlier = whole.drop place

theorem Table.Remembers.insert {table : Table} {whole input : Bytes} {position s : Nat}
    (h : table.Remembers whole position) (hinput : input = whole.drop position) :
    Table.Remembers (table.insert s (position, input)) whole (position + 1) := by
  intro slot place earlier hfound
  rw [Std.HashMap.getElem?_insert] at hfound
  split at hfound
  · obtain ⟨rfl, rfl⟩ := Prod.mk.inj (Option.some.inj hfound)
    exact ⟨Nat.lt_succ_self _, hinput⟩
  · obtain ⟨hplace, hearlier⟩ := h slot place earlier hfound
    exact ⟨Nat.lt_succ_of_lt hplace, hearlier⟩

theorem Table.Remembers.succ {table : Table} {whole : Bytes} {position : Nat}
    (h : table.Remembers whole position) : table.Remembers whole (position + 1) := by
  intro slot place earlier hfound
  obtain ⟨hplace, hearlier⟩ := h slot place earlier hfound
  exact ⟨Nat.lt_succ_of_lt hplace, hearlier⟩

theorem commonLength_spec (limit : Nat) (xs ys : Bytes) :
    commonLength limit xs ys ≤ limit ∧ commonLength limit xs ys ≤ ys.length
      ∧ ∀ i < commonLength limit xs ys, xs[i]? = ys[i]? := by
  induction limit generalizing xs ys with
  | zero => simp [commonLength]
  | succ limit ih =>
    cases xs with
    | nil => simp [commonLength]
    | cons x xs =>
      cases ys with
      | nil => simp [commonLength]
      | cons y ys =>
        rw [commonLength]
        split
        · rename_i heq
          obtain ⟨hlimit, hlength, hsame⟩ := ih xs ys
          refine ⟨Nat.succ_le_succ hlimit, Nat.succ_le_succ hlength, ?_⟩
          intro i hi
          cases i with
          | zero => rw [heq]; rfl
          | succ i => exact hsame i (Nat.lt_of_succ_lt_succ hi)
        · refine ⟨Nat.zero_le _, Nat.zero_le _, ?_⟩
          intro i hi
          exact absurd hi (Nat.not_lt_zero i)

/-- **A reference that is found continues the string.** -/
theorem continues_of_reference? {table : Table} {whole input : Bytes}
    {position s distance length : Nat} (htable : table.Remembers whole position)
    (hinput : input = whole.drop position) (hp : position ≤ whole.length)
    (h : reference? table[s]? position input = some (distance, length)) :
    (Chunk.reference distance length).Continues whole position := by
  cases hseen : table[s]? with
  | none =>
    rw [hseen] at h
    exact absurd h (by simp [reference?])
  | some seen =>
    obtain ⟨place, earlier⟩ := seen
    obtain ⟨hplace, hearlier⟩ := htable s place earlier hseen
    rw [hseen, reference?] at h
    split at h
    · rename_i hfound
      obtain ⟨hdistance, hlength⟩ := Prod.mk.inj (Option.some.inj h)
      obtain ⟨hlimit, hinside, hsame⟩ := commonLength_spec maxReference earlier input
      rw [hlength] at hlimit hinside hsame hfound
      rw [hdistance] at hfound
      rw [hinput, List.length_drop] at hinside
      refine ⟨⟨by omega, hfound.1, by omega⟩, ⟨hfound.2, hlimit, by omega⟩, ?_⟩
      intro i hi
      have hbyte := hsame i hi
      rw [hearlier, hinput, List.getElem?_drop, List.getElem?_drop] at hbyte
      rw [← hbyte]
      congr 1
      omega
    · exact absurd h (by simp)

theorem initial_drop_of_append {whole as bs : Bytes} {p : Nat} (h : as ++ bs <+: whole.drop p) :
    bs <+: whole.drop (p + as.length) := by
  obtain ⟨rest, hrest⟩ := h
  rw [← List.drop_drop, ← hrest, List.append_assoc, List.drop_left]
  exact List.prefix_append _ _

/-- Literal chunks for the next bytes, before chunks that go on. -/
theorem tiles_pieces {whole bytes : Bytes} {p budget : Nat} {chunks : List Chunk}
    (hbudget : bytes.length ≤ budget) (hinitial : bytes <+: whole.drop p)
    (h : Tiles whole (p + bytes.length) chunks) :
    Tiles whole p ((Bytes.pieces maxLiteral budget bytes).map Chunk.literal ++ chunks) := by
  induction budget generalizing bytes p with
  | zero =>
    obtain rfl := List.eq_nil_of_length_eq_zero (Nat.le_zero.1 hbudget)
    exact h
  | succ budget ih =>
    cases bytes with
    | nil => exact h
    | cons b bytes =>
      have hsplit := List.take_append_drop maxLiteral (b :: bytes)
      have hcount := congrArg List.length hsplit
      rw [List.length_append] at hcount
      have hfirst : 0 < ((b :: bytes).take maxLiteral).length := by
        rw [List.length_take, List.length_cons]
        exact Nat.lt_min.2 ⟨by decide, Nat.succ_pos _⟩
      rw [Bytes.pieces, List.isEmpty_cons, if_neg (by decide), List.map_cons, List.cons_append]
      refine ⟨⟨hfirst, List.length_take_le _ _, (List.take_prefix _ _).trans hinitial⟩, ?_⟩
      unfold Chunk.size
      dsimp only
      refine ih (by omega) ?_ ?_
      · rw [← hsplit] at hinitial
        exact initial_drop_of_append hinitial
      · rw [Nat.add_assoc, hcount]
        exact h

theorem tiles_literals {whole run : Bytes} {p : Nat} {chunks : List Chunk}
    (hinitial : run.reverse <+: whole.drop p) (h : Tiles whole (p + run.length) chunks) :
    Tiles whole p (literals run ++ chunks) := by
  refine tiles_pieces (Nat.le_refl _) hinitial ?_
  rw [List.length_reverse]
  exact h

/-- A run goes on with the byte that comes next. -/
theorem initial_cons {whole run rest : Bytes} {a : UInt8} {p : Nat}
    (hrun : run.reverse <+: whole.drop p) (hnext : a :: rest = whole.drop (p + run.length)) :
    (a :: run).reverse <+: whole.drop p := by
  obtain ⟨tail, htail⟩ := hrun
  have htail' : tail = a :: rest := by
    have hdrop := congrArg (List.drop run.reverse.length) htail
    rw [List.drop_left, List.drop_drop, List.length_reverse] at hdrop
    rw [hdrop, hnext]
  rw [List.reverse_cons, ← htail, htail']
  exact (List.prefix_append_right_inj _).2 ⟨rest, rfl⟩

/-- **The chunks from a position on tile the rest.**  What is written ends at
`p`; the run reaches from there to the position, or else a reference has
already gone `skip` bytes beyond it. -/
theorem tiles_chunksFrom {table : Table} {whole run input : Bytes} {position skip p : Nat}
    (htable : table.Remembers whole position) (hinput : input = whole.drop position)
    (hp : position ≤ whole.length) (hrun : run.reverse <+: whole.drop p)
    (hplace : p + run.length = position + skip) (hskip : skip = 0 ∨ run = [])
    (hinside : skip ≤ input.length) :
    Tiles whole p (chunksFrom table position run skip input) := by
  have hlength := congrArg List.length hinput
  rw [List.length_drop] at hlength
  -- on the bytes that are left; table, run and both places change with each
  induction input generalizing table position run skip p with
  | nil =>
    rw [chunksFrom, ← List.append_nil (literals run)]
    rw [List.length_nil] at hlength hinside
    refine tiles_literals hrun ?_
    show p + run.length = whole.length
    omega
  | cons a rest ih =>
    have hrest : rest = whole.drop (position + 1) := by
      rw [← List.drop_drop, ← hinput]
      rfl
    have hrestLength : rest.length = whole.length - (position + 1) := by
      rw [hrest, List.length_drop]
    rw [List.length_cons] at hlength hinside
    cases skip with
    | succ skip =>
      -- the byte is covered by a reference already
      obtain rfl : run = [] := hskip.resolve_left (Nat.succ_ne_zero skip)
      rw [chunksFrom]
      exact ih htable.succ hrest (by omega) hrun (by omega) (.inr rfl) (by omega) hrestLength
    | zero =>
      -- or it goes into the run
      have hone : (a :: run).reverse <+: whole.drop p := by
        refine initial_cons hrun (?_ : a :: rest = whole.drop (p + run.length))
        rw [hplace]
        exact hinput
      have hgrow : ∀ {table' : Table}, table'.Remembers whole (position + 1) →
          Tiles whole p (chunksFrom table' (position + 1) (a :: run) 0 rest) := by
        intro table' htable'
        refine ih htable' hrest (by omega) hone ?_ (.inl rfl) (Nat.zero_le _) hrestLength
        rw [List.length_cons]
        omega
      rw [chunksFrom.eq_def]
      dsimp only
      split
      · split
        · -- or else a reference ends the run
          rename_i distance length hfound
          have hcontinues := continues_of_reference? htable hinput hp hfound
          have hend := hcontinues.le hp
          have hmin := hcontinues.2.1.1
          unfold Chunk.size at hend
          dsimp only at hend
          refine tiles_literals hrun ?_
          rw [hplace]
          refine ⟨hcontinues, ?_⟩
          unfold Chunk.size
          dsimp only
          exact ih (htable.insert hinput) hrest (by omega) List.nil_prefix
            (by rw [List.length_nil]; omega) (.inr rfl) (by omega) hrestLength
        · exact hgrow (htable.insert hinput)
      · exact hgrow htable.succ

theorem tiles_chunksOf (input : Bytes) : Tiles input 0 (chunksOf input) := by
  refine tiles_chunksFrom ?_ rfl (Nat.zero_le _) List.nil_prefix rfl (.inl rfl) (Nat.zero_le _)
  intro slot place earlier hfound
  exact absurd hfound (by simp)

/-- Chunks that tile a whole string are an expansion to it. -/
theorem Tiles.expands {whole : Bytes} {chunks : List Chunk} (h : Tiles whole 0 chunks) :
    Expands [] (chunks.flatMap Chunk.encode) whole := by
  have hexpands := expands_of_tiles (Nat.zero_le _) h
  rw [List.take_zero] at hexpands
  exact hexpands

/-- Every compressed form of a string is decompressed. -/
theorem decompress_of_tiles {whole : Bytes} {chunks : List Chunk} (h : Tiles whole 0 chunks) :
    decompress (chunks.flatMap Chunk.encode) whole.length = .ok whole := by
  rw [decompress_of_expands h.expands, if_pos rfl]

/-- **What is compressed is decompressed**, to the string itself if its length is the one
that is expected, and with an error for every other length. -/
theorem decompress_compress (input : Bytes) (expected : Nat) :
    decompress (compress input) expected
      = if expected = input.length then .ok input
        else if expected < input.length then .error .outputTooLong
        else if (compress input).length * maxExpansion < expected then .error .impossibleLength
        else .error .outputTooShort :=
  decompress_of_expands (tiles_chunksOf input).expands expected

end DurableStore.Lzf
