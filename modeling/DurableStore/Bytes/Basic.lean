/-
  DurableStore.Bytes.Basic
  ────────────────────────────────
  **BYTE STRINGS.**

  Keys, values, records and files are all byte strings.  A byte string is a
  list of bytes, ordered by the lexicographic order of lists, which is the
  order in which a store lists its keys.

  This file also holds the two fixed-width number forms that binary formats
  are made of:

      ofNatLE w n / ofNatBE w n   — `n` in `w` bytes, least / most
                                    significant byte first
      toNatLE / toNatBE           — the number such bytes spell
      toSigned / ofSigned         — two's complement of a given width

  Everything is stated on `Nat` and `Int` with `/` and `%`, so that the
  arithmetic of a format is ordinary arithmetic.
-/

namespace DurableStore

/-- A finite sequence of bytes. -/
abbrev Bytes := List UInt8

namespace Bytes

/-! ## §1. Text as bytes. -/

/-- The UTF-8 bytes of a text. -/
def ofString (s : String) : Bytes := s.toList.flatMap String.utf8EncodeChar

/-- An ASCII capital letter becomes small; every other byte stays. -/
def lowerByte (b : UInt8) : UInt8 :=
  if 65 ≤ b ∧ b ≤ 90 then b + 32 else b

/-- An ASCII small letter becomes capital; every other byte stays. -/
def upperByte (b : UInt8) : UInt8 :=
  if 97 ≤ b ∧ b ≤ 122 then b - 32 else b

/-- ASCII letters in lower case: the form in which names are compared. -/
def lower (bs : Bytes) : Bytes := bs.map lowerByte

/-- ASCII letters in upper case. -/
def upper (bs : Bytes) : Bytes := bs.map upperByte

/-- A byte as two hexadecimal digits. -/
def hex (b : UInt8) : String :=
  let digits := "0123456789ABCDEF".toList
  String.ofList [digits.getD (b.toNat / 16) '0', digits.getD (b.toNat % 16) '0']

/-! ## §2. The order. -/

/-- How two byte strings stand to each other in the lexicographic order. -/
def order : Bytes → Bytes → Ordering
  | [], [] => .eq
  | [], _ :: _ => .lt
  | _ :: _, [] => .gt
  | a :: as, b :: bs => if a < b then .lt else if b < a then .gt else order as bs

@[simp] theorem order_eq_iff (as bs : Bytes) : order as bs = .eq ↔ as = bs := by
  induction as generalizing bs with
  | nil => cases bs <;> simp [order]
  | cons a as ih =>
    cases bs with
    | nil => simp [order]
    | cons b bs =>
      simp only [order, List.cons.injEq]
      by_cases hab : a < b
      · simp [hab, UInt8.ne_of_lt hab]
      · by_cases hba : b < a
        · simp [hab, hba, (UInt8.ne_of_lt hba).symm]
        · simp [ih, UInt8.le_antisymm (UInt8.not_lt.1 hba) (UInt8.not_lt.1 hab)]

@[simp] theorem order_lt_iff (as bs : Bytes) : order as bs = .lt ↔ as < bs := by
  induction as generalizing bs with
  | nil => cases bs <;> simp [order]
  | cons a as ih =>
    cases bs with
    | nil => simp [order]
    | cons b bs =>
      simp only [order, List.cons_lt_cons_iff]
      by_cases hab : a < b
      · simp [hab]
      · by_cases hba : b < a
        · simp [hab, hba, (UInt8.ne_of_lt hba).symm]
        · simp [ih, UInt8.le_antisymm (UInt8.not_lt.1 hba) (UInt8.not_lt.1 hab)]

/-! ## §3. Numbers of a fixed width. -/

/-- The bound of unsigned 32-bit numbers. -/
abbrev u32Bound : Nat := 0x100000000

/-- The bound of unsigned 64-bit numbers. -/
abbrev u64Bound : Nat := 0x10000000000000000

/-- `n` in `w` bytes, least significant first; what does not fit is dropped. -/
def ofNatLE : Nat → Nat → Bytes
  | 0, _ => []
  | w + 1, n => UInt8.ofNat (n % 256) :: ofNatLE w (n / 256)

/-- The number that bytes spell with the least significant byte first. -/
def toNatLE : Bytes → Nat
  | [] => 0
  | b :: bs => b.toNat + 256 * toNatLE bs

/-- `n` in `w` bytes, most significant first. -/
def ofNatBE (w n : Nat) : Bytes := (ofNatLE w n).reverse

/-- The number that bytes spell with the most significant byte first. -/
def toNatBE (bs : Bytes) : Nat := toNatLE bs.reverse

@[simp] theorem length_ofNatLE (w n : Nat) : (ofNatLE w n).length = w := by
  induction w generalizing n with
  | zero => rfl
  | succ w ih => simp [ofNatLE, ih]

@[simp] theorem length_ofNatBE (w n : Nat) : (ofNatBE w n).length = w := by
  simp [ofNatBE]

theorem toNatLE_ofNatLE (w n : Nat) : toNatLE (ofNatLE w n) = n % Nat.pow 256 w := by
  induction w generalizing n with
  | zero => simp [ofNatLE, toNatLE, Nat.mod_one]
  | succ w ih =>
    rw [ofNatLE, toNatLE, ih, Nat.pow_eq, Nat.pow_eq, Nat.pow_succ', Nat.mod_mul]
    simp

theorem toNatBE_ofNatBE (w n : Nat) : toNatBE (ofNatBE w n) = n % Nat.pow 256 w := by
  simp [toNatBE, ofNatBE, toNatLE_ofNatLE]

/-! ## §4. Two's complement. -/

/-- The signed reading of a `bits`-bit number. -/
def toSigned (bits n : Nat) : Int :=
  if n < Nat.pow 2 (bits - 1) then (n : Int) else (n : Int) - (Nat.pow 2 bits : Nat)

/-- The `bits`-bit number whose signed reading is `i`. -/
def ofSigned (bits : Nat) (i : Int) : Nat := (i % (Nat.pow 2 bits : Nat)).toNat

/-! ## §5. Pieces. -/

/-- Splits a list into consecutive pairs; an odd number of items has none. -/
def pairUp : List Bytes → Option (List (Bytes × Bytes))
  | [] => some []
  | [_] => none
  | a :: b :: rest => (pairUp rest).map ((a, b) :: ·)

/-- At most `budget` pieces of `size` bytes, the last one possibly shorter. -/
def pieces (size : Nat) : Nat → Bytes → List Bytes
  | 0, _ => []
  | budget + 1, bs =>
    if bs.isEmpty then [] else bs.take size :: pieces size budget (bs.drop size)

/-- A byte string cut into pieces of `size` bytes, the last one possibly
shorter.  A piece takes at least one byte, so the length bounds their number. -/
def chunks (size : Nat) (bs : Bytes) : List Bytes := pieces size bs.length bs

theorem flatten_pieces {size : Nat} (hsize : 0 < size) (budget : Nat) (bs : Bytes)
    (h : bs.length ≤ budget) : (pieces size budget bs).flatten = bs := by
  induction budget generalizing bs with
  | zero => simp_all [pieces]
  | succ budget ih =>
    cases bs with
    | nil => simp [pieces]
    | cons b bs =>
      have hdrop : ((b :: bs).drop size).length ≤ budget := by
        simp only [List.length_drop, List.length_cons] at h ⊢
        omega
      simp only [pieces, List.isEmpty_cons, Bool.false_eq_true, ↓reduceIte,
        List.flatten_cons, ih _ hdrop, List.take_append_drop]

/-- The pieces make up the whole. -/
theorem flatten_chunks {size : Nat} (hsize : 0 < size) (bs : Bytes) :
    (chunks size bs).flatten = bs :=
  flatten_pieces hsize _ _ (Nat.le_refl _)

theorem pieces_congr {size budget budget' : Nat} {bs : Bytes} (hsize : 0 < size)
    (h : bs.length ≤ budget) (h' : bs.length ≤ budget') :
    pieces size budget bs = pieces size budget' bs := by
  have hnil : ∀ n, pieces size n [] = [] := by
    intro n
    cases n <;> rfl
  induction budget generalizing bs budget' with
  | zero =>
    obtain rfl : bs = [] := List.eq_nil_of_length_eq_zero (by omega)
    rw [hnil, hnil]
  | succ budget ih =>
    cases bs with
    | nil => rw [hnil, hnil]
    | cons b bs =>
      have hlength : ((b :: bs).drop size).length ≤ bs.length := by
        rw [List.length_drop, List.length_cons]
        omega
      rw [List.length_cons] at h h'
      obtain ⟨n, rfl⟩ : ∃ n, budget' = n + 1 := ⟨budget' - 1, by omega⟩
      show (b :: bs).take size :: pieces size budget ((b :: bs).drop size)
        = (b :: bs).take size :: pieces size n ((b :: bs).drop size)
      have hrest : pieces size budget ((b :: bs).drop size) = pieces size n ((b :: bs).drop size) :=
        ih (by omega) (by omega)
      rw [hrest]

/-- The first piece, and the pieces of the rest. -/
theorem chunks_of_ne_nil {size : Nat} (hsize : 0 < size) {bs : Bytes} (h : bs ≠ []) :
    chunks size bs = bs.take size :: chunks size (bs.drop size) := by
  cases bs with
  | nil => exact absurd rfl h
  | cons b bs =>
    have hlength : ((b :: bs).drop size).length ≤ bs.length := by
      rw [List.length_drop, List.length_cons]
      omega
    show (b :: bs).take size :: pieces size bs.length ((b :: bs).drop size) = _
    unfold chunks
    rw [pieces_congr hsize hlength (Nat.le_refl _)]

end Bytes

end DurableStore
