/-
  DurableStore.Proofs.Bytes.Decimal
  ────────────────────────────────
  **DECIMAL TEXT READS BACK.**

  The value of a string of digits is a fold, `numeral`, and everything
  about decimal text is said through it: what the digit reader returns,
  what appending digits or zeros does, and what the printer prints.

  Main results:
    * `digitsValue?_ofDigits` — the reader returns the numeral;
    * `numeral_ofNat` — the printed digits of `n` have the numeral `n`;
    * `toNat?_ofNat`, `toInt?_ofNat` — the bounded readers return what was
      printed, below their bound.
-/
import Mathlib.Tactic.Ring
import DurableStore.Bytes.Decimal

namespace DurableStore

/-- No byte string and no list in memory has so many items: the bound of the
lengths that are written and read. -/
abbrev lengthBound : Nat := Nat.pow 2 63

namespace Bytes

/-! ## §1. Digits and their numeral. -/

/-- Every byte is an ASCII digit. -/
def AllDigits (bs : Bytes) : Prop := ∀ b ∈ bs, 48 ≤ b.toNat ∧ b.toNat ≤ 57

/-- The number that digits spell, most significant first. -/
def numeral (bs : Bytes) : Nat := bs.foldl (fun n b => 10 * n + (b.toNat - 48)) 0

theorem allDigits_nil : AllDigits [] := by
  intro b hb
  exact absurd hb List.not_mem_nil

theorem allDigits_append {as bs : Bytes} :
    AllDigits (as ++ bs) ↔ AllDigits as ∧ AllDigits bs := by
  unfold AllDigits
  simp only [List.mem_append]
  exact ⟨fun h => ⟨fun b hb => h b (.inl hb), fun b hb => h b (.inr hb)⟩,
    fun h b hb => hb.elim (h.1 b) (h.2 b)⟩

theorem allDigits_cons {b : UInt8} {bs : Bytes} :
    AllDigits (b :: bs) ↔ (48 ≤ b.toNat ∧ b.toNat ≤ 57) ∧ AllDigits bs := by
  unfold AllDigits
  exact List.forall_mem_cons

theorem allDigits_replicate_zero (k : Nat) : AllDigits (List.replicate k 48) := by
  intro b hb
  rw [List.eq_of_mem_replicate hb]
  decide

theorem digit?_eq_some {b : UInt8} (h : 48 ≤ b.toNat ∧ b.toNat ≤ 57) :
    digit? b = some (b.toNat - 48) := by
  unfold digit?
  rw [if_pos ⟨UInt8.le_iff_toNat_le.2 h.1, UInt8.le_iff_toNat_le.2 h.2⟩]

/-- A fold that starts at `acc` shifts `acc` past the digits. -/
theorem foldl_digits (acc : Nat) (bs : Bytes) :
    bs.foldl (fun n b => 10 * n + (b.toNat - 48)) acc
      = acc * 10 ^ bs.length + numeral bs := by
  induction bs generalizing acc with
  | nil => simp [numeral]
  | cons b bs ih =>
    have htail := ih (10 * acc + (b.toNat - 48))
    have hhead := ih (b.toNat - 48)
    simp only [numeral, List.foldl_cons, List.length_cons, pow_succ] at htail hhead ⊢
    rw [htail, Nat.mul_zero, Nat.zero_add, hhead]
    ring

theorem numeral_append (as bs : Bytes) :
    numeral (as ++ bs) = numeral as * 10 ^ bs.length + numeral bs := by
  rw [numeral, List.foldl_append, foldl_digits]
  rfl

theorem numeral_singleton (b : UInt8) : numeral [b] = b.toNat - 48 := by
  simp [numeral]

theorem numeral_replicate_zero (k : Nat) : numeral (List.replicate k 48) = 0 := by
  induction k with
  | zero => rfl
  | succ k ih =>
    rw [List.replicate_succ', numeral_append, ih]
    rfl

/-! ## §2. The digit readers return the numeral. -/

theorem digitsFrom?_eq {bs : Bytes} (h : AllDigits bs) (acc : Nat) :
    digitsFrom? acc bs = some (acc * 10 ^ bs.length + numeral bs) := by
  rw [← foldl_digits]
  induction bs generalizing acc with
  | nil => rfl
  | cons b bs ih =>
    obtain ⟨hb, hbs⟩ := allDigits_cons.1 h
    rw [digitsFrom?, digit?_eq_some hb]
    exact ih hbs (10 * acc + (b.toNat - 48))

/-- **The reader of digits returns their numeral.** -/
theorem digitsValue?_ofDigits {bs : Bytes} (h : AllDigits bs) (hne : bs ≠ []) :
    digitsValue? bs = some (numeral bs) := by
  cases bs with
  | nil => exact absurd rfl hne
  | cons b bs =>
    rw [digitsValue?, digitsFrom?_eq h, Nat.zero_mul, Nat.zero_add]

/-! ## §3. Printed numbers. -/

theorem toNat_digitByte {d : Nat} (h : d < 10) :
    (UInt8.ofNat (Nat.digitChar d).toNat).toNat = 48 + d := by
  rw [Nat.toNat_digitChar_of_lt_ten h, UInt8.toNat_ofNat']
  omega

theorem ofNat_of_lt {n : Nat} (h : n < 10) :
    ofNat n = [UInt8.ofNat (Nat.digitChar n).toNat] := by
  rw [ofNat, Nat.toDigits_of_lt_base h]
  rfl

theorem ofNat_of_le {n : Nat} (h : 10 ≤ n) :
    ofNat n = ofNat (n / 10) ++ [UInt8.ofNat (Nat.digitChar (n % 10)).toNat] := by
  rw [ofNat, Nat.toDigits_of_base_le (by decide) h, List.map_append]
  rfl

theorem ofNat_ne_nil (n : Nat) : ofNat n ≠ [] := by
  rw [ofNat, Ne, List.map_eq_nil_iff]
  exact Nat.toDigits_ne_nil

theorem length_ofNat (n : Nat) : (ofNat n).length = (Nat.toDigits 10 n).length := by
  rw [ofNat, List.length_map]

theorem length_ofNat_le_iff {n k : Nat} (hk : 0 < k) : (ofNat n).length ≤ k ↔ n < 10 ^ k := by
  rw [length_ofNat]
  exact Nat.length_toDigits_le_iff (by decide) hk

/-- A 64-bit number has few digits. -/
theorem length_ofNat_lt {n : Nat} (h : n < u64Bound) : (ofNat n).length < lengthBound := by
  have hdigits : (ofNat n).length ≤ 20 := by
    rw [length_ofNat_le_iff (by decide)]
    exact Nat.lt_trans h (by decide)
  exact Nat.lt_of_le_of_lt hdigits (by decide)

theorem allDigits_ofNat (n : Nat) : AllDigits (ofNat n) := by
  induction n using Nat.strongRecOn with
  | ind n ih =>
    by_cases h : n < 10
    · rw [ofNat_of_lt h]
      refine allDigits_cons.2 ⟨?_, allDigits_nil⟩
      rw [toNat_digitByte h]
      omega
    · have hmod : n % 10 < 10 := Nat.mod_lt n (by decide)
      rw [ofNat_of_le (by omega)]
      refine allDigits_append.2 ⟨ih (n / 10) (by omega), allDigits_cons.2 ⟨?_, allDigits_nil⟩⟩
      rw [toNat_digitByte hmod]
      omega

/-- **The printed digits of a number spell it.** -/
theorem numeral_ofNat (n : Nat) : numeral (ofNat n) = n := by
  induction n using Nat.strongRecOn with
  | ind n ih =>
    by_cases h : n < 10
    · rw [ofNat_of_lt h, numeral_singleton, toNat_digitByte h]
      omega
    · have hmod : n % 10 < 10 := Nat.mod_lt n (by decide)
      rw [ofNat_of_le (by omega), numeral_append, ih (n / 10) (by omega), numeral_singleton,
        toNat_digitByte hmod, List.length_singleton]
      omega

theorem digitsValue?_ofNat (n : Nat) : digitsValue? (ofNat n) = some n := by
  rw [digitsValue?_ofDigits (allDigits_ofNat n) (ofNat_ne_nil n), numeral_ofNat]

/-- A printed number begins with a digit, and so with no sign. -/
theorem head_ofNat (n : Nat) :
    ∃ b bs, ofNat n = b :: bs ∧ 48 ≤ b.toNat ∧ b.toNat ≤ 57 := by
  cases h : ofNat n with
  | nil => exact absurd h (ofNat_ne_nil n)
  | cons b bs =>
    exact ⟨b, bs, rfl, allDigits_ofNat n b (h ▸ List.mem_cons_self)⟩

/-! ## §4. The bounded readers. -/

/-- A number is read back if it lies below the bound. -/
theorem toNat?_ofNat_eq (bound n : Nat) :
    toNat? bound (ofNat n) = if n < bound then some n else none := by
  obtain ⟨b, bs, hcons, hb⟩ := head_ofNat n
  have hvalue := digitsValue?_ofNat n
  have hplus : b ≠ 43 := by
    rintro rfl
    exact absurd hb.1 (by decide)
  rw [hcons] at hvalue ⊢
  unfold toNat?
  split
  · rename_i heq
    exact absurd (List.cons.inj heq).1 hplus
  · simp only [hvalue]

/-- **A number below the bound is read back.** -/
theorem toNat?_ofNat {bound n : Nat} (h : n < bound) : toNat? bound (ofNat n) = some n := by
  rw [toNat?_ofNat_eq, if_pos h]

theorem toNat?_ofNat_of_le {bound n : Nat} (h : bound ≤ n) : toNat? bound (ofNat n) = none := by
  rw [toNat?_ofNat_eq, if_neg (Nat.not_lt.2 h)]

/-- **A number below half the range is read back as a signed one.** -/
theorem toInt?_ofNat {bits n : Nat} (h : n < Nat.pow 2 (bits - 1)) :
    toInt? bits (ofNat n) = some (n : Int) := by
  obtain ⟨b, bs, hcons, hb⟩ := head_ofNat n
  have hvalue := toNat?_ofNat h
  have hminus : b ≠ 45 := by
    rintro rfl
    exact absurd hb.1 (by decide)
  rw [hcons] at hvalue ⊢
  unfold toInt?
  split
  · rename_i heq
    exact absurd (List.cons.inj heq).1 hminus
  · simp only [hvalue]

theorem toNat?_lt {bound n : Nat} {bs : Bytes} (h : toNat? bound bs = some n) : n < bound := by
  unfold toNat? at h
  dsimp only at h
  split at h
  · split at h
    · rename_i hlt
      exact Option.some.inj h ▸ hlt
    · exact absurd h (by simp)
  · exact absurd h (by simp)

/-- A signed number that was read lies in the range of its bits. -/
theorem toInt?_range {bits : Nat} {i : Int} {bs : Bytes} (h : toInt? bits bs = some i) :
    -(Nat.pow 2 (bits - 1) : Int) ≤ i ∧ i < (Nat.pow 2 (bits - 1) : Int) := by
  have hpos : 0 < Nat.pow 2 (bits - 1) := Nat.pow_pos (by decide)
  unfold toInt? at h
  split at h
  · split at h
    · split at h
      · rename_i hle
        have hi := Option.some.inj h
        omega
      · exact absurd h (by simp)
    · exact absurd h (by simp)
  · split at h
    · rename_i hn
      have hlt := toNat?_lt hn
      have hi := Option.some.inj h
      omega
    · exact absurd h (by simp)

end Bytes

end DurableStore
