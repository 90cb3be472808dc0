/-
  DurableStore.Proofs.Score.Shortest
  ────────────────────────────────
  **SEVENTEEN DIGITS ARE ENOUGH.**

  The shortest decimal of a magnitude is looked for grid by grid.  On the
  grid of seventeen digits the spacing is less than half the gap between
  doubles, so the neighbour of the value on that grid reads back:

      unity · 10^E  <  gap · …        (`gridSpacing_lt`)

  Hence the search always ends on a grid, and what it finds reads back by
  construction, has at most eighteen digits, and lies at most a few hundred
  places from the decimal point.

  Main results:
    * `magnitude_shortest` — the shortest decimal reads back;
    * `shortest_digits_le`, `shortest_point_range` — how long it can be.
-/
import DurableStore.Score.Shortest
import DurableStore.Proofs.Bytes.Decimal
import DurableStore.Proofs.Score.Magnitude

namespace DurableStore.Decimal

open Score

/-! ## §1. Counting digits. -/

theorem digitCount_pos (n : Nat) : 0 < digitCount n := Nat.length_toDigits_pos

theorem digitCount_le_iff {n k : Nat} (hk : 0 < k) : digitCount n ≤ k ↔ n < Nat.pow 10 k :=
  Nat.length_toDigits_le_iff (by decide) hk

theorem lt_pow_digitCount (n : Nat) : n < 10 ^ digitCount n :=
  (digitCount_le_iff (digitCount_pos n)).1 (Nat.le_refl _)

theorem pow_digitCount_le {n : Nat} (hn : 0 < n) : 10 ^ (digitCount n - 1) ≤ n := by
  by_cases h : digitCount n = 1
  · rw [h]
    exact hn
  · have hpos := digitCount_pos n
    have hnot : ¬ digitCount n ≤ digitCount n - 1 := by omega
    rw [digitCount_le_iff (by omega), Nat.pow_eq] at hnot
    omega

/-! ## §2. The decimal point of a value. -/

/-- The digits before the point of a value, with 330 places kept. -/
def scaledDigits (m : Nat) : Nat := digitCount (units m * Nat.pow 10 330 / unity)

theorem pow_pos_of_pos {b : Nat} (hb : 0 < b) (e : Nat) : 0 < Nat.pow b e := Nat.pow_pos hb

theorem unity_pos : 0 < unity := by decide +kernel

theorem pointOf_eq (m : Nat) : pointOf m = (scaledDigits m : Int) - (330 : Nat) := rfl

-- 2^1074 must not be computed where a term is only compared
attribute [local irreducible] unity

/-- The value lies between two powers of ten. -/
theorem scaledDigits_spec {m : Nat} (hm : 0 < m) :
    10 ^ (scaledDigits m - 1) * unity ≤ units m * Nat.pow 10 330
      ∧ units m * Nat.pow 10 330 < 10 ^ scaledDigits m * unity := by
  have hunits := units_pos hm
  have hone : unity ≤ Nat.pow 10 330 := by decide +kernel
  unfold scaledDigits
  generalize Nat.pow 10 330 = scale at hone ⊢
  have hscaled : 0 < units m * scale / unity := by
    refine Nat.div_pos ?_ unity_pos
    exact Nat.le_trans hone (Nat.le_mul_of_pos_left _ hunits)
  constructor
  · rw [← Nat.le_div_iff_mul_le unity_pos]
    exact pow_digitCount_le hscaled
  · rw [← Nat.div_lt_iff_lt_mul unity_pos]
    exact lt_pow_digitCount _

theorem scaledDigits_pos (m : Nat) : 0 < scaledDigits m := digitCount_pos _

theorem digitCount_quotient_le {u bound scale one k : Nat} (hk : 0 < k) (hone : 0 < one)
    (hscale : 0 < scale) (hu : u < bound) (hbound : bound * scale ≤ Nat.pow 10 k * one) :
    digitCount (u * scale / one) ≤ k := by
  rw [digitCount_le_iff hk, Nat.div_lt_iff_lt_mul hone]
  exact Nat.lt_of_lt_of_le (Nat.mul_lt_mul_of_pos_right hu hscale) hbound

theorem scaledDigits_le {m : Nat} (h : m < infinityMagnitude) : scaledDigits m ≤ 639 := by
  unfold scaledDigits
  refine digitCount_quotient_le (by decide) unity_pos ?_ (@units_lt_of_lt 2045 m h) ?_
  · decide +kernel
  · decide +kernel

/-! ## §3. The grid of seventeen digits. -/

/-- The spacing of seventeen digits on a value of `k` digits, `s` of them kept
behind the point: what is below 10^16 gaps has a spacing below one gap. -/
theorem spacing_lt {k s u one g : Nat} (hk : 0 < k) (hlow : 10 ^ (k - 1) * one ≤ u * Nat.pow 10 s)
    (hgap : u < g * 10 ^ 16) :
    one * Nat.pow 10 ((k : Int) - s - (17 : Nat)).toNat
      < g * Nat.pow 10 (-((k : Int) - s - (17 : Nat))).toNat := by
  have hlt : 10 ^ (k - 1) * one < g * 10 ^ 16 * Nat.pow 10 s :=
    Nat.lt_of_le_of_lt hlow (Nat.mul_lt_mul_of_pos_right hgap (Nat.pow_pos (by decide)))
  rw [Nat.pow_eq, Nat.mul_assoc, ← Nat.pow_add] at hlt
  rw [Nat.pow_eq, Nat.pow_eq]
  by_cases hks : s + 17 ≤ k
  · -- the spacing is a whole number of units
    obtain ⟨j, rfl⟩ := Nat.exists_eq_add_of_le hks
    have ha : (((s + 17 + j : Nat) : Int) - s - (17 : Nat)).toNat = j := by omega
    have hb : (-(((s + 17 + j : Nat) : Int) - s - (17 : Nat))).toNat = 0 := by omega
    have hsplit : s + 17 + j - 1 = j + (16 + s) := by omega
    rw [ha, hb, Nat.pow_zero, Nat.mul_one, Nat.mul_comm]
    rw [hsplit, Nat.pow_add, Nat.mul_right_comm] at hlt
    exact Nat.lt_of_mul_lt_mul_right hlt
  · -- the spacing is a fraction of a unit
    obtain ⟨j, hj⟩ := Nat.exists_eq_add_of_le (Nat.le_of_not_le hks)
    have ha : ((k : Int) - s - (17 : Nat)).toNat = 0 := by omega
    have hb : (-((k : Int) - s - (17 : Nat))).toNat = j := by omega
    have hsplit : 16 + s = j + (k - 1) := by omega
    rw [ha, hb, Nat.pow_zero, Nat.mul_one]
    rw [hsplit, Nat.pow_add, ← Nat.mul_assoc, Nat.mul_comm _ one] at hlt
    exact Nat.lt_of_mul_lt_mul_right hlt

/-- **The spacing of seventeen digits is below the gap under a value**: a
value is at most 2^53 gaps, and 2^53 is below 10^16. -/
theorem gridSpacing_lt (m : Nat) :
    unity * Nat.pow 10 (pointOf (m + 1) - (17 : Nat)).toNat
      < gap m * Nat.pow 10 (-(pointOf (m + 1) - (17 : Nat))).toNat := by
  have hpos : 0 < m + 1 := Nat.succ_pos m
  have hlow := (scaledDigits_spec hpos).1
  have hgap : units (m + 1) < gap m * 10 ^ 16 := by
    calc units (m + 1) ≤ 2 ^ 53 * gap m := units_le_gap_below
      _ < 10 ^ 16 * gap m := Nat.mul_lt_mul_of_pos_right (by decide) (gap_pos m)
      _ = gap m * 10 ^ 16 := Nat.mul_comm _ _
  rw [pointOf_eq]
  exact @spacing_lt (scaledDigits (m + 1)) 330 (units (m + 1)) unity (gap m)
    (scaledDigits_pos (m + 1)) hlow hgap

/-- One of the two neighbours of a value on a grid rounds to it, when the
grid is finer than the gap below the value: the nearer one does. -/
theorem neighbour_rounds {m num den scale : Nat} (hscale : 0 < scale) (hden : 0 < den)
    (hfin : m + 1 < infinityMagnitude) (hnum : units (m + 1) * scale = num)
    (hspacing : den < gap m * scale) :
    if 2 * (num % den) < den then nearestMagnitude (num / den * den) scale = m + 1
    else nearestMagnitude ((num / den + 1) * den) scale = m + 1 := by
  have hdm := Nat.div_add_mod num den
  have hmod := Nat.mod_lt num hden
  have hgap : gap m * scale ≤ gap (m + 1) * scale :=
    Nat.mul_le_mul_right _ (gap_mono (Nat.le_succ m))
  rw [Nat.mul_comm] at hdm
  split
  · rename_i hnear
    by_cases hr : num % den = 0
    · refine nearestMagnitude_of_above hscale hfin ?_ ?_ <;> rw [hnum] <;> omega
    · refine nearestMagnitude_of_below hscale hfin ?_ ?_ <;> rw [hnum] <;> omega
  · rename_i hfar
    rw [Nat.succ_mul]
    refine nearestMagnitude_of_above hscale hfin ?_ ?_ <;> rw [hnum] <;> omega

/-- The decimal `q` steps up a grid has the magnitude of `q` spacings. -/
theorem magnitude_on_grid (q : Nat) (e : Int) :
    magnitude ⟨q, e⟩
      = nearestMagnitude (q * (unity * Nat.pow 10 e.toNat)) (Nat.pow 10 (-e).toNat) := by
  unfold magnitude
  generalize unity = one
  dsimp only
  rw [Nat.mul_assoc, Nat.mul_comm one]

theorem firstReading?_isSome {m : Nat} {nearer other : Decimal} (h : nearer.magnitude = m) :
    (firstReading? m nearer other).isSome := by
  unfold firstReading?
  rw [if_pos h]
  rfl

/-- A grid that is finer than the gap below a value holds a decimal that
reads back. -/
theorem onGrid?_isSome {m n : Nat} (hfin : m + 1 < infinityMagnitude)
    (hspacing : unity * Nat.pow 10 (pointOf (m + 1) - (n : Int)).toNat
      < gap m * Nat.pow 10 (-(pointOf (m + 1) - (n : Int))).toNat) :
    (onGrid? (m + 1) n).isSome := by
  have hb : 0 < Nat.pow 10 (-(pointOf (m + 1) - (n : Int))).toNat :=
    pow_pos_of_pos (by decide) _
  have hden : 0 < unity * Nat.pow 10 (pointOf (m + 1) - (n : Int)).toNat :=
    Nat.mul_pos unity_pos (pow_pos_of_pos (by decide) _)
  have hreads := @neighbour_rounds m _ _ _ hb hden hfin rfl hspacing
  rw [← magnitude_on_grid, ← magnitude_on_grid] at hreads
  unfold onGrid?
  dsimp only
  split at hreads
  · rename_i hnear
    rw [if_pos hnear]
    exact firstReading?_isSome hreads
  · rename_i hfar
    rw [if_neg hfar]
    exact firstReading?_isSome hreads

/-- **The grid of seventeen digits holds a decimal that reads back.** -/
theorem onGrid?_seventeen {m : Nat} (hfin : m + 1 < infinityMagnitude) :
    (onGrid? (m + 1) 17).isSome :=
  onGrid?_isSome hfin (gridSpacing_lt m)

/-! ## §4. What a grid returns. -/

theorem firstReading?_spec {m : Nat} {nearer other d : Decimal}
    (h : firstReading? m nearer other = some d) :
    d.magnitude = m ∧ (d = nearer ∨ d = other) := by
  unfold firstReading? at h
  split at h
  · rename_i hreads
    obtain rfl := Option.some.inj h
    exact ⟨hreads, .inl rfl⟩
  · split at h
    · rename_i hreads
      obtain rfl := Option.some.inj h
      exact ⟨hreads, .inr rfl⟩
    · exact absurd h (by simp)

/-- What a grid returns reads back, and is a neighbour of the value. -/
theorem onGrid?_spec {m n : Nat} {d : Decimal} (h : onGrid? m n = some d) :
    d.magnitude = m ∧ d.exponent = pointOf m - n
      ∧ d.digits ≤ units m * Nat.pow 10 (-(pointOf m - n)).toNat
          / (unity * Nat.pow 10 (pointOf m - n).toNat) + 1 := by
  unfold onGrid? at h
  dsimp only at h
  split at h
  · obtain ⟨hreads, rfl | rfl⟩ := firstReading?_spec h
    · exact ⟨hreads, rfl, Nat.le_succ _⟩
    · exact ⟨hreads, rfl, Nat.le_refl _⟩
  · obtain ⟨hreads, rfl | rfl⟩ := firstReading?_spec h
    · exact ⟨hreads, rfl, Nat.le_refl _⟩
    · exact ⟨hreads, rfl, Nat.le_succ _⟩

/-- A value of `k` digits has fewer than `10^n` steps on its grid of `n` digits. -/
theorem steps_lt {k s n u one : Nat} (hhigh : u * Nat.pow 10 s < 10 ^ k * one) :
    u * Nat.pow 10 (-((k : Int) - s - n)).toNat
      < 10 ^ n * (one * Nat.pow 10 ((k : Int) - s - n).toNat) := by
  rw [Nat.pow_eq] at hhigh
  rw [Nat.pow_eq, Nat.pow_eq]
  by_cases hk : s + n ≤ k
  · obtain ⟨j, rfl⟩ := Nat.exists_eq_add_of_le hk
    have ha : (((s + n + j : Nat) : Int) - s - n).toNat = j := by omega
    have hb : (-(((s + n + j : Nat) : Int) - s - n)).toNat = 0 := by omega
    rw [ha, hb, Nat.pow_zero, Nat.mul_one]
    have hsplit : 10 ^ (s + n + j) * one = 10 ^ n * (one * 10 ^ j) * 10 ^ s := by
      rw [Nat.pow_add, Nat.pow_add]
      ring
    rw [hsplit] at hhigh
    exact Nat.lt_of_mul_lt_mul_right hhigh
  · obtain ⟨j, hj⟩ := Nat.exists_eq_add_of_le (Nat.le_of_not_le hk)
    have ha : ((k : Int) - s - n).toNat = 0 := by omega
    have hb : (-((k : Int) - s - n)).toNat = j := by omega
    rw [ha, hb, Nat.pow_zero, Nat.mul_one]
    -- scaled by 10^k on both sides this is the bound on the value
    refine Nat.lt_of_mul_lt_mul_right (a := 10 ^ k) ?_
    have hscaled := Nat.mul_lt_mul_of_pos_right hhigh (Nat.pow_pos (by decide) : 0 < 10 ^ n)
    calc u * 10 ^ j * 10 ^ k = u * 10 ^ (j + k) := by rw [Nat.mul_assoc, Nat.pow_add]
      _ = u * 10 ^ s * 10 ^ n := by
        rw [Nat.mul_assoc, ← Nat.pow_add, show j + k = s + n by omega]
      _ < 10 ^ k * one * 10 ^ n := hscaled
      _ = 10 ^ n * one * 10 ^ k := by ring

theorem quotient_lt {m n : Nat} (hm : 0 < m) :
    units m * Nat.pow 10 (-(pointOf m - n)).toNat
      < 10 ^ n * (unity * Nat.pow 10 (pointOf m - n).toNat) := by
  rw [pointOf_eq]
  have hhigh := (scaledDigits_spec hm).2
  exact @steps_lt (scaledDigits m) 330 n (units m) unity hhigh

theorem digits_of_onGrid? {m n : Nat} {d : Decimal} (hm : 0 < m) (h : onGrid? m n = some d) :
    d.digits ≤ 10 ^ n := by
  have hden : 0 < unity * Nat.pow 10 (pointOf m - n).toNat :=
    Nat.mul_pos unity_pos (pow_pos_of_pos (by decide) _)
  have hquot := (Nat.div_lt_iff_lt_mul hden).2 (@quotient_lt m n hm)
  exact Nat.le_trans (onGrid?_spec h).2.2 hquot

/-! ## §5. The shortest decimal. -/

/-- The search ends on a grid of at most seventeen digits. -/
theorem shortest_onGrid {m : Nat} (hm : 0 < m) (hfin : m < infinityMagnitude) :
    ∃ n, n ≤ 17 ∧ onGrid? m n = some (shortest m) := by
  obtain ⟨m, rfl⟩ := Nat.exists_eq_succ_of_ne_zero (Nat.ne_of_gt hm)
  have hsome : ((List.range' 1 17).findSome? (onGrid? (m + 1))).isSome := by
    rw [List.findSome?_isSome_iff]
    refine ⟨17, ?_, onGrid?_seventeen hfin⟩
    decide
  obtain ⟨d, hd⟩ := Option.isSome_iff_exists.1 hsome
  obtain ⟨n, hn, hgrid⟩ := List.exists_of_findSome?_eq_some hd
  have hle : n ≤ 17 := by
    have := (List.mem_range'_1.1 hn).2
    omega
  have hshort : shortest (m + 1) = d := by
    unfold shortest
    rw [hd]
    rfl
  exact ⟨n, hle, hshort ▸ hgrid⟩

/-- **The shortest decimal reads back.** -/
theorem magnitude_shortest {m : Nat} (hm : 0 < m) (hfin : m < infinityMagnitude) :
    (shortest m).magnitude = m := by
  obtain ⟨n, -, hgrid⟩ := shortest_onGrid hm hfin
  exact (onGrid?_spec hgrid).1

theorem shortest_digits_ne_zero {m : Nat} (hm : 0 < m) (hfin : m < infinityMagnitude) :
    (shortest m).digits ≠ 0 := by
  intro hzero
  have hmag := magnitude_shortest hm hfin
  unfold magnitude at hmag
  rw [hzero, Nat.zero_mul, Nat.zero_mul,
    nearestMagnitude_zero (pow_pos_of_pos (by decide) _)] at hmag
  omega

theorem shortest_digits_le {m : Nat} (hm : 0 < m) (hfin : m < infinityMagnitude) :
    (shortest m).digits ≤ 10 ^ 17 := by
  obtain ⟨n, hn, hgrid⟩ := shortest_onGrid hm hfin
  exact Nat.le_trans (digits_of_onGrid? hm hgrid) (Nat.pow_le_pow_right (by decide) hn)

theorem digitCount_shortest_le {m : Nat} (hm : 0 < m) (hfin : m < infinityMagnitude) :
    digitCount (shortest m).digits ≤ 18 := by
  rw [digitCount_le_iff (by decide)]
  exact Nat.lt_of_le_of_lt (shortest_digits_le hm hfin) (by decide)

/-- **The decimal point of a shortest decimal is near.** -/
theorem shortest_point_range {m : Nat} (hm : 0 < m) (hfin : m < infinityMagnitude) :
    -345 ≤ (shortest m).point ∧ (shortest m).point ≤ 327 := by
  obtain ⟨n, hn, hgrid⟩ := shortest_onGrid hm hfin
  have hexp := (onGrid?_spec hgrid).2.1
  have hcount := digitCount_shortest_le hm hfin
  have hpos := digitCount_pos (shortest m).digits
  have hscaled := scaledDigits_pos m
  have hscaled' := scaledDigits_le hfin
  rw [pointOf_eq] at hexp
  unfold point
  omega

end DurableStore.Decimal
