/-
  DurableStore.Proofs.Score.Magnitude
  ────────────────────────────────
  **THE NEAREST MAGNITUDE.**

  Magnitudes count the doubles upward from zero, and `units` gives their
  values.  This file shows that the values increase, that the distance from
  one to the next is a power of two, and what follows for rounding:

      units m · den  is nearer to  num  than half the gap on that side
        →  nearestMagnitude num den = m

  Rounding depends on the quotient `num / den` only, not on how it is
  written (`nearestMagnitude_eq_of_cross`), which is what lets a decimal be
  laid out with or without zeros at its end.
-/
import Mathlib.Order.Monotone.Basic
import Mathlib.Tactic.Ring
import DurableStore.Score.Basic

namespace DurableStore.Score

/-! ## §1. Values of magnitudes. -/

theorem binade_pos : 0 < binade := by decide

theorem units_of_lt {m : Nat} (h : m < 2 * binade) : units m = m := by
  unfold units
  split
  · rfl
  · have hdiv : m / binade = 1 := by
      rw [Nat.div_eq_iff binade_pos]
      simp only [binade] at *
      omega
    have hmod : binade + m % binade = m := by
      rw [Nat.mod_eq_sub_div_mul, hdiv]
      omega
    rw [hdiv, hmod]
    exact Nat.mul_one m

/-- Magnitude `e · binade + q` has the value `q · 2^e`. -/
theorem units_add {e q : Nat} (h : binade ≤ q) (h' : q < 2 * binade) :
    units (e * binade + q) = q * 2 ^ e := by
  obtain ⟨r, rfl⟩ := Nat.exists_eq_add_of_le h
  have hr : r < binade := by omega
  have hsplit : e * binade + (binade + r) = (e + 1) * binade + r := by ring
  have hdiv : ((e + 1) * binade + r) / binade = e + 1 := by
    rw [Nat.mul_comm, Nat.mul_add_div binade_pos, Nat.div_eq_of_lt hr, Nat.add_zero]
  have hmod : ((e + 1) * binade + r) % binade = r := by
    rw [Nat.mul_comm, Nat.mul_add_mod, Nat.mod_eq_of_lt hr]
  have hbig : ¬ (e + 1) * binade + r < binade := by
    rw [Nat.succ_mul]
    omega
  rw [hsplit, units, if_neg hbig, hdiv, hmod]
  rfl

/-- Every magnitude above the first binade has the form of `units_add`. -/
theorem exists_eq_add {m : Nat} (h : binade ≤ m) :
    ∃ e q, m = e * binade + q ∧ binade ≤ q ∧ q < 2 * binade ∧ m / binade - 1 = e := by
  have hdiv : 1 ≤ m / binade := Nat.div_pos h binade_pos
  have hmod := Nat.mod_lt m binade_pos
  have hm := Nat.div_add_mod m binade
  refine ⟨m / binade - 1, binade + m % binade, ?_, Nat.le_add_right _ _, by omega, rfl⟩
  obtain ⟨e, he⟩ := Nat.exists_eq_add_of_le hdiv
  rw [he] at hm ⊢
  rw [Nat.add_sub_cancel_left]
  calc m = binade * (1 + e) + m % binade := hm.symm
    _ = e * binade + (binade + m % binade) := by ring

/-! ## §2. The gaps between values. -/

/-- The distance from a value to the next. -/
def gap (m : Nat) : Nat := 2 ^ (m / binade - 1)

theorem gap_pos (m : Nat) : 0 < gap m := Nat.pow_pos (by decide)

theorem units_succ (m : Nat) : units (m + 1) = units m + gap m := by
  by_cases h : m < binade
  · have hgap : gap m = 1 := by
      rw [gap, Nat.div_eq_of_lt h]
      rfl
    rw [units_of_lt (by omega), units_of_lt (by omega), hgap]
  · obtain ⟨e, q, rfl, hq, hq', he⟩ := exists_eq_add (Nat.le_of_not_lt h)
    rw [gap, he, units_add hq hq']
    by_cases hlast : q + 1 < 2 * binade
    · rw [Nat.add_assoc, units_add (by omega) hlast]
      ring
    · -- the last value of a binade is followed by the first of the next
      have hnext : e * binade + q + 1 = (e + 1) * binade + binade := by
        have hq1 : q + 1 = 2 * binade := by omega
        rw [Nat.add_assoc, hq1]
        ring
      have hqv : q = 2 * binade - 1 := by omega
      rw [hnext, units_add (Nat.le_refl _) (by simp only [binade]; omega), hqv, Nat.pow_succ]
      have hpos : 0 < 2 ^ e := Nat.pow_pos (by decide)
      simp only [binade]
      omega

theorem units_strictMono : StrictMono units := by
  refine strictMono_nat_of_lt_succ fun m => ?_
  rw [units_succ]
  have := gap_pos m
  omega

theorem units_le_units {m n : Nat} : units m ≤ units n ↔ m ≤ n := units_strictMono.le_iff_le

theorem units_lt_units {m n : Nat} : units m < units n ↔ m < n := units_strictMono.lt_iff_lt

theorem units_pos {m : Nat} (h : 0 < m) : 0 < units m := by
  have := units_lt_units.2 h
  omega

theorem gap_mono {m n : Nat} (h : m ≤ n) : gap m ≤ gap n := by
  unfold gap
  exact Nat.pow_le_pow_right (by decide) (Nat.sub_le_sub_right (Nat.div_le_div_right h) 1)

/-- A value is less than 2^53 times the gap below it. -/
theorem units_le_gap_below {m : Nat} : units (m + 1) ≤ 2 ^ 53 * gap m := by
  by_cases h : m < binade
  · rw [units_of_lt (by omega)]
    have hpos := gap_pos m
    simp only [binade] at h
    omega
  · obtain ⟨e, q, rfl, hq, hq', he⟩ := exists_eq_add (Nat.le_of_not_lt h)
    rw [units_succ, gap, he, units_add hq hq']
    have hle : q + 1 ≤ 2 ^ 53 := by
      simp only [binade] at hq'
      omega
    calc q * 2 ^ e + 2 ^ e = (q + 1) * 2 ^ e := by ring
      _ ≤ 2 ^ 53 * 2 ^ e := Nat.mul_le_mul_right _ hle

/-- A bound on the value of the magnitudes up to a binade. -/
theorem units_lt_of_lt {e m : Nat} (h : m < (e + 2) * binade) :
    units m < 2 ^ 53 * Nat.pow 2 e := by
  have hle : units m ≤ units (e * binade + (2 * binade - 1)) := by
    refine units_le_units.2 ?_
    rw [Nat.add_mul] at h
    omega
  rw [units_add (by simp only [binade]; omega) (by simp only [binade]; omega)] at hle
  refine Nat.lt_of_le_of_lt hle ?_
  exact Nat.mul_lt_mul_of_pos_right (by decide) (Nat.two_pow_pos e)

/-! ## §3. Rounding down. -/

/-- **The greatest value below a number of units.** -/
theorem floorMagnitude_spec (t : Nat) :
    units (floorMagnitude t) ≤ t ∧ t < units (floorMagnitude t + 1) := by
  rw [units_succ]
  unfold floorMagnitude
  split
  · rename_i h
    rw [units_of_lt h]
    have := gap_pos t
    omega
  · rename_i h
    have ht : t ≠ 0 := by
      rintro rfl
      exact h (by decide)
    have hlow : 2 ^ Nat.log2 t ≤ t := Nat.log2_self_le ht
    have hhigh : t < 2 ^ (Nat.log2 t + 1) := Nat.lt_log2_self
    have hlog : 53 ≤ Nat.log2 t := by
      refine (Nat.le_log2 ht).2 ?_
      simp only [binade] at h
      omega
    dsimp only
    -- between two powers of two the values are 2 ^ shift units apart
    obtain ⟨shift, hshift⟩ : ∃ shift, Nat.log2 t = 52 + shift :=
      ⟨Nat.log2 t - 52, by omega⟩
    rw [hshift] at hlow hhigh ⊢
    rw [Nat.add_sub_cancel_left]
    have hpow : 0 < 2 ^ shift := Nat.pow_pos (by decide)
    have hq : binade ≤ t / Nat.pow 2 shift := by
      rw [Nat.pow_eq, Nat.le_div_iff_mul_le hpow]
      calc binade * 2 ^ shift = 2 ^ (52 + shift) := by rw [Nat.pow_add]
        _ ≤ t := hlow
    have hq' : t / Nat.pow 2 shift < 2 * binade := by
      rw [Nat.pow_eq, Nat.div_lt_iff_lt_mul hpow]
      calc t < 2 ^ (52 + shift + 1) := hhigh
        _ = 2 * binade * 2 ^ shift := by rw [Nat.pow_succ, Nat.pow_add]; ring
    have hgap : gap (shift * binade + t / Nat.pow 2 shift) = 2 ^ shift := by
      unfold gap
      congr 1
      have hdiv : (shift * binade + t / Nat.pow 2 shift) / binade = shift + 1 := by
        rw [Nat.div_eq_iff binade_pos, Nat.succ_mul]
        omega
      rw [hdiv, Nat.add_sub_cancel]
    rw [hgap, units_add hq hq', Nat.pow_eq]
    have hdm := Nat.div_add_mod t (2 ^ shift)
    have hmod := Nat.mod_lt t hpow
    rw [Nat.mul_comm] at hdm
    omega

theorem floorMagnitude_eq {m t : Nat} (h : units m ≤ t) (h' : t < units (m + 1)) :
    floorMagnitude t = m := by
  obtain ⟨hle, hlt⟩ := floorMagnitude_spec t
  have h1 : floorMagnitude t < m + 1 := units_lt_units.1 (Nat.lt_of_le_of_lt hle h')
  have h2 : m < floorMagnitude t + 1 := units_lt_units.1 (Nat.lt_of_le_of_lt h hlt)
  omega

/-! ## §4. Rounding to nearest. -/

/-- Rounding does not change when both terms of the quotient are scaled. -/
theorem nearestMagnitude_scale {c : Nat} (hc : 0 < c) (num den : Nat) :
    nearestMagnitude (c * num) (c * den) = nearestMagnitude num den := by
  unfold nearestMagnitude
  rw [Nat.mul_div_mul_left _ _ hc]
  dsimp only
  generalize floorMagnitude (num / den) = m
  have habove : 2 * (c * num - units m * (c * den)) = c * (2 * (num - units m * den)) := by
    rw [show units m * (c * den) = c * (units m * den) by ring, ← Nat.mul_sub]
    ring
  have hgap : (units (m + 1) - units m) * (c * den) = c * ((units (m + 1) - units m) * den) := by
    ring
  simp only [habove, hgap, Nat.mul_lt_mul_left hc]

/-- **Equal quotients round alike.** -/
theorem nearestMagnitude_eq_of_cross {n d n' d' : Nat} (hd : 0 < d) (hd' : 0 < d')
    (h : n * d' = n' * d) : nearestMagnitude n d = nearestMagnitude n' d' := by
  rw [← nearestMagnitude_scale hd' n d, ← nearestMagnitude_scale hd n' d']
  rw [Nat.mul_comm d' n, h, Nat.mul_comm n' d, Nat.mul_comm d' d]

/-- What lies above a value by less than half the gap rounds down to it. -/
theorem nearestMagnitude_of_above {m num den : Nat} (hden : 0 < den) (hm : m < infinityMagnitude)
    (hle : units m * den ≤ num) (hlt : 2 * (num - units m * den) < gap m * den) :
    nearestMagnitude num den = m := by
  have hup : num < units (m + 1) * den := by
    rw [units_succ, Nat.add_mul]
    omega
  have hfloor : floorMagnitude (num / den) = m :=
    floorMagnitude_eq ((Nat.le_div_iff_mul_le hden).2 hle) ((Nat.div_lt_iff_lt_mul hden).2 hup)
  have hgap : units (m + 1) - units m = gap m := by
    rw [units_succ, Nat.add_sub_cancel_left]
  unfold nearestMagnitude
  simp only [hfloor, hgap, if_pos hlt]
  exact Nat.min_eq_left (Nat.le_of_lt hm)

/-- What lies below a value by less than half the gap rounds up to it. -/
theorem nearestMagnitude_of_below {m num den : Nat} (hden : 0 < den)
    (hm : m + 1 < infinityMagnitude) (hlt : num < units (m + 1) * den)
    (hnear : 2 * (units (m + 1) * den - num) < gap m * den) :
    nearestMagnitude num den = m + 1 := by
  have hsucc : units (m + 1) * den = units m * den + gap m * den := by
    rw [units_succ, Nat.add_mul]
  have hfloor : floorMagnitude (num / den) = m :=
    floorMagnitude_eq ((Nat.le_div_iff_mul_le hden).2 (by omega))
      ((Nat.div_lt_iff_lt_mul hden).2 hlt)
  have hgap : units (m + 1) - units m = gap m := by
    rw [units_succ, Nat.add_sub_cancel_left]
  have habove : ¬ 2 * (num - units m * den) < gap m * den := by omega
  have habove' : gap m * den < 2 * (num - units m * den) := by omega
  unfold nearestMagnitude
  simp only [hfloor, hgap, if_neg habove, if_pos habove']
  exact Nat.min_eq_left (Nat.le_of_lt hm)

theorem nearestMagnitude_zero {den : Nat} (hden : 0 < den) : nearestMagnitude 0 den = 0 := by
  have hzero : units 0 = 0 := units_of_lt (by decide)
  refine nearestMagnitude_of_above hden (by decide) ?_ ?_
  · rw [hzero, Nat.zero_mul]
  · rw [Nat.zero_sub, Nat.mul_zero]
    exact Nat.mul_pos (gap_pos 0) hden

theorem nearestMagnitude_le (num den : Nat) : nearestMagnitude num den ≤ infinityMagnitude :=
  Nat.min_le_right _ _

end DurableStore.Score
