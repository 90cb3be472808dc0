/-
  DurableStore.Proofs.Score.Text
  ────────────────────────────────
  **SCORE TEXT READS BACK.**

  Both layouts print the significant digits `ds` of a decimal and say, each
  in its own way, where the point stands.  What is read is the number

      numeral ds · 10^(point - |ds|)

  up to zeros at its end, and that is the decimal that was printed.  As the
  decimal of a score is one that reads back, so is its text.

  Main results:
    * `parse?_format`, `parse?_formatShort` — a score is read from its text;
    * `isNaN_of_parse?` — no text is read as NaN;
    * `length_formatShort_le`, `length_format_le` — how long the texts are.
-/
import DurableStore.Score.Text
import DurableStore.Proofs.Score.Shortest

namespace DurableStore.Decimal

open Score Bytes

/-! ## §1. Zeros at the end. -/

/-- Decimals of one value have one magnitude. -/
theorem magnitude_eq_of_value {a b s : Nat} {e f : Int} (he : 0 ≤ e + s) (hf : 0 ≤ f + s)
    (h : a * 10 ^ (e + s).toNat = b * 10 ^ (f + s).toNat) :
    magnitude ⟨a, e⟩ = magnitude ⟨b, f⟩ := by
  unfold magnitude
  refine nearestMagnitude_eq_of_cross (pow_pos_of_pos (by decide) _)
    (pow_pos_of_pos (by decide) _) ?_
  dsimp only
  generalize unity = one
  rw [Nat.pow_eq, Nat.pow_eq, Nat.pow_eq, Nat.pow_eq]
  have hleft : s + e.toNat = (e + s).toNat + (-e).toNat := by omega
  have hright : s + f.toNat = (f + s).toNat + (-f).toNat := by omega
  -- cleared of 10^s, the two sides are the two values
  refine Nat.eq_of_mul_eq_mul_left (Nat.pow_pos (n := s) (by decide : 0 < 10)) ?_
  calc 10 ^ s * (a * 10 ^ e.toNat * one * 10 ^ (-f).toNat)
      = a * 10 ^ (s + e.toNat) * one * 10 ^ (-f).toNat := by rw [Nat.pow_add]; ring
    _ = a * 10 ^ (e + s).toNat * (one * 10 ^ (-e).toNat * 10 ^ (-f).toNat) := by
        rw [hleft, Nat.pow_add]; ring
    _ = b * 10 ^ (f + s).toNat * (one * 10 ^ (-e).toNat * 10 ^ (-f).toNat) := by rw [h]
    _ = b * 10 ^ (s + f.toNat) * one * 10 ^ (-e).toNat := by rw [hright, Nat.pow_add]; ring
    _ = 10 ^ s * (b * 10 ^ f.toNat * one * 10 ^ (-e).toNat) := by rw [Nat.pow_add]; ring

/-- Zeros at the end of the digits can go into the exponent. -/
theorem magnitude_mul_pow (a k : Nat) (e : Int) :
    magnitude ⟨a * 10 ^ k, e⟩ = magnitude ⟨a, e + k⟩ := by
  refine magnitude_eq_of_value (s := (-e).toNat) (by omega) (by omega) ?_
  have hsplit : (e + k + (-e).toNat).toNat = k + (e + (-e).toNat).toNat := by omega
  rw [hsplit, Nat.pow_add, Nat.mul_assoc]

theorem dropTrailingZeros_spec (ds : Bytes) :
    ∃ k, ds = dropTrailingZeros ds ++ List.replicate k 48 := by
  unfold dropTrailingZeros
  refine ⟨(ds.reverse.takeWhile (· == 48)).length, ?_⟩
  have hzeros : ds.reverse.takeWhile (· == 48)
      = List.replicate (ds.reverse.takeWhile (· == 48)).length 48 := by
    refine List.eq_replicate_iff.2 ⟨rfl, ?_⟩
    intro b hb
    exact beq_iff_eq.1 (List.all_eq_true.1 List.all_takeWhile b hb)
  have hsplit := List.takeWhile_append_dropWhile (p := (· == 48)) (l := ds.reverse)
  have hreversed := congrArg List.reverse hsplit
  rw [List.reverse_append, List.reverse_reverse, hzeros, List.reverse_replicate] at hreversed
  exact hreversed.symm

/-- **The significant digits of a decimal**: all but the zeros at the end. -/
theorem significant_spec {d : Decimal} (hd : d.digits ≠ 0) :
    ∃ k, d.digits = numeral d.significant * 10 ^ k ∧ digitCount d.digits = d.significant.length + k
      ∧ AllDigits d.significant ∧ d.significant ≠ [] := by
  obtain ⟨k, hk⟩ := dropTrailingZeros_spec (Bytes.ofNat d.digits)
  have hdigits := allDigits_ofNat d.digits
  have hvalue := numeral_ofNat d.digits
  rw [hk] at hdigits hvalue
  rw [numeral_append, numeral_replicate_zero, List.length_replicate, Nat.add_zero] at hvalue
  refine ⟨k, hvalue.symm, ?_, (allDigits_append.1 hdigits).1, ?_⟩
  · have hlength := congrArg List.length hk
    rw [List.length_append, List.length_replicate, length_ofNat] at hlength
    exact hlength
  · intro hnil
    rw [show dropTrailingZeros (Bytes.ofNat d.digits) = [] from hnil] at hvalue
    rw [numeral, List.foldl_nil, Nat.zero_mul] at hvalue
    exact hd hvalue.symm

end DurableStore.Decimal

namespace DurableStore.Score

open Bytes Decimal

/-! ## §2. Reading a decimal. -/

theorem isDigit_iff {b : UInt8} : isDigit b = true ↔ 48 ≤ b.toNat ∧ b.toNat ≤ 57 := by
  unfold isDigit
  rw [Bool.and_eq_true, decide_eq_true_iff, decide_eq_true_iff, UInt8.le_iff_toNat_le,
    UInt8.le_iff_toNat_le]
  rfl

theorem isDigit_of_mem {ds : Bytes} (h : AllDigits ds) : ∀ b ∈ ds, isDigit b = true := by
  intro b hb
  exact isDigit_iff.2 (h b hb)

/-- Nothing, or something that begins with no digit. -/
def Stops (rest : Bytes) : Prop := ∀ b ∈ rest.head?, isDigit b = false

theorem stops_nil : Stops [] := by
  intro b hb
  exact absurd hb (by simp)

theorem stops_cons {b : UInt8} (rest : Bytes) (h : isDigit b = false) : Stops (b :: rest) := by
  intro c hc
  obtain rfl : b = c := by simpa using hc
  exact h

theorem takeWhile_digits {ds rest : Bytes} (h : AllDigits ds) (hrest : Stops rest) :
    (ds ++ rest).takeWhile isDigit = ds := by
  rw [List.takeWhile_append_of_pos (isDigit_of_mem h)]
  cases rest with
  | nil => rw [List.takeWhile_nil, List.append_nil]
  | cons b rest =>
    have hb : ¬ isDigit b = true := by
      rw [hrest b (by simp)]
      decide
    rw [List.takeWhile_cons_of_neg hb, List.append_nil]

theorem dropWhile_digits {ds rest : Bytes} (h : AllDigits ds) (hrest : Stops rest) :
    (ds ++ rest).dropWhile isDigit = rest := by
  rw [List.dropWhile_append_of_pos (isDigit_of_mem h)]
  cases rest with
  | nil => rfl
  | cons b rest =>
    have hb : ¬ isDigit b = true := by
      rw [hrest b (by simp)]
      decide
    exact List.dropWhile_cons_of_neg hb

/-- A number without a point: digits and a power of ten. -/
theorem decimal?_whole {whole power : Bytes} {e : Int} (hwhole : AllDigits whole)
    (hne : whole ≠ []) (hstops : Stops power) (hpoint : ∀ rest, power ≠ 46 :: rest)
    (hpower : exponent? power = some e) :
    decimal? (whole ++ power) = some ⟨numeral whole, e⟩ := by
  have hfraction : splitFraction power = ([], power) := by
    unfold splitFraction
    split
    · rename_i rest
      exact absurd rfl (hpoint rest)
    · rfl
  unfold decimal?
  rw [takeWhile_digits hwhole hstops, dropWhile_digits hwhole hstops, hfraction]
  dsimp only
  rw [List.append_nil, digitsValue?_ofDigits hwhole hne, hpower]
  exact congrArg some (by rw [List.length_nil, Int.natCast_zero, Int.sub_zero])

/-- A number with a point: digits, more digits, and a power of ten. -/
theorem decimal?_point {whole fraction power : Bytes} {e : Int} (hwhole : AllDigits whole)
    (hne : whole ≠ []) (hfraction : AllDigits fraction) (hstops : Stops power)
    (hpower : exponent? power = some e) :
    decimal? (whole ++ 46 :: (fraction ++ power))
      = some ⟨numeral (whole ++ fraction), e - fraction.length⟩ := by
  have hpoint : Stops (46 :: (fraction ++ power)) := stops_cons _ (by decide)
  have hdigits := allDigits_append.2 ⟨hwhole, hfraction⟩
  have hne' : whole ++ fraction ≠ [] := by
    intro hnil
    exact hne (List.append_eq_nil_iff.1 hnil).1
  have hsplit : splitFraction (46 :: (fraction ++ power)) = (fraction, power) := by
    rw [splitFraction, takeWhile_digits hfraction hstops, dropWhile_digits hfraction hstops]
  unfold decimal?
  rw [takeWhile_digits hwhole hpoint, dropWhile_digits hwhole hpoint, hsplit]
  dsimp only
  rw [digitsValue?_ofDigits hdigits hne', hpower]

/-! ## §3. Reading a power of ten. -/

/-- Up to the limit the power of ten is the numeral of its digits. -/
theorem foldl_exponentDigit {ds : Bytes} {acc : Nat}
    (h : ds.foldl (fun n b => 10 * n + (b.toNat - 48)) acc < exponentLimit) :
    ds.foldl exponentDigit acc = ds.foldl (fun n b => 10 * n + (b.toNat - 48)) acc := by
  induction ds generalizing acc with
  | nil => rfl
  | cons b ds ih =>
    rw [List.foldl_cons] at h ⊢
    have hgrow : 10 * acc + (b.toNat - 48) ≤ ds.foldl (fun n b => 10 * n + (b.toNat - 48))
        (10 * acc + (b.toNat - 48)) := by
      rw [foldl_digits]
      have hpos : 0 < 10 ^ ds.length := Nat.pow_pos (by decide)
      exact Nat.le_trans (Nat.le_mul_of_pos_right _ hpos) (Nat.le_add_right _ _)
    have hacc : acc < exponentLimit := by omega
    rw [List.foldl_cons, exponentDigit, if_pos hacc]
    exact ih h

theorem exponentValue?_ofNat {n : Nat} (h : n < exponentLimit) :
    exponentValue? (Bytes.ofNat n) = some n := by
  have hall : (Bytes.ofNat n).all isDigit = true :=
    List.all_eq_true.2 (isDigit_of_mem (allDigits_ofNat n))
  have hvalue := numeral_ofNat n
  unfold numeral at hvalue
  unfold exponentValue?
  rw [if_pos ⟨ofNat_ne_nil n, hall⟩, foldl_exponentDigit (by rw [hvalue]; exact h), hvalue]

theorem splitSign_of_digit {b : UInt8} (bs : Bytes) (h : 48 ≤ b.toNat) :
    splitSign (b :: bs) = (false, b :: bs) := by
  unfold splitSign
  split
  · rename_i heq
    obtain ⟨rfl, -⟩ := List.cons.inj heq
    exact absurd h (by decide)
  · rename_i heq
    obtain ⟨rfl, -⟩ := List.cons.inj heq
    exact absurd h (by decide)
  · rfl

/-- **A power of ten is read back.** -/
theorem exponent?_ofInt {e : Int} (hlow : -(exponentLimit : Int) < e) (hhigh : e < exponentLimit) :
    exponent? (101 :: Bytes.ofInt e) = some e := by
  cases e with
  | ofNat n =>
    have hn : n < exponentLimit := by
      have : (n : Int) < exponentLimit := hhigh
      omega
    obtain ⟨b, bs, hcons, hb, -⟩ := head_ofNat n
    have hvalue := exponentValue?_ofNat hn
    rw [Bytes.ofInt, exponent?]
    rw [hcons] at hvalue ⊢
    rw [splitSign_of_digit bs hb]
    dsimp only
    rw [hvalue]
    rfl
  | negSucc n =>
    have hn : n + 1 < exponentLimit := by
      rw [Int.negSucc_eq] at hlow
      omega
    have hsign : splitSign (45 :: Bytes.ofNat (n + 1)) = (true, Bytes.ofNat (n + 1)) := rfl
    rw [Bytes.ofInt, exponent?, hsign]
    dsimp only
    rw [exponentValue?_ofNat hn]
    rfl

/-! ## §4. Both layouts read back. -/

/-- The significant digits, with zeros moved as the point says, are the
decimal. -/
theorem magnitude_of_significant {d : Decimal} (hd : d.digits ≠ 0) {j : Nat} {f : Int}
    (h : f + j = d.point - d.significant.length) :
    Decimal.magnitude ⟨numeral d.significant * 10 ^ j, f⟩ = d.magnitude := by
  obtain ⟨k, hvalue, hcount, -, -⟩ := significant_spec hd
  have hexp : f + j = d.exponent + k := by
    rw [h, point, hcount]
    omega
  calc Decimal.magnitude ⟨numeral d.significant * 10 ^ j, f⟩
      = Decimal.magnitude ⟨numeral d.significant, f + j⟩ := magnitude_mul_pow _ _ _
    _ = Decimal.magnitude ⟨numeral d.significant, d.exponent + k⟩ := by rw [hexp]
    _ = Decimal.magnitude ⟨numeral d.significant * 10 ^ k, d.exponent⟩ :=
        (magnitude_mul_pow _ _ _).symm
    _ = d.magnitude := by rw [← hvalue]

/-- **The full layout reads back.** -/
theorem decimal?_positional {d : Decimal} (hd : d.digits ≠ 0) :
    ∃ d', decimal? d.positional = some d' ∧ d'.magnitude = d.magnitude := by
  obtain ⟨k, -, -, hdigits, hne⟩ := significant_spec hd
  have hnothing : exponent? [] = some 0 := rfl
  -- the three places where the point may stand, one after the other
  unfold Decimal.positional
  dsimp only
  split
  · -- zeros stand between the point and the digits
    rename_i hpoint
    have hfraction := allDigits_append.2
      ⟨allDigits_replicate_zero (-d.point).toNat, hdigits⟩
    have hzero : AllDigits [48] := allDigits_replicate_zero 1
    have hread := decimal?_point hzero (by decide) hfraction stops_nil hnothing
    rw [List.append_nil] at hread
    refine ⟨_, hread, ?_⟩
    have hnumeral : numeral ([48] ++ (List.replicate (-d.point).toNat 48 ++ d.significant))
        = numeral d.significant * 10 ^ 0 := by
      have hzeros : ([48] ++ List.replicate (-d.point).toNat 48 : Bytes)
          = List.replicate ((-d.point).toNat + 1) 48 := rfl
      rw [← List.append_assoc, hzeros, numeral_append, numeral_replicate_zero, Nat.zero_mul,
        Nat.zero_add, Nat.pow_zero, Nat.mul_one]
    rw [hnumeral]
    refine magnitude_of_significant hd ?_
    rw [List.length_append, List.length_replicate]
    omega
  · rename_i hpoint
    split
    · -- zeros stand between the digits and the point
      rename_i hlength
      have hwhole := allDigits_append.2
        ⟨hdigits, allDigits_replicate_zero (d.point.toNat - d.significant.length)⟩
      have hread := decimal?_whole hwhole (by simp [hne]) stops_nil (by simp) hnothing
      rw [List.append_nil] at hread
      refine ⟨_, hread, ?_⟩
      rw [numeral_append, numeral_replicate_zero, List.length_replicate, Nat.add_zero]
      refine magnitude_of_significant hd ?_
      omega
    · -- the point stands between the digits
      rename_i hlength
      rw [← List.take_append_drop d.point.toNat d.significant] at hdigits
      obtain ⟨hwhole, hfraction⟩ := allDigits_append.1 hdigits
      have hne' : d.significant.take d.point.toNat ≠ [] := by
        rw [Ne, List.take_eq_nil_iff]
        intro hor
        exact hor.elim (fun h => hpoint (by omega)) hne
      have hread := decimal?_point hwhole hne' hfraction stops_nil hnothing
      rw [List.append_nil] at hread
      refine ⟨_, hread, ?_⟩
      rw [List.take_append_drop, ← Nat.mul_one (numeral d.significant), ← Nat.pow_zero 10]
      refine magnitude_of_significant hd ?_
      rw [List.length_drop]
      omega

/-- **The short layout reads back**, unless the point is far away. -/
theorem decimal?_scientific {d : Decimal} (hd : d.digits ≠ 0)
    (hlow : -(exponentLimit : Int) < d.point - 1) (hhigh : d.point - 1 < exponentLimit) :
    ∃ d', decimal? d.scientific = some d' ∧ d'.magnitude = d.magnitude := by
  obtain ⟨k, -, -, hdigits, hne⟩ := significant_spec hd
  have hpower := exponent?_ofInt hlow hhigh
  have hstops : Stops (101 :: Bytes.ofInt (d.point - 1)) := stops_cons _ (by decide)
  have hsame := @magnitude_of_significant d hd 0
  rw [Nat.pow_zero, Nat.mul_one] at hsame
  unfold Decimal.scientific
  dsimp only
  split
  · rename_i hnil
    exact absurd hnil hne
  · rename_i x hone
    rw [hone] at hdigits hsame
    have hread := decimal?_whole hdigits (by simp) hstops (by simp) hpower
    refine ⟨_, hread, hsame ?_⟩
    rw [List.length_singleton]
    omega
  · rename_i x xs hmany hcons
    rw [hcons] at hdigits hsame
    obtain ⟨hwhole, hfraction⟩ := (@allDigits_append [x] xs).1 hdigits
    have hread := decimal?_point hwhole (by simp) hfraction hstops hpower
    refine ⟨_, hread, hsame ?_⟩
    rw [List.length_cons]
    omega

/-! ## §5. The texts of scores. -/

/-- A text that begins with a digit and has no capital letter. -/
structure IsNumberText (bs : Bytes) : Prop where
  head : ∃ b rest, bs = b :: rest ∧ 48 ≤ b.toNat ∧ b.toNat ≤ 57
  small : ∀ b ∈ bs, b.toNat ≤ 57 ∨ b = 101

theorem small_of_digits {ds : Bytes} (h : AllDigits ds) : ∀ b ∈ ds, b.toNat ≤ 57 ∨ b = 101 :=
  fun b hb => .inl (h b hb).2

/-- A text that is put together from a string of digits and a small rest. -/
theorem isNumberText_append {ds rest : Bytes} (hds : AllDigits ds) (hne : ds ≠ [])
    (hrest : ∀ b ∈ rest, b.toNat ≤ 57 ∨ b = 101) : IsNumberText (ds ++ rest) := by
  refine ⟨?_, ?_⟩
  · cases ds with
    | nil => exact absurd rfl hne
    | cons b ds => exact ⟨b, ds ++ rest, rfl, hds b List.mem_cons_self⟩
  · intro b hb
    rcases List.mem_append.1 hb with hb | hb
    · exact small_of_digits hds b hb
    · exact hrest b hb

theorem small_ofInt (i : Int) : ∀ b ∈ Bytes.ofInt i, b.toNat ≤ 57 ∨ b = 101 := by
  cases i with
  | ofNat n => exact small_of_digits (allDigits_ofNat n)
  | negSucc n =>
    exact List.forall_mem_cons.2 ⟨.inl (by decide), small_of_digits (allDigits_ofNat (n + 1))⟩

theorem isNumberText_positional {d : Decimal} (hd : d.digits ≠ 0) :
    IsNumberText d.positional := by
  obtain ⟨k, -, -, hdigits, hne⟩ := significant_spec hd
  have hpoint : (46 : UInt8).toNat ≤ 57 ∨ (46 : UInt8) = 101 := .inl (by decide)
  unfold Decimal.positional
  dsimp only
  split
  · refine isNumberText_append (allDigits_replicate_zero 1) (by decide)
      (List.forall_mem_cons.2 ⟨hpoint, small_of_digits ?_⟩)
    exact allDigits_append.2 ⟨allDigits_replicate_zero _, hdigits⟩
  · rename_i hpos
    split
    · exact isNumberText_append hdigits hne (small_of_digits (allDigits_replicate_zero _))
    · rw [← List.take_append_drop d.point.toNat d.significant] at hdigits
      obtain ⟨hwhole, hfraction⟩ := allDigits_append.1 hdigits
      refine isNumberText_append hwhole ?_
        (List.forall_mem_cons.2 ⟨hpoint, small_of_digits hfraction⟩)
      rw [Ne, List.take_eq_nil_iff]
      intro hor
      exact hor.elim (fun h => hpos (by omega)) hne

theorem isNumberText_scientific {d : Decimal} (hd : d.digits ≠ 0) :
    IsNumberText d.scientific := by
  obtain ⟨k, -, -, hdigits, hne⟩ := significant_spec hd
  have hpoint : (46 : UInt8).toNat ≤ 57 ∨ (46 : UInt8) = 101 := .inl (by decide)
  have hpower : ∀ b ∈ 101 :: Bytes.ofInt (d.point - 1), b.toNat ≤ 57 ∨ b = 101 :=
    List.forall_mem_cons.2 ⟨.inr rfl, small_ofInt _⟩
  unfold Decimal.scientific
  dsimp only
  split
  · rename_i hnil
    exact absurd hnil hne
  · rename_i x hone
    rw [hone] at hdigits
    exact isNumberText_append hdigits (by simp) hpower
  · rename_i x xs hmany hcons
    rw [hcons] at hdigits
    obtain ⟨hwhole, hfraction⟩ := (@allDigits_append [x] xs).1 hdigits
    refine isNumberText_append hwhole (by simp) (List.forall_mem_cons.2 ⟨hpoint, ?_⟩)
    intro b hb
    rcases List.mem_append.1 hb with hb | hb
    · exact small_of_digits hfraction b hb
    · exact hpower b hb

theorem lower_of_small {bs : Bytes} (h : ∀ b ∈ bs, b.toNat ≤ 57 ∨ b = 101) :
    Bytes.lower bs = bs := by
  have hsame : ∀ b ∈ bs, Bytes.lowerByte b = b := by
    intro b hb
    refine if_neg ?_
    rw [UInt8.le_iff_toNat_le, UInt8.le_iff_toNat_le]
    have hbound : (65 : UInt8).toNat = 65 ∧ (90 : UInt8).toNat = 90 := ⟨rfl, rfl⟩
    rcases h b hb with hsmall | rfl
    · omega
    · decide
  calc Bytes.lower bs = bs.map id := List.map_congr_left hsame
    _ = bs := List.map_id bs

/-- The score with the sign and the magnitude of a score is that score. -/
theorem ofMagnitude_magnitude (s : Score) : ofMagnitude s.isNegative s.magnitude = s := by
  have hbound := s.bits.toNat_lt
  have hbits : (ofMagnitude s.isNegative s.magnitude).bits.toNat = s.bits.toNat := by
    unfold ofMagnitude isNegative magnitude signWeight
    rw [UInt64.toNat_ofNat']
    by_cases hneg : 0x8000000000000000 ≤ s.bits.toNat
    · rw [if_pos (decide_eq_true hneg)]
      omega
    · rw [if_neg (by rw [decide_eq_true_iff]; exact hneg)]
      omega
  cases s
  exact congrArg Score.mk (UInt64.toNat_inj.1 hbits)

/-- The infinite scores are the greatest and the least. -/
theorem isInfinite_iff {s : Score} : s.isInfinite = true ↔ s = infinity ∨ s = negInfinity := by
  constructor
  · intro hinf
    have hmagnitude : s.magnitude = infinityMagnitude := beq_iff_eq.1 hinf
    have hself := ofMagnitude_magnitude s
    rw [hmagnitude] at hself
    cases hsign : s.isNegative with
    | false => exact .inl (by rw [← hself, hsign]; rfl)
    | true => exact .inr (by rw [← hself, hsign]; rfl)
  · rintro (rfl | rfl)
    · decide
    · decide

/-- A number text is read as the sign before it and the magnitude of its
decimal. -/
theorem parse?_of_number {negative : Bool} {body : Bytes} {d : Decimal}
    (htext : IsNumberText body) (hread : decimal? body = some d) :
    parse? (if negative then 45 :: body else body) = some (ofMagnitude negative d.magnitude) := by
  have hlower := lower_of_small htext.small
  have hmagnitude : magnitude? body = some d.magnitude := by
    obtain ⟨b, rest, rfl, hb⟩ := htext.head
    have hword : ∀ tail : Bytes, b :: rest ≠ 105 :: tail := by
      intro tail heq
      obtain ⟨rfl, -⟩ := List.cons.inj heq
      exact absurd hb.2 (by decide)
    unfold magnitude?
    rw [if_neg (fun hor => hor.elim (hword _) (hword _)), hread]
    rfl
  have hsign : splitSign (Bytes.lower (if negative then 45 :: body else body))
      = (negative, body) := by
    cases negative with
    | true =>
      rw [if_pos rfl, Bytes.lower, List.map_cons, ← Bytes.lower, hlower]
      rfl
    | false =>
      rw [if_neg (by decide), hlower]
      obtain ⟨b, rest, rfl, hb⟩ := htext.head
      exact splitSign_of_digit rest hb.1
  unfold parse?
  rw [hsign]
  dsimp only
  rw [hmagnitude]
  rfl

/-- **A text that spells every decimal spells every score.**  What is asked of
the layout is that nonzero decimals and zero are read back. -/
theorem parse?_textWith {layout : Decimal → Bytes} {s : Score} (hnum : s.isNaN = false)
    (hzero : IsNumberText (layout ⟨0, 0⟩) ∧ decimal? (layout ⟨0, 0⟩) = some ⟨0, 0⟩)
    (hlayout : 0 < s.magnitude → s.magnitude < infinityMagnitude →
      IsNumberText (layout (shortest s.magnitude)) ∧
        ∃ d, decimal? (layout (shortest s.magnitude)) = some d
          ∧ d.magnitude = (shortest s.magnitude).magnitude) :
    parse? (textWith layout s) = some s := by
  unfold textWith
  rw [hnum, if_neg (by decide)]
  dsimp only
  by_cases hinf : s.isInfinite = true
  · -- the two infinities are spelled by name
    rw [if_pos hinf]
    have hmag : s.magnitude = infinityMagnitude := beq_iff_eq.1 hinf
    have hs := ofMagnitude_magnitude s
    rw [hmag] at hs
    rw [← hs]
    cases s.isNegative <;> decide +kernel
  · rw [if_neg hinf]
    have hne : s.magnitude ≠ infinityMagnitude := fun h => hinf (beq_iff_eq.2 h)
    have hle : s.magnitude ≤ infinityMagnitude := by
      unfold isNaN at hnum
      exact Nat.le_of_not_lt (of_decide_eq_false hnum)
    by_cases hmag : s.magnitude = 0
    · -- both zeros: the sign is kept beside the magnitude
      rw [if_pos hmag, parse?_of_number hzero.1 hzero.2]
      have hzeroMagnitude : Decimal.magnitude ⟨0, 0⟩ = s.magnitude := by
        rw [hmag]
        unfold Decimal.magnitude
        rw [Nat.zero_mul, Nat.zero_mul]
        exact nearestMagnitude_zero (by decide)
      rw [hzeroMagnitude, ofMagnitude_magnitude]
    · rw [if_neg hmag]
      have hpos := Nat.pos_of_ne_zero hmag
      have hfin : s.magnitude < infinityMagnitude := Nat.lt_of_le_of_ne hle hne
      obtain ⟨htext, d, hread, hsame⟩ := hlayout hpos hfin
      rw [parse?_of_number htext hread, hsame, magnitude_shortest hpos hfin,
        ofMagnitude_magnitude]

/-- **A score is read from its text.** -/
theorem parse?_format {s : Score} (hnum : s.isNaN = false) : parse? s.format = some s := by
  refine parse?_textWith hnum ⟨⟨⟨48, [], rfl, by decide⟩, by decide +kernel⟩, by decide⟩ ?_
  intro hpos hfin
  have hd := shortest_digits_ne_zero hpos hfin
  unfold positional
  rw [if_neg hd]
  exact ⟨isNumberText_positional hd, decimal?_positional hd⟩

/-- **A score is read from its short text.** -/
theorem parse?_formatShort {s : Score} (hnum : s.isNaN = false) :
    parse? s.formatShort = some s := by
  refine parse?_textWith hnum
    ⟨⟨⟨48, [101, 48], by decide, by decide⟩, by decide +kernel⟩, by decide⟩ ?_
  intro hpos hfin
  have hd := shortest_digits_ne_zero hpos hfin
  have hrange := shortest_point_range hpos hfin
  have hlimit : (exponentLimit : Int) = 65536 := rfl
  exact ⟨isNumberText_scientific hd, decimal?_scientific hd (by omega) (by omega)⟩

/-- **No text is read as NaN.** -/
theorem isNaN_of_parse? {bs : Bytes} {s : Score} (h : parse? bs = some s) : s.isNaN = false := by
  unfold parse? at h
  dsimp only at h
  obtain ⟨m, hm, rfl⟩ := Option.map_eq_some_iff.1 h
  have hle : m ≤ infinityMagnitude := by
    unfold magnitude? at hm
    split at hm
    · exact Nat.le_of_eq (Option.some.inj hm).symm
    · obtain ⟨d, -, rfl⟩ := Option.map_eq_some_iff.1 hm
      exact nearestMagnitude_le _ _
  have hlt : m < signWeight := Nat.lt_of_le_of_lt hle (by decide)
  unfold isNaN
  rw [magnitude_ofMagnitude _ hlt]
  exact decide_eq_false (Nat.not_lt.2 hle)

/-! ## §6. How long the texts are. -/

theorem length_significant_le {m : Nat} (hm : 0 < m) (hfin : m < infinityMagnitude) :
    (shortest m).significant.length ≤ 18 := by
  obtain ⟨k, -, hcount, -, -⟩ := significant_spec (shortest_digits_ne_zero hm hfin)
  have := digitCount_shortest_le hm hfin
  omega

theorem length_ofInt_le {i : Int} (h : i.natAbs < 1000) : (Bytes.ofInt i).length ≤ 4 := by
  cases i with
  | ofNat n =>
    have hn : n < 10 ^ 3 := h
    have := (length_ofNat_le_iff (by decide)).2 hn
    exact Nat.le_succ_of_le this
  | negSucc n =>
    have hn : n + 1 < 10 ^ 3 := h
    exact Nat.succ_le_succ ((length_ofNat_le_iff (by decide)).2 hn)

/-- A text is a sign longer than the body that its layout prints. -/
theorem length_textWith_le {layout : Decimal → Bytes} {s : Score} {bound : Nat} (hthree : 3 ≤ bound)
    (hzero : (layout ⟨0, 0⟩).length ≤ bound)
    (hlayout : 0 < s.magnitude → s.magnitude < infinityMagnitude →
      (layout (shortest s.magnitude)).length ≤ bound) :
    (textWith layout s).length ≤ bound + 1 := by
  have hsign : ∀ body : Bytes, body.length ≤ bound →
      (if s.isNegative then 45 :: body else body).length ≤ bound + 1 := by
    intro body hbody
    split
    · exact Nat.succ_le_succ hbody
    · exact Nat.le_succ_of_le hbody
  unfold textWith
  split
  · exact Nat.le_succ_of_le hthree
  · rename_i hnum
    refine hsign _ ?_
    split
    · exact hthree
    · rename_i hinf
      split
      · exact hzero
      · rename_i hmag
        refine hlayout (Nat.pos_of_ne_zero hmag) ?_
        have hne : s.magnitude ≠ infinityMagnitude := fun h => hinf (beq_iff_eq.2 h)
        have hle : ¬ infinityMagnitude < s.magnitude := fun h => hnum (decide_eq_true h)
        omega

theorem length_scientific_le {d : Decimal} (hdigits : d.significant.length ≤ 18)
    (hpoint : (d.point - 1).natAbs < 1000) : d.scientific.length ≤ 25 := by
  have hpower := length_ofInt_le hpoint
  unfold Decimal.scientific
  dsimp only
  split
  · rw [List.length_cons, List.length_cons]
    omega
  · rw [List.length_cons, List.length_cons]
    omega
  · rename_i hcons
    rw [hcons, List.length_cons] at hdigits
    rw [List.length_cons, List.length_cons, List.length_append, List.length_cons]
    omega

theorem length_positional_le {d : Decimal} (hdigits : d.significant.length ≤ 18)
    (hlow : -345 ≤ d.point) (hhigh : d.point ≤ 327) : d.positional.length ≤ 399 := by
  unfold Decimal.positional
  dsimp only
  split
  · rw [List.length_cons, List.length_cons, List.length_append, List.length_replicate]
    omega
  · split
    · rw [List.length_append, List.length_replicate]
      omega
    · rw [List.length_append, List.length_take, List.length_cons, List.length_drop]
      omega

/-- **The short text fits in a length byte.** -/
theorem length_formatShort_le (s : Score) : s.formatShort.length ≤ 26 := by
  refine @length_textWith_le Decimal.scientific s 25 (by decide) (by decide) ?_
  intro hpos hfin
  have hrange := shortest_point_range hpos hfin
  exact length_scientific_le (length_significant_le hpos hfin) (by omega)

/-- The full text is at most a few hundred bytes long. -/
theorem length_format_le (s : Score) : s.format.length ≤ 400 := by
  refine @length_textWith_le positional s 399 (by decide) (by decide) ?_
  intro hpos hfin
  have hrange := shortest_point_range hpos hfin
  unfold positional
  rw [if_neg (shortest_digits_ne_zero hpos hfin)]
  exact length_positional_le (length_significant_le hpos hfin) hrange.1 hrange.2

end DurableStore.Score
