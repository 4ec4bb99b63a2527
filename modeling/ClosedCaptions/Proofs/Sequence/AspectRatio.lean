import ClosedCaptions.Sequence.AspectRatio
import Mathlib.Data.Nat.GCD.Basic

/-!
# Codes of aspect ratios

The terms of a ratio are divided by their greatest common divisor, which Euclid's recursion finds.
So 4:3, 16:9 and 2.21:1 are recognised in any terms, and the code depends on the value of the ratio
alone. A ratio with a term that is zero has no value and is coded as square samples.
-/

namespace ClosedCaptions

/-! ## The greatest common divisor -/

/-- Euclid's recursion ends, with the third number: the second number and the remainder take the
place of the two numbers until the second one is zero. -/
inductive EuclidEnds : Nat → Nat → Nat → Prop
  | last (a : Nat) : EuclidEnds a 0 a
  | round {a b g : Nat} (hb : b ≠ 0) (h : EuclidEnds b (a % b) g) : EuclidEnds a b g

/-- The remainder is less than the second number, so every start comes to an end. -/
theorem euclidEnds_euclid (a b : Nat) : EuclidEnds a b (euclid a b) := by
  fun_induction euclid a b with
  | case1 a => exact .last a
  | case2 a b hb ih => exact .round hb ih

theorem EuclidEnds.eq_euclid {a b g : Nat} (h : EuclidEnds a b g) : g = euclid a b := by
  induction h with
  | last a => rw [euclid, if_pos rfl]
  | round hb h ih => rw [euclid, if_neg hb, ih]

theorem euclidEnds_iff {a b g : Nat} : EuclidEnds a b g ↔ g = euclid a b := by
  constructor
  · exact EuclidEnds.eq_euclid
  · rintro rfl
    exact euclidEnds_euclid a b

/-- Each round keeps the greatest common divisor. -/
theorem euclid_eq_gcd (a b : Nat) : euclid a b = Nat.gcd a b := by
  fun_induction euclid a b with
  | case1 a => rw [Nat.gcd_zero_right]
  | case2 a b hb ih => rw [ih, Nat.gcd_comm, ← Nat.gcd_rec, Nat.gcd_comm]

/-! ## Lowest terms -/

/-- Two terms, neither of them zero, are to each other as `p` is to `q`. -/
def HasRatio (p q num den : Nat) : Prop :=
  num ≠ 0 ∧ den ≠ 0 ∧ q * num = p * den

instance (p q num den : Nat) : Decidable (HasRatio p q num den) :=
  inferInstanceAs (Decidable (_ ∧ _ ∧ _))

variable {p q num den : Nat}

/-- Terms in the ratio of two coprime numbers are these numbers, taken equally often. -/
theorem hasRatio_iff_exists_mul (hpq : Nat.Coprime p q) (hp : p ≠ 0) (hq : q ≠ 0) :
    HasRatio p q num den ↔ ∃ factor, factor ≠ 0 ∧ num = factor * p ∧ den = factor * q := by
  constructor
  · rintro ⟨hnum, -, heq⟩
    have hdvd : p ∣ num := hpq.dvd_of_dvd_mul_left ⟨den, heq⟩
    obtain ⟨factor, rfl⟩ := hdvd
    have hden : den = factor * q := by
      apply Nat.eq_of_mul_eq_mul_left (Nat.pos_of_ne_zero hp)
      rw [← heq, Nat.mul_comm factor q, Nat.mul_left_comm]
    exact ⟨factor, right_ne_zero_of_mul hnum, Nat.mul_comm p factor, hden⟩
  · rintro ⟨factor, hfactor, rfl, rfl⟩
    refine ⟨Nat.mul_ne_zero hfactor hp, Nat.mul_ne_zero hfactor hq, ?_⟩
    rw [Nat.mul_left_comm, Nat.mul_left_comm p, Nat.mul_comm p]

/-- Terms have one ratio. -/
theorem HasRatio.mul_eq {p' q' : Nat} (h : HasRatio p q num den) (h' : HasRatio p' q' num den) :
    p * q' = p' * q := by
  apply Nat.eq_of_mul_eq_mul_right (Nat.pos_of_ne_zero h.2.1)
  calc
    p * q' * den = q' * (p * den) := by rw [Nat.mul_comm p, Nat.mul_assoc]
    _ = q' * (q * num) := by rw [h.2.2]
    _ = q * (p' * den) := by rw [Nat.mul_left_comm, h'.2.2]
    _ = p' * q * den := by rw [Nat.mul_left_comm, Nat.mul_assoc]

/-- Terms in one ratio are in the same ratios. -/
theorem HasRatio.trans {p' q' : Nat} (h : HasRatio p q num den) (h' : HasRatio p' q' p q) :
    HasRatio p' q' num den := by
  refine ⟨h.1, h.2.1, ?_⟩
  apply Nat.eq_of_mul_eq_mul_left (Nat.pos_of_ne_zero h'.2.1)
  calc
    q * (q' * num) = q' * (p * den) := by rw [Nat.mul_left_comm, h.2.2]
    _ = p' * q * den := by rw [← Nat.mul_assoc, h'.2.2]
    _ = q * (p' * den) := by rw [Nat.mul_comm p', Nat.mul_assoc]

theorem HasRatio.symm (h : HasRatio p q num den) (hp : p ≠ 0) (hq : q ≠ 0) :
    HasRatio num den p q :=
  ⟨hp, hq, by rw [Nat.mul_comm den, Nat.mul_comm num, h.2.2]⟩

theorem hasRatio_mul {factor : Nat} (hfactor : factor ≠ 0) :
    HasRatio p q (factor * num) (factor * den) ↔ HasRatio p q num den := by
  simp only [HasRatio, Nat.mul_ne_zero_iff, Nat.mul_left_comm _ factor,
    Nat.mul_right_inj hfactor, ne_eq, hfactor, not_false_eq_true, true_and]

/-- Dividing by the greatest common divisor gives the terms of the ratio that are coprime. -/
theorem div_gcd_eq_iff (hpq : Nat.Coprime p q) (hp : p ≠ 0) (hq : q ≠ 0) :
    (num / max (Nat.gcd num den) 1 = p ∧ den / max (Nat.gcd num den) 1 = q) ↔
      HasRatio p q num den := by
  rw [hasRatio_iff_exists_mul hpq hp hq]
  constructor
  · rintro ⟨hnum, hden⟩
    have hne : Nat.gcd num den ≠ 0 := by
      intro hzero
      obtain rfl : num = 0 := Nat.eq_zero_of_gcd_eq_zero_left hzero
      rw [Nat.zero_div] at hnum
      exact hp hnum.symm
    rw [Nat.max_eq_left (Nat.one_le_iff_ne_zero.mpr hne)] at hnum hden
    refine ⟨Nat.gcd num den, hne, ?_, ?_⟩
    · rw [← hnum, Nat.mul_div_cancel' (Nat.gcd_dvd_left num den)]
    · rw [← hden, Nat.mul_div_cancel' (Nat.gcd_dvd_right num den)]
  · rintro ⟨factor, hfactor, rfl, rfl⟩
    have hpos : 0 < factor := Nat.pos_of_ne_zero hfactor
    rw [Nat.gcd_mul_left, hpq.gcd_eq_one, Nat.mul_one, Nat.max_eq_left hpos,
      Nat.mul_div_cancel_left p hpos, Nat.mul_div_cancel_left q hpos]
    exact ⟨rfl, rfl⟩

/-! ## Codes -/

/-- The code by the ratio of the terms. -/
theorem aspectRatioCode_eq (num den : Nat) :
    aspectRatioCode num den =
      if HasRatio 4 3 num den then 2
      else if HasRatio 16 9 num den then 3
      else if HasRatio 221 100 num den then 4
      else 1 := by
  have hfirst := @div_gcd_eq_iff 4 3 num den (by decide) (by decide) (by decide)
  have hsecond := @div_gcd_eq_iff 16 9 num den (by decide) (by decide) (by decide)
  have hthird := @div_gcd_eq_iff 221 100 num den (by decide) (by decide) (by decide)
  rw [aspectRatioCode, euclid_eq_gcd]
  simp only [← hfirst, ← hsecond, ← hthird]
  generalize num / max (Nat.gcd num den) 1 = n
  generalize den / max (Nat.gcd num den) 1 = d
  split
  · next h =>
    obtain ⟨rfl, rfl⟩ := Prod.mk.inj h
    rfl
  · next h =>
    obtain ⟨rfl, rfl⟩ := Prod.mk.inj h
    rfl
  · next h =>
    obtain ⟨rfl, rfl⟩ := Prod.mk.inj h
    rfl
  · next hnot hnot' hnot'' =>
    rw [if_neg fun h ↦ hnot (Prod.ext h.1 h.2), if_neg fun h ↦ hnot' (Prod.ext h.1 h.2),
      if_neg fun h ↦ hnot'' (Prod.ext h.1 h.2)]

/-- The code depends on the ratios of the terms alone. -/
theorem aspectRatioCode_congr {num' den' : Nat}
    (h : ∀ p q, HasRatio p q num den ↔ HasRatio p q num' den') :
    aspectRatioCode num den = aspectRatioCode num' den' := by
  simp only [aspectRatioCode_eq, h]

/-- Euclid's recursion comes to an end on all terms, with their greatest common divisor. The codes
2, 3 and 4 are those of terms that are to each other as 4 to 3, 16 to 9 and 221 to 100, and the code
1 is that of all others, with those where one is zero. So terms in one ratio have one code, and a
common factor does not change it. -/
theorem aspectRatioCode_of_hasRatio (num den : Nat) :
    (∀ g, EuclidEnds num den g ↔ g = euclid num den) ∧
      euclid num den = Nat.gcd num den ∧
      (aspectRatioCode num den = 2 ↔ HasRatio 4 3 num den) ∧
      (aspectRatioCode num den = 3 ↔ HasRatio 16 9 num den) ∧
      (aspectRatioCode num den = 4 ↔ HasRatio 221 100 num den) ∧
      (aspectRatioCode num den = 1 ↔ ¬ HasRatio 4 3 num den ∧ ¬ HasRatio 16 9 num den ∧
        ¬ HasRatio 221 100 num den) ∧
      (∀ p q, p ≠ 0 → q ≠ 0 → HasRatio p q num den →
        aspectRatioCode num den = aspectRatioCode p q) ∧
      ∀ factor, factor ≠ 0 →
        aspectRatioCode (factor * num) (factor * den) = aspectRatioCode num den := by
  have hsecond : HasRatio 16 9 num den → ¬ HasRatio 4 3 num den :=
    fun h h' ↦ absurd (h.mul_eq h') (by decide)
  have hthird : HasRatio 221 100 num den → ¬ HasRatio 4 3 num den ∧ ¬ HasRatio 16 9 num den :=
    fun h ↦ ⟨fun h' ↦ absurd (h.mul_eq h') (by decide), fun h' ↦ absurd (h.mul_eq h') (by decide)⟩
  have hcodes : (aspectRatioCode num den = 2 ↔ HasRatio 4 3 num den) ∧
      (aspectRatioCode num den = 3 ↔ HasRatio 16 9 num den) ∧
      (aspectRatioCode num den = 4 ↔ HasRatio 221 100 num den) ∧
      (aspectRatioCode num den = 1 ↔ ¬ HasRatio 4 3 num den ∧ ¬ HasRatio 16 9 num den ∧
        ¬ HasRatio 221 100 num den) := by
    rw [aspectRatioCode_eq]
    split_ifs <;> simp_all
  obtain ⟨hfour, hsixteen, hwide, hother⟩ := hcodes
  refine ⟨fun g ↦ euclidEnds_iff, euclid_eq_gcd num den, hfour, hsixteen, hwide, hother,
    fun p q hp hq h ↦ ?_, fun factor hfactor ↦ ?_⟩
  · exact aspectRatioCode_congr fun p' q' ↦ ⟨(h.symm hp hq).trans, h.trans⟩
  · exact aspectRatioCode_congr fun p q ↦ hasRatio_mul hfactor

/-- Terms with a common factor, and terms that are almost as 16 to 9. -/
theorem aspectRatioCode_of_wide_terms :
    HasRatio 16 9 1920 1080 ∧ 120 ≠ 0 ∧ aspectRatioCode 1920 1080 = 3 ∧
      aspectRatioCode 1920 1080 = aspectRatioCode 16 9 ∧
      aspectRatioCode (120 * 16) (120 * 9) = aspectRatioCode 16 9 ∧
      aspectRatioCode 1920 1088 = 1 ∧ aspectRatioCode 16 0 = 1 := by
  have hwide : HasRatio 16 9 1920 1080 := by decide
  obtain ⟨-, -, -, hcode, -, -, hratio, -⟩ := aspectRatioCode_of_hasRatio 1920 1080
  obtain ⟨-, -, -, -, -, -, -, hfactor⟩ := aspectRatioCode_of_hasRatio 16 9
  obtain ⟨-, -, -, -, -, halmost, -⟩ := aspectRatioCode_of_hasRatio 1920 1088
  obtain ⟨-, -, -, -, -, hzero, -⟩ := aspectRatioCode_of_hasRatio 16 0
  exact ⟨hwide, by decide, hcode.mpr hwide, hratio 16 9 (by decide) (by decide) hwide,
    hfactor 120 (by decide), halmost.mpr (by decide), hzero.mpr (by decide)⟩

end ClosedCaptions
