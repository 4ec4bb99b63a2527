import ClosedCaptions.Sequence.FrameRate
import Mathlib.Algebra.Order.Field.Basic
import Mathlib.Data.Rat.Cast.Order
import Mathlib.Tactic.Linarith

/-!
# The closest coded rate

The error of a coded rate is the ratio of the larger of the two rates to the smaller, as a rational
number. The search compares errors by products of whole numbers. After any number of coded rates it
holds one of least error among them, a table rate if there is one of that error, and at its end the
closest coded rate of all. Only where every coded rate is too far off does it fall back to
30000/1001.
-/

namespace ClosedCaptions

/-! ## Table rates -/

/-- A table rate as a rational number. -/
def tableValue (code : Nat) : ℚ :=
  let (num, den) := (tableRate? code).getD (0, 1)
  num / den

theorem mem_tableRates {code : Nat} (hpos : 1 ≤ code) (hle : code ≤ 8) :
    (tableRate? code).getD (0, 1) ∈ tableRates := by
  have hlt : code - 1 < tableRates.length := by
    change code - 1 < 8
    omega
  rw [tableRate?, if_neg (Nat.ne_of_gt hpos), List.getElem?_eq_getElem hlt, Option.getD_some]
  exact List.getElem_mem hlt

/-- How large the terms of a table rate are. -/
theorem bounds_of_mem_tableRates : ∀ p ∈ tableRates,
    (1 ≤ p.1 ∧ p.1 ≤ 60000) ∧ (1 ≤ p.2 ∧ p.2 ≤ 1001) ∧
      24000 * p.2 ≤ 1001 * p.1 ∧ p.1 ≤ 60 * p.2 := by
  decide

/-- No two codes have the same rate. -/
theorem eq_of_tableRate_eq : ∀ i < 8, ∀ j < 8,
    ((tableRate? (i + 1)).getD (0, 1)).1 * ((tableRate? (j + 1)).getD (0, 1)).2 =
      ((tableRate? (j + 1)).getD (0, 1)).1 * ((tableRate? (i + 1)).getD (0, 1)).2 → i = j := by
  decide

theorem tableValue_bounds {code : Nat} (hpos : 1 ≤ code) (hle : code ≤ 8) :
    24000 / 1001 ≤ tableValue code ∧ tableValue code ≤ 60 := by
  obtain ⟨-, ⟨hden, -⟩, hlow, hhigh⟩ := bounds_of_mem_tableRates _ (mem_tableRates hpos hle)
  unfold tableValue
  generalize (tableRate? code).getD (0, 1) = p at hden hlow hhigh
  have hden' : (0 : ℚ) < p.2 := Nat.cast_pos.mpr hden
  have hlow' : (24000 * p.2 : ℚ) ≤ 1001 * p.1 := by exact_mod_cast hlow
  have hhigh' : (p.1 : ℚ) ≤ 60 * p.2 := by exact_mod_cast hhigh
  constructor
  · rw [div_le_div_iff₀ (by norm_num) hden']
    linarith
  · rw [div_le_iff₀ hden']
    exact hhigh'

theorem tableValue_injective {code code' : Nat} (hpos : 1 ≤ code) (hle : code ≤ 8)
    (hpos' : 1 ≤ code') (hle' : code' ≤ 8) (h : tableValue code = tableValue code') :
    code = code' := by
  obtain ⟨-, ⟨hden, -⟩, -⟩ := bounds_of_mem_tableRates _ (mem_tableRates hpos hle)
  obtain ⟨-, ⟨hden', -⟩, -⟩ := bounds_of_mem_tableRates _ (mem_tableRates hpos' hle')
  obtain ⟨i, rfl⟩ := Nat.exists_eq_add_of_le' hpos
  obtain ⟨j, rfl⟩ := Nat.exists_eq_add_of_le' hpos'
  have hcross := (div_eq_div_iff (Nat.cast_ne_zero.mpr (Nat.ne_of_gt hden))
    (Nat.cast_ne_zero.mpr (Nat.ne_of_gt hden'))).mp h
  rw [eq_of_tableRate_eq i (by omega) j (by omega) (by exact_mod_cast hcross)]

namespace CodedRate

/-! ## Coded rates -/

/-- The fields of a coded rate take their ranges. -/
structure InRange (c : CodedRate) : Prop where
  one_le_code : 1 ≤ c.code
  code_le : c.code ≤ 8
  n_le : c.n ≤ 3
  d_le : c.d ≤ 31

/-- A table rate alone, without use of the extension. -/
def IsPlain (c : CodedRate) : Prop :=
  c.n = 0 ∧ c.d = 0

theorem mem_all {c : CodedRate} : c ∈ all ↔ c.InRange := by
  obtain ⟨code, n, d⟩ := c
  simp only [all, List.mem_flatMap, List.mem_map, List.mem_range, mk.injEq]
  constructor
  · rintro ⟨i, hi, n, hn, d, hd, rfl, rfl, rfl⟩
    constructor <;> dsimp only <;> omega
  · rintro ⟨hpos, hcode, hn, hd⟩
    dsimp only at hpos hcode hn hd
    exact ⟨code - 1, by omega, n, by omega, d, by omega, by omega, rfl, rfl⟩

theorem mem_plain {c : CodedRate} : c ∈ plain ↔ c.InRange ∧ c.IsPlain := by
  obtain ⟨code, n, d⟩ := c
  simp only [plain, List.mem_map, List.mem_range, mk.injEq, IsPlain]
  constructor
  · rintro ⟨i, hi, rfl, rfl, rfl⟩
    refine ⟨?_, rfl, rfl⟩
    constructor <;> dsimp only <;> omega
  · rintro ⟨⟨hpos, hcode, -, -⟩, rfl, rfl⟩
    dsimp only at hpos hcode
    exact ⟨code - 1, by omega, by omega, rfl, rfl⟩

/-- The coded rate as a rational number. -/
def value (c : CodedRate) : ℚ :=
  tableValue c.code * ((c.n + 1) / (c.d + 1))

/-- The ratio of the larger of two rates to the smaller. -/
def misfit (r : ℚ) (c : CodedRate) : ℚ :=
  max c.value r / min c.value r

theorem value_eq (c : CodedRate) : c.value = c.rate.1 / c.rate.2 := by
  unfold value tableValue rate
  generalize (tableRate? c.code).getD (0, 1) = p
  push_cast
  exact div_mul_div_comm _ _ _ _

variable {c : CodedRate} {num den : Nat}

theorem InRange.rate_bounds (h : c.InRange) :
    (0 < c.rate.1 ∧ c.rate.1 ≤ 240000) ∧ 0 < c.rate.2 ∧ c.rate.2 ≤ 32032 := by
  obtain ⟨⟨hnum, hnum'⟩, ⟨hden, hden'⟩, -⟩ :=
    bounds_of_mem_tableRates _ (mem_tableRates h.one_le_code h.code_le)
  unfold rate
  generalize (tableRate? c.code).getD (0, 1) = p at hnum hnum' hden hden'
  refine ⟨⟨Nat.mul_pos hnum (Nat.succ_pos _), ?_⟩, Nat.mul_pos hden (Nat.succ_pos _), ?_⟩
  · exact Nat.mul_le_mul hnum' (Nat.succ_le_succ h.n_le)
  · exact Nat.mul_le_mul hden' (Nat.succ_le_succ h.d_le)

theorem InRange.isExact_iff (h : c.InRange) (hden : 0 < den) :
    c.isExact num den = true ↔ c.value = num / den := by
  obtain ⟨-, hpos, -⟩ := h.rate_bounds
  rw [isExact, beq_iff_eq, value_eq,
    div_eq_div_iff (Nat.cast_ne_zero.mpr hpos.ne') (Nat.cast_ne_zero.mpr hden.ne')]
  exact_mod_cast Iff.rfl

theorem InRange.error_pos (h : c.InRange) (hnum : 0 < num) (hden : 0 < den) :
    0 < (c.error num den).2 := by
  obtain ⟨⟨hpos, -⟩, hpos', -⟩ := h.rate_bounds
  exact Nat.lt_min.mpr ⟨Nat.mul_pos hpos hden, Nat.mul_pos hnum hpos'⟩

/-- The terms of an error are the two rates over one denominator. -/
theorem InRange.misfit_eq (h : c.InRange) (hden : 0 < den) :
    c.misfit (num / den) = (c.error num den).1 / (c.error num den).2 := by
  obtain ⟨-, hpos, -⟩ := h.rate_bounds
  have hrate : (0 : ℚ) < c.rate.2 := Nat.cast_pos.mpr hpos
  have hden' : (0 : ℚ) < den := Nat.cast_pos.mpr hden
  have hcoded : c.value = (c.rate.1 * den : ℚ) / (c.rate.2 * den) := by
    rw [value_eq, mul_div_mul_right _ _ hden'.ne']
  have hwanted : (num / den : ℚ) = (num * c.rate.2 : ℚ) / (c.rate.2 * den) := by
    rw [mul_comm (c.rate.2 : ℚ) (den : ℚ), mul_div_mul_right _ _ hrate.ne']
  have hcommon : (0 : ℚ) < c.rate.2 * den := mul_pos hrate hden'
  rw [misfit, hcoded, hwanted, max_div_div_right hcommon.le, min_div_div_right hcommon.le,
    div_div_div_cancel_right₀ hcommon.ne']
  unfold error
  push_cast
  rfl

theorem InRange.value_pos (h : c.InRange) : 0 < c.value := by
  obtain ⟨⟨hpos, -⟩, hpos', -⟩ := h.rate_bounds
  rw [value_eq]
  exact div_pos (Nat.cast_pos.mpr hpos) (Nat.cast_pos.mpr hpos')

theorem IsPlain.value_eq (h : c.IsPlain) : c.value = tableValue c.code := by
  rw [value, h.1, h.2]
  simp

theorem InRange.one_le_misfit (h : c.InRange) {r : ℚ} (hr : 0 < r) : 1 ≤ c.misfit r := by
  have hpos : 0 < min c.value r := lt_min h.value_pos hr
  rw [misfit, one_le_div hpos]
  exact min_le_max

/-- Only an exact rate has no error. -/
theorem InRange.misfit_eq_one_iff (h : c.InRange) {r : ℚ} (hr : 0 < r) :
    c.misfit r = 1 ↔ c.value = r := by
  have hpos : 0 < min c.value r := lt_min h.value_pos hr
  rw [misfit, div_eq_one_iff_eq hpos.ne', eq_comm]
  exact inf_eq_sup

/-! ## One step of the search -/

/-- The error of the best coded rate so far. -/
def score (best : CodedRate × (Nat × Nat)) : ℚ :=
  best.2.1 / best.2.2

/-- The coded rate has the smaller error, or it is a table rate of the same error. -/
def Beats (r : ℚ) (c : CodedRate) (best : CodedRate × (Nat × Nat)) : Prop :=
  c.misfit r < score best ∨ c.misfit r = score best ∧ c.IsPlain

variable {best : CodedRate × (Nat × Nat)} {done cs : List CodedRate}

theorem InRange.beats_iff (h : c.InRange) (hnum : 0 < num) (hden : 0 < den)
    (hbest : 0 < best.2.2) :
    c.Beats (num / den) best ↔
      (c.error num den).1 * best.2.2 < best.2.1 * (c.error num den).2 ∨
        ((c.error num den).1 * best.2.2 = best.2.1 * (c.error num den).2 ∧ c.n = 0 ∧ c.d = 0) := by
  have herror : (0 : ℚ) < (c.error num den).2 := Nat.cast_pos.mpr (h.error_pos hnum hden)
  have hbest' : (0 : ℚ) < best.2.2 := Nat.cast_pos.mpr hbest
  rw [Beats, score, h.misfit_eq hden, div_lt_div_iff₀ herror hbest',
    div_eq_div_iff herror.ne' hbest'.ne', IsPlain]
  exact_mod_cast Iff.rfl

theorem InRange.closer_of_beats (h : c.InRange) (hnum : 0 < num) (hden : 0 < den)
    (hbest : 0 < best.2.2) (hbeats : c.Beats (num / den) best) :
    closer num den best c = (c, c.error num den) :=
  if_pos ((h.beats_iff hnum hden hbest).mp hbeats)

theorem InRange.closer_of_not_beats (h : c.InRange) (hnum : 0 < num) (hden : 0 < den)
    (hbest : 0 < best.2.2) (hbeats : ¬ c.Beats (num / den) best) :
    closer num den best c = best :=
  if_neg fun htaken ↦ hbeats ((h.beats_iff hnum hden hbest).mpr htaken)

/-! ## The whole search -/

/-- What the search starts from: 30000/1001, as if it were off by a factor of 2^31 - 1. -/
def fallback : CodedRate × (Nat × Nat) :=
  (⟨4, 0, 0⟩, (0x7FFFFFFF, 1))

theorem score_fallback : score fallback = 2 ^ 31 - 1 := by
  norm_num [score, fallback]

/-- The search has gone through some coded rates and holds one of least error, unless none was good
enough to replace the one that it starts from. -/
structure Leads (num den : Nat) (done : List CodedRate) (best : CodedRate × (Nat × Nat)) :
    Prop where
  error_pos : 0 < best.2.2
  eq_or_mem : best = fallback ∨ best.1 ∈ done ∧ best.2 = best.1.error num den
  score_le : ∀ c ∈ done, score best ≤ c.misfit (num / den)
  isPlain : ∀ c ∈ done, c.IsPlain → c.misfit (num / den) = score best → best.1.IsPlain

theorem leads_fallback (num den : Nat) : Leads num den [] fallback where
  error_pos := Nat.one_pos
  eq_or_mem := .inl rfl
  score_le _ hc := absurd hc List.not_mem_nil
  isPlain _ hc := absurd hc List.not_mem_nil

theorem Leads.closer (h : Leads num den done best) (hnum : 0 < num) (hden : 0 < den)
    (hc : c.InRange) : Leads num den (done ++ [c]) (closer num den best c) := by
  by_cases hbeats : c.Beats (num / den) best
  · rw [hc.closer_of_beats hnum hden h.error_pos hbeats]
    have hscore : score (c, c.error num den) = c.misfit (num / den) := (hc.misfit_eq hden).symm
    have hle : c.misfit (num / den) ≤ score best := by
      rcases hbeats with hlt | ⟨heq, -⟩
      · exact hlt.le
      · exact heq.le
    constructor
    · exact hc.error_pos hnum hden
    · exact .inr ⟨List.mem_append_right _ (List.mem_singleton_self c), rfl⟩
    · intro a ha
      rw [hscore]
      rcases List.mem_append.mp ha with ha | ha
      · exact hle.trans (h.score_le a ha)
      · rw [List.mem_singleton.mp ha]
    · intro a ha hplain hsame
      rw [hscore] at hsame
      rcases List.mem_append.mp ha with ha | ha
      · rcases hbeats with hlt | ⟨-, hc'⟩
        · exact absurd (h.score_le a ha) (not_le.mpr (hsame.trans_lt hlt))
        · exact hc'
      · rwa [List.mem_singleton.mp ha] at hplain
  · rw [hc.closer_of_not_beats hnum hden h.error_pos hbeats]
    rw [Beats, not_or, not_lt] at hbeats
    constructor
    · exact h.error_pos
    · exact h.eq_or_mem.imp_right fun hbest ↦ ⟨List.mem_append_left _ hbest.1, hbest.2⟩
    · intro a ha
      rcases List.mem_append.mp ha with ha | ha
      · exact h.score_le a ha
      · rw [List.mem_singleton.mp ha]
        exact hbeats.1
    · intro a ha hplain hsame
      rcases List.mem_append.mp ha with ha | ha
      · exact h.isPlain a ha hplain hsame
      · rw [List.mem_singleton.mp ha] at hplain hsame
        exact absurd ⟨hsame, hplain⟩ hbeats.2

theorem Leads.foldl (h : Leads num den done best) (hnum : 0 < num) (hden : 0 < den)
    (hcs : ∀ c ∈ cs, c.InRange) :
    Leads num den (done ++ cs) (cs.foldl (CodedRate.closer num den) best) := by
  induction cs generalizing done best with
  | nil => rwa [List.append_nil]
  | cons c cs ih =>
    rw [List.forall_mem_cons] at hcs
    rw [List.foldl_cons, ← List.singleton_append, ← List.append_assoc]
    exact ih (h.closer hnum hden hcs.1) hcs.2

/-- A part of the search, from the start. -/
theorem leads_foldl (hnum : 0 < num) (hden : 0 < den) (hcs : ∀ c ∈ cs, c.InRange) :
    Leads num den cs (cs.foldl (closer num den) fallback) := by
  have hleads := (leads_fallback num den).foldl hnum hden hcs
  rwa [List.nil_append] at hleads

/-- Coded rates that do not beat the start leave it. -/
theorem foldl_closer_eq_fallback (hnum : 0 < num) (hden : 0 < den)
    (hcs : ∀ c ∈ cs, c.InRange ∧ ¬ c.Beats (num / den) fallback) :
    cs.foldl (closer num den) fallback = fallback := by
  induction cs with
  | nil => rfl
  | cons c cs ih =>
    rw [List.forall_mem_cons] at hcs
    rw [List.foldl_cons, hcs.1.1.closer_of_not_beats hnum hden Nat.one_pos hcs.1.2]
    exact ih hcs.2

/-! ## The closest coded rate -/

/-- What the search over all coded rates ends with. -/
def searched (num den : Nat) : CodedRate × (Nat × Nat) :=
  all.foldl (closer num den) fallback

theorem leads_searched (hnum : 0 < num) (hden : 0 < den) :
    Leads num den all (searched num den) :=
  leads_foldl hnum hden fun _ hc ↦ mem_all.mp hc

/-- A table rate that is exact, then any exact coded rate, then what the search ends with. -/
theorem nearest_cases (num den : Nat) :
    (nearest num den ∈ plain ∧ (nearest num den).isExact num den = true) ∨
      (∀ c ∈ plain, c.isExact num den = false) ∧
        ((nearest num den ∈ all ∧ (nearest num den).isExact num den = true) ∨
          (∀ c ∈ all, c.isExact num den = false) ∧ nearest num den = (searched num den).1) := by
  have hnearest : nearest num den = (plain.find? (isExact num den)).getD
      ((all.find? (isExact num den)).getD (searched num den).1) := nearest_eq num den
  rw [hnearest]
  cases hplain : plain.find? (isExact num den) with
  | some c => exact .inl ⟨List.mem_of_find?_eq_some hplain, List.find?_some hplain⟩
  | none =>
    refine .inr ⟨by simpa using hplain, ?_⟩
    rw [Option.getD_none]
    cases hall : all.find? (isExact num den) with
    | some c => exact .inl ⟨List.mem_of_find?_eq_some hall, List.find?_some hall⟩
    | none => exact .inr ⟨by simpa using hall, Option.getD_none⟩

theorem inRange_fallback : fallback.1.InRange := by
  constructor <;> decide

theorem inRange_nearest (hnum : 0 < num) (hden : 0 < den) : (nearest num den).InRange := by
  rcases nearest_cases num den with ⟨hmem, -⟩ | ⟨-, ⟨hmem, -⟩ | ⟨-, hsearch⟩⟩
  · exact (mem_plain.mp hmem).1
  · exact mem_all.mp hmem
  · rw [hsearch]
    rcases (leads_searched hnum hden).eq_or_mem with hstart | ⟨hmem, -⟩
    · rw [hstart]
      exact inRange_fallback
    · exact mem_all.mp hmem

theorem value_nearest (hnum : 0 < num) (hden : 0 < den) (hc : c.InRange)
    (hvalue : c.value = num / den) : (nearest num den).value = num / den := by
  have hexact : c.isExact num den = true := (hc.isExact_iff hden).mpr hvalue
  have hnearest : (nearest num den).isExact num den = true ↔ (nearest num den).value = num / den :=
    (inRange_nearest hnum hden).isExact_iff hden
  rcases nearest_cases num den with ⟨-, h⟩ | ⟨-, ⟨-, h⟩ | ⟨hnone, -⟩⟩
  · exact hnearest.mp h
  · exact hnearest.mp h
  · rw [hnone c (mem_all.mpr hc)] at hexact
    contradiction

/-- A table rate is found under its own code. -/
theorem nearest_of_tableValue (hden : 0 < den) {code : Nat} (hpos : 1 ≤ code) (hle : code ≤ 8)
    (hvalue : tableValue code = num / den) :
    nearest num den = ⟨code, 0, 0⟩ := by
  have hrange : InRange ⟨code, 0, 0⟩ := ⟨hpos, hle, Nat.zero_le 3, Nat.zero_le 31⟩
  have hplain : IsPlain ⟨code, 0, 0⟩ := ⟨rfl, rfl⟩
  have hexact : isExact num den ⟨code, 0, 0⟩ = true :=
    (hrange.isExact_iff hden).mpr (hplain.value_eq.trans hvalue)
  rcases nearest_cases num den with ⟨hmem, h⟩ | ⟨hnone, -⟩
  · obtain ⟨hrange', hplain'⟩ := mem_plain.mp hmem
    have hsame : tableValue (nearest num den).code = tableValue code := by
      rw [← hplain'.value_eq, (hrange'.isExact_iff hden).mp h, hvalue]
    have hcode := tableValue_injective hrange'.one_le_code hrange'.code_le hpos hle hsame
    obtain ⟨hn, hd⟩ := hplain'
    generalize nearest num den = found at hcode hn hd
    obtain ⟨code', n, d⟩ := found
    rw [mk.injEq]
    exact ⟨hcode, hn, hd⟩
  · rw [hnone _ (mem_plain.mpr ⟨hrange, hplain⟩)] at hexact
    contradiction

/-! ## Rates out of reach -/

/-- The lowest coded rate, 24000/1001 through 32. -/
def lowest : CodedRate :=
  ⟨1, 0, 31⟩

theorem value_lowest : lowest.value = 750 / 1001 := by
  rw [value_eq]
  norm_num [lowest, rate, tableRate?, tableRates]

/-- No table rate is off by exactly the factor that the search starts from, unless another coded
rate is closer: the terms of a rate have 32 bits. -/
theorem misfit_ne_limit (hnum : 0 < num) (hden : 0 < den) (hnum' : num < 2 ^ 32)
    (hfar : (2 ^ 31 - 1 : ℚ) ≤ lowest.misfit (num / den)) (hc : c.InRange) (hplain : c.IsPlain) :
    c.misfit (num / den) ≠ 2 ^ 31 - 1 := by
  intro hlimit
  obtain ⟨hlow, hhigh⟩ := tableValue_bounds hc.one_le_code hc.code_le
  rw [← hplain.value_eq] at hlow hhigh
  have hden' : (1 : ℚ) ≤ den := by exact_mod_cast hden
  have hr : (0 : ℚ) < num / den := div_pos (Nat.cast_pos.mpr hnum) (Nat.cast_pos.mpr hden)
  have hterm : (num / den : ℚ) < 2 ^ 32 := by
    have hnum'' : (num : ℚ) < 2 ^ 32 := by exact_mod_cast hnum'
    exact (div_le_self (Nat.cast_nonneg num) hden').trans_lt hnum''
  generalize (num / den : ℚ) = r at hfar hlimit hr hterm
  rcases le_total c.value r with hle | hle
  · -- The rate is too high for terms of 32 bits.
    rw [misfit, max_eq_right hle, min_eq_left hle, div_eq_iff hc.value_pos.ne'] at hlimit
    linarith
  · -- The rate is so low that the lowest coded rate is closer.
    rw [misfit, max_eq_left hle, min_eq_right hle, div_eq_iff hr.ne'] at hlimit
    have habove : r ≤ lowest.value := by
      rw [value_lowest]
      linarith
    rw [misfit, max_eq_left habove, min_eq_right habove, le_div_iff₀ hr, value_lowest] at hfar
    linarith

theorem nearest_of_far (hnum : 0 < num) (hden : 0 < den) (hnum' : num < 2 ^ 32)
    (hfar : ∀ a : CodedRate, a.InRange → (2 ^ 31 - 1 : ℚ) ≤ a.misfit (num / den)) :
    nearest num den = ⟨4, 0, 0⟩ := by
  have hr : (0 : ℚ) < num / den := div_pos (Nat.cast_pos.mpr hnum) (Nat.cast_pos.mpr hden)
  have hinexact (a : CodedRate) (ha : a.InRange) : a.isExact num den = false := by
    rw [Bool.eq_false_iff, ne_eq, ha.isExact_iff hden, ← ha.misfit_eq_one_iff hr]
    intro hone
    have hlimit := hfar a ha
    rw [hone] at hlimit
    norm_num at hlimit
  have hlowest : lowest.InRange := by constructor <;> decide
  have hstart : searched num den = fallback := by
    apply foldl_closer_eq_fallback hnum hden
    intro a ha
    have hrange := mem_all.mp ha
    refine ⟨hrange, ?_⟩
    rw [Beats, score_fallback, not_or, not_lt]
    exact ⟨hfar a hrange, fun htie ↦
      misfit_ne_limit hnum hden hnum' (hfar lowest hlowest) hrange htie.2 htie.1⟩
  rcases nearest_cases num den with ⟨hmem, h⟩ | ⟨-, ⟨hmem, h⟩ | ⟨-, hsearch⟩⟩
  · exact absurd ((hinexact _ (mem_plain.mp hmem).1).symm.trans h) Bool.false_ne_true
  · exact absurd ((hinexact _ (mem_all.mp hmem)).symm.trans h) Bool.false_ne_true
  · rw [hsearch, hstart]
    rfl

/-- Where a coded rate is near enough, none is closer than the one that is found, and that one is a
table rate if there is one as close. -/
theorem nearest_of_near (hnum : 0 < num) (hden : 0 < den) (hc : c.InRange)
    (hnear : c.misfit (num / den) < 2 ^ 31 - 1) :
    (∀ a : CodedRate, a.InRange →
      (nearest num den).misfit (num / den) ≤ a.misfit (num / den)) ∧
    ∀ a : CodedRate, a.InRange → a.IsPlain →
      a.misfit (num / den) = (nearest num den).misfit (num / den) → (nearest num den).IsPlain := by
  have hr : (0 : ℚ) < num / den := div_pos (Nat.cast_pos.mpr hnum) (Nat.cast_pos.mpr hden)
  have hrange := inRange_nearest hnum hden
  by_cases hexact : (nearest num den).value = num / den
  · have hone := (hrange.misfit_eq_one_iff hr).mpr hexact
    rw [hone]
    refine ⟨fun a ha ↦ ha.one_le_misfit hr, ?_⟩
    intro a ha hplain hsame
    have hvalue := (ha.misfit_eq_one_iff hr).mp hsame
    rw [hplain.value_eq] at hvalue
    rw [nearest_of_tableValue hden ha.one_le_code ha.code_le hvalue]
    exact ⟨rfl, rfl⟩
  · have hsearch : nearest num den = (searched num den).1 := by
      rcases nearest_cases num den with ⟨-, h⟩ | ⟨-, ⟨-, h⟩ | ⟨-, hsearch⟩⟩
      · exact absurd ((hrange.isExact_iff hden).mp h) hexact
      · exact absurd ((hrange.isExact_iff hden).mp h) hexact
      · exact hsearch
    have hleads := leads_searched hnum hden
    rw [hsearch] at hrange ⊢
    generalize searched num den = best at hleads hrange ⊢
    have hscore : score best = best.1.misfit (num / den) := by
      rcases hleads.eq_or_mem with hstart | ⟨-, herror⟩
      · have hle := hleads.score_le c (mem_all.mpr hc)
        rw [hstart, score_fallback] at hle
        exact absurd hle (not_le.mpr hnear)
      · rw [hrange.misfit_eq hden, score, herror]
    rw [← hscore]
    exact ⟨fun a ha ↦ hleads.score_le a (mem_all.mpr ha),
      fun a ha ↦ hleads.isPlain a (mem_all.mpr ha)⟩

/-! ## Widths of the products -/

/-- Every product of the search fits where it is computed: those of the table rates in 64 bits,
those of the coded rates and of the errors that are compared in 128 bits. -/
structure ProductsFit (num den : Nat) : Prop where
  table : ∀ c ∈ plain, c.rate.1 * den < 2 ^ 64 ∧ num * c.rate.2 < 2 ^ 64
  terms : ∀ c ∈ all, c.rate.1 < 2 ^ 64 ∧ c.rate.2 < 2 ^ 64
  rates : ∀ c ∈ all, c.rate.1 * den < 2 ^ 128 ∧ num * c.rate.2 < 2 ^ 128
  errors : ∀ front c back, all = front ++ c :: back →
    let best := front.foldl (closer num den) fallback
    (c.error num den).1 * best.2.2 < 2 ^ 128 ∧ best.2.1 * (c.error num den).2 < 2 ^ 128

theorem InRange.products_lt (h : c.InRange) (hnum : num < 2 ^ 32) (hden : den < 2 ^ 32) :
    c.rate.1 * den < 2 ^ 50 ∧ num * c.rate.2 < 2 ^ 50 := by
  obtain ⟨⟨-, hle⟩, -, hle'⟩ := h.rate_bounds
  constructor
  · calc
      c.rate.1 * den ≤ 240000 * 2 ^ 32 := Nat.mul_le_mul hle hden.le
      _ < 2 ^ 50 := by norm_num
  · calc
      num * c.rate.2 ≤ 2 ^ 32 * 32032 := Nat.mul_le_mul hnum.le hle'
      _ < 2 ^ 50 := by norm_num

theorem InRange.error_lt (h : c.InRange) (hnum : num < 2 ^ 32) (hden : den < 2 ^ 32) :
    (c.error num den).1 < 2 ^ 50 ∧ (c.error num den).2 < 2 ^ 50 := by
  obtain ⟨hcoded, hwanted⟩ := h.products_lt hnum hden
  exact ⟨Nat.max_lt.mpr ⟨hcoded, hwanted⟩, (Nat.min_le_left _ _).trans_lt hcoded⟩

theorem Leads.error_lt (h : Leads num den done best) (hdone : ∀ c ∈ done, c.InRange)
    (hnum : num < 2 ^ 32) (hden : den < 2 ^ 32) : best.2.1 < 2 ^ 50 ∧ best.2.2 < 2 ^ 50 := by
  rcases h.eq_or_mem with hstart | ⟨hmem, herror⟩
  · rw [hstart]
    decide
  · rw [herror]
    exact (hdone _ hmem).error_lt hnum hden

theorem productsFit (hnum : 0 < num) (hden : 0 < den) (hnum' : num < 2 ^ 32)
    (hden' : den < 2 ^ 32) : ProductsFit num den := by
  have hwiden {m : Nat} (hm : m < 2 ^ 50) {width : Nat} (hwidth : 50 ≤ width) : m < 2 ^ width :=
    hm.trans_le (Nat.pow_le_pow_right Nat.two_pos hwidth)
  constructor
  · intro c hc
    obtain ⟨hcoded, hwanted⟩ := (mem_plain.mp hc).1.products_lt hnum' hden'
    exact ⟨hwiden hcoded (by decide), hwiden hwanted (by decide)⟩
  · intro c hc
    obtain ⟨⟨-, hle⟩, -, hle'⟩ := (mem_all.mp hc).rate_bounds
    exact ⟨hle.trans_lt (by decide), hle'.trans_lt (by decide)⟩
  · intro c hc
    obtain ⟨hcoded, hwanted⟩ := (mem_all.mp hc).products_lt hnum' hden'
    exact ⟨hwiden hcoded (by decide), hwiden hwanted (by decide)⟩
  · intro front c back hall best
    have hrange (a : CodedRate) (ha : a ∈ front ++ c :: back) : a.InRange :=
      mem_all.mp (hall ▸ ha)
    have hfront : ∀ a ∈ front, a.InRange := fun a ha ↦ hrange a (List.mem_append_left _ ha)
    have hc : c.InRange := hrange c (List.mem_append_right _ List.mem_cons_self)
    obtain ⟨hbest, hbest'⟩ := (leads_foldl hnum hden hfront).error_lt hfront hnum' hden'
    obtain ⟨herror, herror'⟩ := hc.error_lt hnum' hden'
    have hproduct {m n : Nat} (hm : m < 2 ^ 50) (hn : n < 2 ^ 50) : m * n < 2 ^ 128 :=
      calc
        m * n < 2 ^ 50 * 2 ^ 50 := Nat.mul_lt_mul'' hm hn
        _ < 2 ^ 128 := by norm_num
    exact ⟨hproduct herror hbest', hproduct hbest herror'⟩

/-- The coded rate that is found for a rate with terms of 32 bits. A table rate is found under its
own code, and a coded rate exactly. Where a coded rate is off by a factor of less than 2^31 - 1,
none is closer than the one that is found, which is a table rate if one is as close; and elsewhere
it is 30000/1001. -/
theorem nearest_isClosest (hnum : 0 < num) (hden : 0 < den) (hnum' : num < 2 ^ 32)
    (hden' : den < 2 ^ 32) :
    let c : CodedRate := nearest num den
    let r : ℚ := num / den
    c.InRange ∧
      (∀ code, 1 ≤ code → code ≤ 8 → tableValue code = r → c = ⟨code, 0, 0⟩) ∧
      (∀ a : CodedRate, a.InRange → a.value = r → c.value = r) ∧
      (∀ a : CodedRate, a.InRange → a.misfit r < 2 ^ 31 - 1 →
        (∀ b : CodedRate, b.InRange → c.misfit r ≤ b.misfit r) ∧
          ∀ b : CodedRate, b.InRange → b.IsPlain → b.misfit r = c.misfit r → c.IsPlain) ∧
      ((∀ a : CodedRate, a.InRange → 2 ^ 31 - 1 ≤ a.misfit r) → c = ⟨4, 0, 0⟩) ∧
      ProductsFit num den := by
  intro c r
  refine ⟨inRange_nearest hnum hden, ?_, ?_, ?_, ?_, productsFit hnum hden hnum' hden'⟩
  · exact fun code hpos hle hvalue ↦ nearest_of_tableValue hden hpos hle hvalue
  · exact fun a ha hvalue ↦ value_nearest hnum hden ha hvalue
  · exact fun a ha hnear ↦ nearest_of_near hnum hden ha hnear
  · exact fun hfar ↦ nearest_of_far hnum hden hnum' hfar

/-- The rate 1000 is above every coded rate. What is found for it is as close as four times 60. -/
theorem misfit_nearest_thousand :
    (0 < 1000 ∧ 0 < 1 ∧ 1000 < 2 ^ 32 ∧ 1 < 2 ^ 32) ∧ (nearest 1000 1).InRange ∧
      (nearest 1000 1).misfit 1000 ≤ 25 / 6 := by
  have hrange : InRange ⟨8, 3, 0⟩ := by constructor <;> decide
  have hvalue : value ⟨8, 3, 0⟩ = 240 := by norm_num [value_eq, rate, tableRate?, tableRates]
  have hmisfit : misfit 1000 ⟨8, 3, 0⟩ = 25 / 6 := by norm_num [misfit, hvalue]
  have hrate : ((1000 : Nat) / (1 : Nat) : ℚ) = 1000 := by norm_num
  obtain ⟨hfound, -, -, hclosest, -⟩ := nearest_isClosest (show 0 < 1000 by decide)
    (show 0 < 1 by decide) (by decide) (by decide)
  rw [hrate] at hclosest
  obtain ⟨hleast, -⟩ := hclosest _ hrange (by rw [hmisfit]; norm_num)
  exact ⟨by decide, hfound, hmisfit ▸ hleast _ hrange⟩

end CodedRate

end ClosedCaptions
