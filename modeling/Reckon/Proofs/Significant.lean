-- SUMMARY: Digits on a decimal grid are those of the exact value, rounded, and significant digits agree with fixed places.
import Mathlib.Algebra.Order.Round
import Mathlib.Data.Int.Log
import Mathlib.Data.Rat.Floor
import Mathlib.Data.Sign.Basic
import Mathlib.Tactic.FieldSimp
import Mathlib.Tactic.Linarith
import Mathlib.Tactic.Ring
import Reckon.Proofs.Shortest

/-!
# Significant digits

A magnitude is a rational number, and so is a decimal. The digits of a magnitude
on a decimal grid are the quotient of the two as rational numbers, rounded. If
rounding to a number of significant digits carries into a new first digit, the
grid becomes ten times coarser; on the coarser grid the magnitude is rounded to
the same power of ten. So digits with as many places after the point as the
rounded decimal has are the digits of this decimal.
-/

namespace Reckon

def withSign (neg : Bool) (q : ℚ) : ℚ := if neg then -q else q

theorem abs_withSign (neg : Bool) (q : ℚ) : |withSign neg q| = |q| := by
  cases neg with
  | false => rfl
  | true => exact abs_neg q

/-- The value of a decimal. -/
def Decimal.value (d : Decimal) : ℚ := d.coeff * 10 ^ d.exp

theorem Decimal.value_zeros (c k : ℕ) (e : ℤ) : value ⟨c * 10 ^ k, e⟩ = value ⟨c, e + k⟩ := by
  unfold value
  rw [zpow_add₀ (by norm_num), zpow_natCast]
  push_cast
  ring

namespace Double

/-- The exact value of a magnitude in units. -/
def magnitude (units : ℕ) : ℚ := units / unitsPerOne

/-- The exact value of a finite number. -/
def value? : Double → Option ℚ
  | .finite neg rank _ => some (withSign neg (magnitude (unitsOfRank rank)))
  | _ => none

theorem magnitude_unitsOfRank_zero : magnitude (unitsOfRank 0) = 0 := by
  rw [show unitsOfRank 0 = 0 from rfl, magnitude, Nat.cast_zero, zero_div]

theorem magnitude_pos {u : ℕ} (hu : 0 < u) : 0 < magnitude u :=
  div_pos (Nat.cast_pos.2 hu) (Nat.cast_pos.2 unitsPerOne_pos)

/-! ## Grids -/

theorem ten_zpow_pos (e : ℤ) : (0 : ℚ) < 10 ^ e := zpow_pos (by norm_num) e

theorem ten_zpow (e : ℤ) : (10 : ℚ) ^ e = 10 ^ e.toNat / 10 ^ (-e).toNat := by
  conv_lhs => rw [← Int.toNat_sub_toNat_neg e]
  rw [zpow_sub₀ (by norm_num), zpow_natCast, zpow_natCast]

/-- A magnitude over the step of a grid. -/
theorem gridNum_div_gridDen (u : ℕ) (e : ℤ) :
    (gridNum u e : ℚ) / gridDen e = magnitude u / 10 ^ e := by
  have hone : (unitsPerOne : ℚ) ≠ 0 := Nat.cast_ne_zero.2 (Nat.ne_of_gt unitsPerOne_pos)
  unfold gridNum gridDen magnitude
  rw [ten_zpow, Nat.pow_eq, Nat.pow_eq]
  generalize unitsPerOne = one at hone ⊢
  push_cast
  field_simp

theorem roundDiv_up (num : ℕ) {den : ℕ} (hden : 0 < den) :
    roundDiv .up num den = (2 * num + den) / (2 * den) := by
  have hsplit := Nat.div_add_mod' num den
  have hmod := Nat.mod_lt num hden
  have htwice : ∀ q, q * (2 * den) = 2 * (q * den) := fun q => by ring
  symm
  unfold roundDiv
  rw [Nat.div_eq_iff (by omega), htwice]
  generalize num / den = q at hsplit ⊢
  rcases Nat.lt_trichotomy (2 * (num % den)) den with hlt | heq | hgt
  · rw [Nat.compare_eq_lt.2 hlt]
    dsimp only
    omega
  · rw [Nat.compare_eq_eq.2 heq]
    dsimp only
    rw [Nat.add_mul]
    omega
  · rw [Nat.compare_eq_gt.2 hgt]
    dsimp only
    rw [Nat.add_mul]
    omega

/-- A quotient is rounded as a rational number, a half upward. -/
theorem round_div (num : ℕ) {den : ℕ} (hden : 0 < den) :
    round ((num : ℚ) / den) = roundDiv .up num den := by
  have hhalf : (num : ℚ) / den + 1 / 2 = ((2 * num + den : ℕ) : ℚ) / (2 * den : ℕ) := by
    push_cast
    field_simp
  rw [round_eq, hhalf, roundDiv_up num hden, Rat.floor_natCast_div_natCast,
    Int.natCast_ediv]

theorem round_magnitude (u : ℕ) (e : ℤ) :
    round (magnitude u / 10 ^ e) = roundDiv .up (gridNum u e) (gridDen e) := by
  rw [← gridNum_div_gridDen, round_div _ (gridDen_pos e)]

/-- On the grid that is `k` places finer than its first digit, a magnitude has `k + 1` digits
    before the point. -/
theorem magnitude_bounds {u : ℕ} (hu : 0 < u) {e : ℤ} {k : ℕ} (he : e = decimalExponent u - k) :
    (10 : ℚ) ^ k ≤ magnitude u / 10 ^ e ∧ magnitude u / 10 ^ e < 10 ^ (k + 1) := by
  obtain ⟨hlow, hhigh⟩ := gridNum_bounds hu he
  have hden : (0 : ℚ) < gridDen e := Nat.cast_pos.2 (gridDen_pos e)
  rw [← gridNum_div_gridDen, le_div_iff₀ hden, div_lt_iff₀ hden]
  exact ⟨by exact_mod_cast hlow, by exact_mod_cast hhigh⟩

/-- A number with `k + 1` digits before the point, in steps of `10 ^ e`. -/
theorem log_of_bounds {q : ℚ} {e : ℤ} {k : ℕ} (hlow : (10 : ℚ) ^ k ≤ q / 10 ^ e)
    (hhigh : q / 10 ^ e < 10 ^ (k + 1)) : Int.log 10 q = e + k := by
  have hten : (10 : ℚ) ≠ 0 := by norm_num
  rw [le_div_iff₀ (ten_zpow_pos e), ← zpow_natCast, ← zpow_add₀ hten] at hlow
  rw [div_lt_iff₀ (ten_zpow_pos e), ← zpow_natCast, ← zpow_add₀ hten] at hhigh
  have hq : 0 < q := lt_of_lt_of_le (ten_zpow_pos _) hlow
  have hle := (Int.zpow_le_iff_le_log (b := 10) (by norm_num) hq).1 hlow
  have hlt := (Int.lt_zpow_iff_log_lt (b := 10) (by norm_num) hq).1 hhigh
  push_cast at hlt
  omega

theorem log_magnitude {u : ℕ} (hu : 0 < u) : Int.log 10 (magnitude u) = decimalExponent u := by
  obtain ⟨hlow, hhigh⟩ := magnitude_bounds hu (k := 0) rfl
  rw [log_of_bounds hlow hhigh]
  omega

/-- The magnitudes whose text with fixed places is the plain text. -/
theorem le_magnitude_iff {u : ℕ} : 10 ^ 21 ≤ magnitude u ↔ fixedLimit * unitsPerOne ≤ u := by
  have hone : (0 : ℚ) < unitsPerOne := Nat.cast_pos.2 unitsPerOne_pos
  rw [magnitude, le_div_iff₀ hone]
  generalize unitsPerOne = one
  exact_mod_cast Iff.rfl

theorem fixedLimit_le_iff {u : ℕ} (hu : 0 < u) :
    fixedLimit * unitsPerOne ≤ u ↔ 21 ≤ decimalExponent u := by
  rw [← le_magnitude_iff, ← log_magnitude hu, ← Int.zpow_le_iff_le_log (by norm_num) (magnitude_pos hu)]
  norm_cast

/-! ## Significant digits -/

/-- `q` with `p` significant digits; a half goes away from zero. -/
def roundSignificant (p : ℕ) (q : ℚ) : ℚ :=
  let step : ℚ := 10 ^ (Int.log 10 |q| - (p - 1))
  SignType.sign q * (round (|q| / step) * step)

theorem round_eq_iff {q : ℚ} {n : ℤ} : round q = n ↔ n ≤ q + 1 / 2 ∧ q + 1 / 2 < n + 1 := by
  rw [round_eq, Int.floor_eq_iff]

theorem roundSignificant_withSign (p : ℕ) (neg : Bool) {q : ℚ} (hq : 0 < q) :
    roundSignificant p (withSign neg q) = withSign neg (roundSignificant p q) := by
  cases neg with
  | false => rfl
  | true =>
    have hneg : -q < 0 := neg_neg_of_pos hq
    simp [roundSignificant, withSign, sign_pos hq, sign_neg hneg]

/-- A carry into a new digit is the same on the coarser grid. -/
theorem round_div_ten {q : ℚ} {n : ℤ} (hlt : q < n * 10) (h : round q = n * 10) :
    round (q / 10) = n := by
  have hhalf := (round_eq_iff.1 h).1
  push_cast at hhalf
  rw [round_eq_iff]
  constructor <;> linarith

/-- The decimal is a magnitude rounded to `p` significant digits. -/
structure IsSignificant (u p : ℕ) (d : Decimal) : Prop where
  le_coeff : 10 ^ (p - 1) ≤ d.coeff
  coeff_lt : d.coeff < 10 ^ p
  le_exp : decimalExponent u - (p - 1 : ℕ) ≤ d.exp
  /-- The coefficient on its own grid, which a carry may have made coarser. -/
  coeff_eq : (d.coeff : ℤ) = round (magnitude u / 10 ^ d.exp)
  value_eq : d.value = roundSignificant p (magnitude u)

theorem roundSignificant_magnitude {u : ℕ} (hu : 0 < u) (k : ℕ) :
    roundSignificant (k + 1) (magnitude u) =
      round (magnitude u / 10 ^ (decimalExponent u - k)) * 10 ^ (decimalExponent u - k) := by
  have hpos := magnitude_pos hu
  have hexp : decimalExponent u - (((k + 1 : ℕ) : ℤ) - 1) = decimalExponent u - k := by omega
  rw [roundSignificant, abs_of_pos hpos, log_magnitude hu, hexp, sign_pos hpos, SignType.coe_one,
    one_mul]

theorem isSignificant_significant {u p : ℕ} (hu : 0 < u) (hp : 0 < p) :
    IsSignificant u p (significant u p) := by
  obtain ⟨k, rfl⟩ : ∃ k, p = k + 1 := ⟨p - 1, by omega⟩
  have hvalue := roundSignificant_magnitude hu k
  unfold significant
  simp only [Nat.add_sub_cancel, Nat.pow_eq]
  generalize he : decimalExponent u - k = e at hvalue ⊢
  obtain ⟨hlow, hhigh⟩ := magnitude_bounds hu he.symm
  have hround := round_magnitude u e
  generalize roundDiv .up (gridNum u e) (gridDen e) = c at hround ⊢
  rw [hround, Int.cast_natCast] at hvalue
  split
  next hc =>
    have hten : (10 : ℚ) ^ (e + 1) = 10 ^ e * 10 := zpow_add_one₀ (by norm_num) e
    refine ⟨le_refl _, Nat.pow_lt_pow_right (by decide) (Nat.lt_succ_self k), ?_, ?_, ?_⟩
    · simp only [Nat.add_sub_cancel]
      omega
    · rw [hten, ← div_div]
      refine (round_div_ten ?_ ?_).symm
      · push_cast
        rwa [← pow_succ]
      · rw [hround, hc, pow_succ]
        push_cast
        rfl
    · rw [hvalue, hc, Decimal.value, hten, pow_succ]
      push_cast
      ring
  next hc =>
    obtain ⟨hbelow, habove⟩ := round_eq_iff.1 hround
    push_cast at hbelow habove
    have hge : 10 ^ k < c + 1 := by
      have : ((10 ^ k : ℕ) : ℚ) < (c + 1 : ℕ) := by
        push_cast
        linarith
      exact_mod_cast this
    have hle : c < 10 ^ (k + 1) + 1 := by
      have : (c : ℚ) < (10 ^ (k + 1) + 1 : ℕ) := by
        push_cast
        linarith
      exact_mod_cast this
    refine ⟨Nat.le_of_lt_succ hge, lt_of_le_of_ne (Nat.le_of_lt_succ hle) hc, ?_, hround.symm,
      hvalue.symm⟩
    simp only [Nat.add_sub_cancel]
    omega

namespace IsSignificant

variable {u p : ℕ} {d : Decimal}

theorem length_digits (h : IsSignificant u p d) (hp : 0 < p) : d.digits.length = p := by
  have hle : d.digits.length ≤ p := (Nat.length_toDigits_le_iff (by decide) hp).2 h.coeff_lt
  have hlt := lt_length_toDigits h.le_coeff
  unfold Decimal.digits at hle ⊢
  omega

theorem point_eq (h : IsSignificant u p d) (hp : 0 < p) : d.point = p + d.exp := by
  rw [Decimal.point, h.length_digits hp]

theorem value_pos (h : IsSignificant u p d) : 0 < d.value :=
  mul_pos (Nat.cast_pos.2 (Nat.lt_of_lt_of_le (Nat.pow_pos (by decide)) h.le_coeff))
    (ten_zpow_pos d.exp)

/-- The first digit that is written is that of the value. -/
theorem log_value (h : IsSignificant u p d) (hp : 0 < p) : Int.log 10 d.value = d.point - 1 := by
  have hcoeff : d.value / 10 ^ d.exp = d.coeff :=
    mul_div_cancel_right₀ _ (ten_zpow_pos d.exp).ne'
  have hlow : (10 : ℚ) ^ (p - 1) ≤ d.value / 10 ^ d.exp := by
    rw [hcoeff]
    exact_mod_cast h.le_coeff
  have hhigh : d.value / 10 ^ d.exp < 10 ^ (p - 1 + 1) := by
    rw [hcoeff, Nat.sub_add_cancel hp]
    exact_mod_cast h.coeff_lt
  rw [log_of_bounds hlow hhigh, h.point_eq hp]
  omega

/-- Rounding does not move the first digit down. -/
theorem lt_fixedLimit (h : IsSignificant u p d) (hu : 0 < u) (hp : 0 < p) (hpoint : d.point ≤ 21) :
    ¬ fixedLimit * unitsPerOne ≤ u := by
  have hexp := h.le_exp
  rw [h.point_eq hp] at hpoint
  rw [fixedLimit_le_iff hu]
  omega

/-- With as many places as it has, the magnitude is rounded to the same decimal. -/
theorem fixed_eq (h : IsSignificant u p d) {places : ℕ} (he : d.exp = -(places : ℤ)) :
    fixed u places = d := by
  have hcoeff : (d.coeff : ℤ) = roundDiv .up (gridNum u d.exp) (gridDen d.exp) := by
    rw [h.coeff_eq, round_magnitude]
  rw [fixed, ← he, ← Nat.cast_inj.1 hcoeff]

end IsSignificant

end Double

end Reckon
