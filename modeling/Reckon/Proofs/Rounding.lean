-- SUMMARY: Rounding depends only on the quotient, and a number that is already a magnitude is rounded to itself.
import Reckon.Double.Decimal

/-!
# Rounding

Rounding a quotient depends on its value and not on how it is written, so a
decimal may be rewritten with another exponent before it is read. A magnitude
is nearest to itself, and the decimal of its exact value is read as it.
-/

namespace Reckon

/-! ## Quotients -/

theorem roundDiv_mul_right (tie : Tie) (num den : Nat) {k : Nat} (hk : 0 < k) :
    roundDiv tie (num * k) (den * k) = roundDiv tie num den := by
  have hdiv : num * k / (den * k) = num / den := Nat.mul_div_mul_right num den hk
  have hcmp : compare (2 * (num * k % (den * k))) (den * k) = compare (2 * (num % den)) den := by
    rw [Nat.mul_mod_mul_right, ← Nat.mul_assoc]
    rcases Nat.lt_trichotomy (2 * (num % den)) den with h | h | h
    · rw [Nat.compare_eq_lt.2 h, Nat.compare_eq_lt.2 (Nat.mul_lt_mul_of_pos_right h hk)]
    · rw [Nat.compare_eq_eq.2 h, Nat.compare_eq_eq.2 (by rw [h])]
    · rw [Nat.compare_eq_gt.2 h, Nat.compare_eq_gt.2 (Nat.mul_lt_mul_of_pos_right h hk)]
  unfold roundDiv
  rw [hdiv, hcmp]

/-- A whole quotient is not changed. -/
theorem roundDiv_mul_self (tie : Tie) (n : Nat) {den : Nat} (hden : 0 < den) :
    roundDiv tie (n * den) den = n := by
  have hcmp : compare (2 * (n * den % den)) den = .lt := by
    rw [Nat.mul_mod_left]
    exact Nat.compare_eq_lt.2 hden
  unfold roundDiv
  rw [hcmp, Nat.mul_div_cancel n hden]

namespace Double

/-! ## Magnitudes -/

theorem nearestRank_mul_right (num den : Nat) {k : Nat} (hk : 0 < k) :
    nearestRank (num * k) (den * k) = nearestRank num den := by
  simp only [nearestRank, Nat.mul_div_mul_right num den hk]
  have hden : den * k * Nat.pow 2 ((num / den).log2 - 52) =
      den * Nat.pow 2 ((num / den).log2 - 52) * k := by
    rw [Nat.mul_assoc, Nat.mul_comm k, ← Nat.mul_assoc]
  rw [hden, roundDiv_mul_right .even num _ hk]

theorem binade_eq : binade = 4503599627370496 := rfl

/-- A magnitude is nearest to itself. -/
theorem nearestRank_unitsOfRank (r : Nat) : nearestRank (unitsOfRank r) 1 = r := by
  simp only [nearestRank, unitsOfRank, Nat.div_one, Nat.one_mul]
  by_cases hr : r < binade
  · -- Below the first full binade the step is one unit.
    have hshift : r.log2 - 52 = 0 := by
      by_cases h0 : r = 0
      · subst h0; rfl
      · have hpow : r < 2 ^ 52 := hr
        have hlog := (Nat.log2_lt h0).2 hpow
        omega
    rw [if_pos hr, hshift]
    simpa using roundDiv_mul_self .even r Nat.one_pos
  · rw [if_neg hr]
    have hpos : 0 < binade := by decide
    have hq : 1 ≤ r / binade := (Nat.one_le_div_iff hpos).2 (Nat.not_lt.1 hr)
    have hm : r % binade < binade := Nat.mod_lt r hpos
    have hlog : ((binade + r % binade) * Nat.pow 2 (r / binade - 1)).log2 =
        52 + (r / binade - 1) := by
      have h2 : 0 < 2 ^ (r / binade - 1) := Nat.two_pow_pos _
      rw [Nat.pow_eq, Nat.log2_eq_iff (Nat.mul_ne_zero (by omega) (by omega)), Nat.pow_add,
        show 52 + (r / binade - 1) + 1 = 53 + (r / binade - 1) from by omega, Nat.pow_add]
      have hbounds : 2 ^ 52 ≤ binade + r % binade ∧ binade + r % binade < 2 ^ 53 := by
        rw [binade_eq] at hm ⊢
        omega
      exact ⟨Nat.mul_le_mul_right _ hbounds.1, Nat.mul_lt_mul_of_pos_right hbounds.2 h2⟩
    have hround : roundDiv .even ((binade + r % binade) * Nat.pow 2 (r / binade - 1))
        (Nat.pow 2 (r / binade - 1)) = binade + r % binade :=
      roundDiv_mul_self .even _ (Nat.two_pow_pos _)
    rw [hlog, Nat.add_sub_cancel_left, hround]
    have hsplit := Nat.div_add_mod r binade
    calc binade * (r / binade - 1) + (binade + r % binade)
        = binade * (r / binade - 1 + 1) + r % binade := by rw [Nat.mul_add]; omega
      _ = r := by rw [Nat.sub_add_cancel hq, hsplit]

theorem unitsOfRank_pos {r : Nat} (h : 0 < r) : 0 < unitsOfRank r := by
  unfold unitsOfRank
  split
  · exact h
  · have : 0 < binade := by decide
    exact Nat.mul_pos (by omega) (Nat.two_pow_pos _)

/-- Finite magnitudes are below `2^2098` units. -/
theorem unitsOfRank_lt {r k : Nat} (h : r < topRank) (hk : 2098 ≤ k) :
    unitsOfRank r < Nat.pow 2 k := by
  have hpos : 0 < binade := by decide
  have hq : r / binade ≤ 2046 := Nat.lt_succ_iff.1 ((Nat.div_lt_iff_lt_mul hpos).2 h)
  have hm : r % binade < binade := Nat.mod_lt r hpos
  unfold unitsOfRank
  split
  · rename_i hr
    calc r < 2 ^ 52 := hr
      _ ≤ 2 ^ k := Nat.pow_le_pow_right (by decide) (by omega)
  · calc (binade + r % binade) * 2 ^ (r / binade - 1)
        < 2 ^ 53 * 2 ^ (r / binade - 1) :=
          Nat.mul_lt_mul_of_pos_right (by rw [binade_eq] at hm ⊢; omega) (Nat.two_pow_pos _)
      _ = 2 ^ (53 + (r / binade - 1)) := (Nat.pow_add 2 53 _).symm
      _ ≤ 2 ^ k := Nat.pow_le_pow_right (by decide) (by omega)

/-! ## Decimals -/

theorem ofRatio_mul_right (neg : Bool) (num den : Nat) {k : Nat} (hk : 0 < k) :
    ofRatio neg (num * k) (den * k) = ofRatio neg num den := by
  have hunits : num * k * unitsPerOne = num * unitsPerOne * k := Nat.mul_right_comm num k _
  simp only [ofRatio, ofUnits, hunits, nearestRank_mul_right _ den hk]

theorem length_toDigits_mul_ten {c : Nat} (hc : c ≠ 0) :
    (Nat.toDigits 10 (c * 10)).length = (Nat.toDigits 10 c).length + 1 := by
  have happend := Nat.toDigits_append_toDigits (b := 10) (n := c) (d := 0)
    (by decide) (Nat.pos_of_ne_zero hc) (by decide)
  rw [Nat.add_zero, Nat.mul_comm] at happend
  rw [← happend]
  simp

/-- A zero at the end of the coefficient may move into the exponent. -/
theorem ofDecimal_mul_ten (neg : Bool) {c : Nat} (hc : c ≠ 0) (e : Int) :
    ofDecimal neg (c * 10) e = ofDecimal neg c (e + 1) := by
  have hmag : e + ((Nat.toDigits 10 (c * 10)).length : Int) =
      e + 1 + ((Nat.toDigits 10 c).length : Int) := by
    rw [length_toDigits_mul_ten hc]
    omega
  have hratio : ofRatio neg (c * 10 * Nat.pow 10 e.toNat) (Nat.pow 10 (-e).toNat) =
      ofRatio neg (c * Nat.pow 10 (e + 1).toNat) (Nat.pow 10 (-(e + 1)).toNat) := by
    by_cases he : 0 ≤ e
    · have hexp : (e + 1).toNat = e.toNat + 1 := by omega
      have hneg : (-(e + 1)).toNat = (-e).toNat := by omega
      have hpow : c * 10 * Nat.pow 10 e.toNat = c * Nat.pow 10 (e.toNat + 1) := by
        rw [Nat.pow_eq, Nat.pow_eq, Nat.pow_succ, Nat.mul_assoc, Nat.mul_comm 10]
      rw [hexp, hneg, hpow]
    · have hexp : (e + 1).toNat = 0 := by omega
      have hzero : e.toNat = 0 := by omega
      have hneg : (-e).toNat = (-(e + 1)).toNat + 1 := by omega
      rw [hexp, hzero, hneg]
      simpa [Nat.pow_succ] using ofRatio_mul_right neg c (10 ^ (-(e + 1)).toNat) (by decide : 0 < 10)
  have hc10 : c * 10 ≠ 0 := by omega
  simp only [ofDecimal, hmag, hratio, decide_eq_false hc, decide_eq_false hc10]

theorem ofDecimal_mul_pow (neg : Bool) {c : Nat} (hc : c ≠ 0) (k : Nat) (e : Int) :
    ofDecimal neg (c * Nat.pow 10 k) e = ofDecimal neg c (e + k) := by
  induction k generalizing e with
  | zero => simp
  | succ k ih =>
    have hne : c * Nat.pow 10 k ≠ 0 :=
      Nat.mul_ne_zero hc (Nat.ne_of_gt (Nat.pow_pos (by decide : 0 < 10)))
    have hstep : c * Nat.pow 10 (k + 1) = c * Nat.pow 10 k * 10 := (Nat.mul_assoc _ _ _).symm
    rw [hstep, ofDecimal_mul_ten neg hne, ih]
    congr 1
    omega

/-- The sign of a decimal is the sign of what it is read as. -/
theorem ofDecimal_of_rank {c : Nat} {e : Int} {s : Bool} {r : Nat} {h : r < topRank} (neg : Bool)
    (hread : ofDecimal false c e = .finite s r h) : ofDecimal neg c e = .finite neg r h := by
  simp only [ofDecimal] at hread ⊢
  split
  · rename_i hzero
    rw [if_pos hzero] at hread
    cases hread
    rfl
  · rename_i hzero
    rw [if_neg hzero] at hread
    split
    · rename_i hbig
      rw [if_pos hbig] at hread
      cases hread
    · rename_i hbig
      rw [if_neg hbig] at hread
      simp only [ofRatio, ofUnits] at hread ⊢
      split at hread
      · cases hread
        rename_i hlt
        rw [dif_pos hlt]
      · cases hread

/-- Powers of five and two make up the denominator of an exact decimal. -/
theorem ofRatio_fives (neg : Bool) (units : Nat) {n : Nat} (hn : unitsPerOne = Nat.pow 2 n) :
    ofRatio neg (units * Nat.pow 5 n) (Nat.pow 10 n) = ofUnits neg units 1 := by
  have hnum : units * Nat.pow 5 n * unitsPerOne = units * Nat.pow 10 n := by
    rw [hn, Nat.pow_eq, Nat.pow_eq, Nat.pow_eq, Nat.mul_assoc, ← Nat.mul_pow]
  have hscale := nearestRank_mul_right units 1 (Nat.pow_pos (by decide : 0 < 10) (n := n))
  rw [Nat.one_mul, ← Nat.pow_eq] at hscale
  simp only [ofRatio, ofUnits, hnum, hscale]

theorem lt_length_toDigits {n k : Nat} (h : Nat.pow 10 k ≤ n) :
    k < (Nat.toDigits 10 n).length := by
  cases k with
  | zero => exact Nat.length_toDigits_pos
  | succ k =>
    apply Nat.lt_of_not_le
    intro hle
    have hlt := (Nat.length_toDigits_le_iff (by decide) (Nat.succ_pos k)).1 hle
    exact Nat.not_lt.2 h hlt

/-- A positive finite magnitude is read back from its exact decimal, as long as that
    decimal lies inside the range in which decimals are written out. -/
theorem ofDecimal_fives {r n k : Nat} (hpos : 0 < r) (hlt : r < topRank)
    (hn : unitsPerOne = Nat.pow 2 n) (hn400 : 400 ≤ n) (hlow : Nat.pow 10 (n - 400) ≤ Nat.pow 5 n)
    (hk : 2098 ≤ k) (hhigh : Nat.pow 2 k * Nat.pow 5 n ≤ Nat.pow 10 (n + 400)) :
    ofDecimal false (unitsOfRank r * Nat.pow 5 n) (-(n : Int)) = .finite false r hlt := by
  have hunits := unitsOfRank_pos hpos
  have hfive : 0 < Nat.pow 5 n := Nat.pow_pos (by decide)
  have hc : unitsOfRank r * Nat.pow 5 n ≠ 0 :=
    Nat.mul_ne_zero (Nat.ne_of_gt hunits) (Nat.ne_of_gt hfive)
  have hmin : n - 400 < (Nat.toDigits 10 (unitsOfRank r * Nat.pow 5 n)).length :=
    lt_length_toDigits (Nat.le_trans hlow (Nat.le_mul_of_pos_left _ hunits))
  have hmax : (Nat.toDigits 10 (unitsOfRank r * Nat.pow 5 n)).length ≤ n + 400 := by
    rw [Nat.length_toDigits_le_iff (by decide) (by omega)]
    exact Nat.lt_of_lt_of_le (Nat.mul_lt_mul_of_pos_right (unitsOfRank_lt hlt hk) hfive) hhigh
  have hratio : ofRatio false (unitsOfRank r * Nat.pow 5 n * Nat.pow 10 (-(n : Int)).toNat)
      (Nat.pow 10 (- -(n : Int)).toNat) = .finite false r hlt := by
    have hexp : (-(n : Int)).toNat = 0 := by omega
    have hden : (- -(n : Int)).toNat = n := by omega
    rw [hexp, hden, show Nat.pow 10 0 = 1 from rfl, Nat.mul_one, ofRatio_fives false _ hn]
    simp only [ofUnits, nearestRank_unitsOfRank, hlt, dite_true]
  simp only [ofDecimal, hratio]
  rw [if_neg (by simp only [Bool.or_eq_true, decide_eq_true_eq]; omega), if_neg (by omega)]

theorem readsAs_of_ofDecimal {c : Nat} {e : Int} {s : Bool} {r : Nat} {hr : r < topRank}
    (h : ofDecimal false c e = .finite s r hr) : readsAs r ⟨c, e⟩ = true := by
  unfold readsAs
  rw [h]
  exact decide_eq_true rfl

/-- The decimal of the exact value of a positive finite magnitude is read as it. -/
theorem readsAs_exactDecimal {r : Nat} (hpos : 0 < r) (hlt : r < topRank) :
    readsAs r (exactDecimal (unitsOfRank r)) = true := by
  have hread := ofDecimal_fives (n := 1074) (k := 2098) hpos hlt (by decide +kernel) (by decide)
    (by decide +kernel) (by decide) (by decide +kernel)
  unfold exactDecimal
  exact readsAs_of_ofDecimal hread

end Double

end Reckon
