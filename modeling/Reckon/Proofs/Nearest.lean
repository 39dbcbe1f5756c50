-- SUMMARY: Rounding is correct: no magnitude is nearer than the one chosen, and of two equally near ones it has the even rank.
import Mathlib.Data.Nat.Dist
import Reckon.Proofs.WholeNumbers

/-!
# The nearest magnitude

Every quotient lies between two neighbouring magnitudes, and is rounded to the
nearer of them, or to the one of even rank. All other magnitudes are farther
away. A decimal is read as the number nearest to its value: those that are not
written out in full because they lie far outside of the range are rounded to zero
and infinity in any case.
-/

namespace Reckon

/-- A quotient is rounded down below the half and up above it, and half way to the even
    neighbour. -/
theorem roundDiv_even_cases (num den : Nat) :
    (roundDiv .even num den = num / den ∧
      (2 * (num % den) < den ∨ 2 * (num % den) = den ∧ num / den % 2 = 0)) ∨
    (roundDiv .even num den = num / den + 1 ∧
      (den < 2 * (num % den) ∨ 2 * (num % den) = den ∧ (num / den + 1) % 2 = 0)) := by
  rcases Nat.lt_trichotomy (2 * (num % den)) den with hlt | heq | hgt
  · exact .inl ⟨roundDiv_of_lt hlt, .inl hlt⟩
  · have htie : roundDiv .even num den = num / den + num / den % 2 := by
      unfold roundDiv
      rw [Nat.compare_eq_eq.2 heq]
    rcases Nat.mod_two_eq_zero_or_one (num / den) with heven | hodd
    · exact .inl ⟨by rw [htie, heven, Nat.add_zero], .inr ⟨heq, heven⟩⟩
    · exact .inr ⟨by rw [htie, hodd], .inr ⟨heq, by omega⟩⟩
  · exact .inr ⟨roundDiv_of_gt hgt, .inl hgt⟩

/-- The rounded quotient is off by half a divisor at most. -/
theorem two_mul_dist_roundDiv_le (num : Nat) {den : Nat} (hden : 0 < den) :
    2 * Nat.dist (roundDiv .even num den * den) num ≤ den := by
  have hsplit := Nat.div_add_mod' num den
  have hmod := Nat.mod_lt num hden
  unfold Nat.dist
  rcases roundDiv_even_cases num den with ⟨hq, hhalf⟩ | ⟨hq, hhalf⟩
  · rw [hq]
    omega
  · rw [hq, Nat.add_mul, Nat.one_mul]
    omega

/-- No multiple of the divisor is nearer than that of the rounded quotient. -/
theorem dist_roundDiv_le (num c : Nat) {den : Nat} (hden : 0 < den) :
    Nat.dist (roundDiv .even num den * den) num ≤ Nat.dist (c * den) num := by
  have hhalf := two_mul_dist_roundDiv_le num hden
  generalize roundDiv .even num den = q at hhalf ⊢
  unfold Nat.dist at hhalf ⊢
  rcases Nat.lt_trichotomy c q with hlt | rfl | hgt
  · have hfar := Nat.mul_le_mul_right den (show c + 1 ≤ q from hlt)
    rw [Nat.add_mul, Nat.one_mul] at hfar
    omega
  · exact Nat.le_refl _
  · have hfar := Nat.mul_le_mul_right den (show q + 1 ≤ c from hgt)
    rw [Nat.add_mul, Nat.one_mul] at hfar
    omega

namespace Double

/-! ## Neighbours -/

/-- The magnitude with the leading bits `m` and `s` bits behind them. -/
theorem unitsOfRank_binade {s m : Nat} (hm : m ≤ 2 * binade) (hs : s = 0 ∨ binade ≤ m) :
    unitsOfRank (binade * s + m) = m * Nat.pow 2 s := by
  have hpos : 0 < binade := by decide
  unfold unitsOfRank
  by_cases hsmall : m < binade
  · obtain rfl : s = 0 := hs.resolve_right (Nat.not_le_of_lt hsmall)
    rw [Nat.mul_zero, Nat.zero_add, if_pos hsmall]
    exact (Nat.mul_one m).symm
  · rw [if_neg (by omega)]
    rcases Nat.lt_or_eq_of_le hm with hlt | rfl
    · have hdiv : (binade * s + m) / binade = s + 1 := by
        rw [Nat.mul_add_div hpos, Nat.div_eq_of_lt_le (k := 1) (by omega) (by omega)]
      have hmod : (binade * s + m) % binade = m - binade := by
        rw [Nat.mul_add_mod, Nat.mod_eq_sub_mod (by omega), Nat.mod_eq_of_lt (by omega)]
      rw [hdiv, hmod, Nat.add_sub_cancel, Nat.add_sub_of_le (Nat.le_of_not_lt hsmall)]
    · have hdiv : (binade * s + 2 * binade) / binade = s + 2 := by
        rw [Nat.mul_add_div hpos, Nat.mul_div_cancel _ hpos]
      have hmod : (binade * s + 2 * binade) % binade = 0 := by
        rw [Nat.mul_add_mod, Nat.mul_mod_left]
      rw [hdiv, hmod, Nat.add_zero, show s + 2 - 1 = s + 1 from rfl, Nat.pow_eq, Nat.pow_eq,
        Nat.pow_succ]
      ac_rfl

/-- A quotient lies between two neighbouring magnitudes and is rounded to the nearer one. -/
theorem nearestRank_cases (num : Nat) {den : Nat} (hden : 0 < den) :
    ∃ r, den * unitsOfRank r ≤ num ∧ num < den * unitsOfRank (r + 1) ∧
      ((nearestRank num den = r ∧
          (2 * num < den * unitsOfRank r + den * unitsOfRank (r + 1) ∨
            2 * num = den * unitsOfRank r + den * unitsOfRank (r + 1) ∧ r % 2 = 0)) ∨
        (nearestRank num den = r + 1 ∧
          (den * unitsOfRank r + den * unitsOfRank (r + 1) < 2 * num ∨
            2 * num = den * unitsOfRank r + den * unitsOfRank (r + 1) ∧ (r + 1) % 2 = 0))) := by
  have hlow : (num / den).log2 - 52 = 0 ∨
      binade ≤ num / (den * Nat.pow 2 ((num / den).log2 - 52)) := by
    rcases Nat.lt_or_ge 52 (num / den).log2 with hshift | hshift
    · exact .inr (binade_le_div hshift)
    · exact .inl (by omega)
  have hhigh := div_lt_two_binades num den
  simp only [nearestRank]
  generalize (num / den).log2 - 52 = s at hlow hhigh ⊢
  have hunit : 0 < den * Nat.pow 2 s := Nat.mul_pos hden (Nat.two_pow_pos s)
  have hsplit := Nat.div_add_mod num (den * Nat.pow 2 s)
  have hmod := Nat.mod_lt num hunit
  have hround := roundDiv_even_cases num (den * Nat.pow 2 s)
  generalize num / (den * Nat.pow 2 s) = q at hlow hhigh hsplit hround
  have hbelow : den * unitsOfRank (binade * s + q) = den * Nat.pow 2 s * q := by
    rw [unitsOfRank_binade (Nat.le_of_lt hhigh) hlow]
    ac_rfl
  have habove : den * unitsOfRank (binade * s + q + 1) =
      den * Nat.pow 2 s * q + den * Nat.pow 2 s := by
    rw [Nat.add_assoc, unitsOfRank_binade hhigh (hlow.imp_right Nat.le_succ_of_le), ← Nat.mul_succ]
    ac_rfl
  have heven : (binade * s + q) % 2 = q % 2 := by
    rw [binade_eq]
    omega
  refine ⟨binade * s + q, by omega, by omega, ?_⟩
  rw [hbelow, habove]
  rcases hround with ⟨hq, hhalf⟩ | ⟨hq, hhalf⟩
  · exact .inl ⟨by rw [hq], by omega⟩
  · exact .inr ⟨by rw [hq, Nat.add_assoc], by omega⟩

/-- No magnitude is nearer to `num / den` units than that of rank `rank`, and if another is as
    near, then `rank` is even. -/
structure IsNearest (num den rank : Nat) : Prop where
  nearest : ∀ r, Nat.dist num (den * unitsOfRank rank) ≤ Nat.dist num (den * unitsOfRank r)
  even : ∀ r, r ≠ rank →
    Nat.dist num (den * unitsOfRank rank) = Nat.dist num (den * unitsOfRank r) →
    rank % 2 = 0

theorem isNearest_nearestRank (num : Nat) {den : Nat} (hden : 0 < den) :
    IsNearest num den (nearestRank num den) := by
  obtain ⟨q, hlow, hhigh, hround⟩ := nearestRank_cases num hden
  have hmono : ∀ {m n : Nat}, m ≤ n → den * unitsOfRank m ≤ den * unitsOfRank n :=
    fun h => Nat.mul_le_mul_left den (unitsOfRank_mono h)
  have hstrict : ∀ {m n : Nat}, m < n → den * unitsOfRank m < den * unitsOfRank n :=
    fun h => Nat.mul_lt_mul_of_pos_left (unitsOfRank_lt_iff.2 h) hden
  constructor
  · intro r
    unfold Nat.dist
    rcases Nat.lt_or_ge q r with hr | hr
    · have hfar := hmono (show q + 1 ≤ r from hr)
      rcases hround with ⟨heq, hhalf⟩ | ⟨heq, hhalf⟩ <;> rw [heq] <;> omega
    · have hfar := hmono hr
      rcases hround with ⟨heq, hhalf⟩ | ⟨heq, hhalf⟩ <;> rw [heq] <;> omega
  · intro r hne hsame
    unfold Nat.dist at hsame
    rcases hround with ⟨heq, hhalf⟩ | ⟨heq, hhalf⟩ <;> rw [heq] at hne hsame ⊢
    · rcases Nat.lt_or_gt_of_ne hne with hr | hr
      · have hfar := hstrict hr
        omega
      · have hfar := hmono (show q + 1 ≤ r from hr)
        omega
    · rcases Nat.lt_or_gt_of_ne hne with hr | hr
      · have hfar := hmono (Nat.le_of_lt_succ hr)
        omega
      · have hfar := hstrict hr
        omega

/-! ## Decimals -/

theorem nearestRank_eq_zero {num den : Nat} (h : 2 * num < den) : nearestRank num den = 0 := by
  have hdiv : num / den = 0 := Nat.div_eq_of_lt (by omega)
  have hround : roundDiv .even num den = 0 := by
    rw [roundDiv_of_lt (by rw [Nat.mod_eq_of_lt (by omega)]; exact h), hdiv]
  simp only [nearestRank, hdiv, Nat.log2_zero, Nat.zero_sub, Nat.mul_zero, Nat.zero_add]
  rw [show Nat.pow 2 0 = 1 from rfl, Nat.mul_one, hround]

theorem le_nearestRank {num den r : Nat} (hden : 0 < den) (h : den * unitsOfRank r ≤ num) :
    r ≤ nearestRank num den := by
  have hself := nearestRank_mul_right (unitsOfRank r) 1 hden
  rw [nearestRank_unitsOfRank, Nat.one_mul, Nat.mul_comm] at hself
  rw [← hself]
  exact nearestRank_mono den h

theorem nearestRank_le {num den r : Nat} (hden : 0 < den) (h : num ≤ den * unitsOfRank r) :
    nearestRank num den ≤ r := by
  have hself := nearestRank_mul_right (unitsOfRank r) 1 hden
  rw [nearestRank_unitsOfRank, Nat.one_mul, Nat.mul_comm] at hself
  rw [← hself]
  exact nearestRank_mono den h

theorem lt_pow_length_toDigits (n : Nat) : n < Nat.pow 10 (Nat.toDigits 10 n).length :=
  (Nat.length_toDigits_le_iff (by decide) Nat.length_toDigits_pos).1 (Nat.le_refl _)

theorem pow_length_toDigits_le {n : Nat} (hn : n ≠ 0) :
    Nat.pow 10 ((Nat.toDigits 10 n).length - 1) ≤ n := by
  have hpos := Nat.length_toDigits_pos (b := 10) (n := n)
  rcases Nat.lt_or_ge 1 (Nat.toDigits 10 n).length with hmany | hone
  · apply Nat.le_of_not_lt
    intro hlt
    have hle := (Nat.length_toDigits_le_iff (by decide) (by omega)).2 hlt
    omega
  · rw [show (Nat.toDigits 10 n).length - 1 = 0 from by omega]
    exact Nat.pos_of_ne_zero hn

end Double

namespace Decimal

/-- The decimal is the quotient of its numerator and its denominator. -/
def num (d : Decimal) : Nat := d.coeff * Nat.pow 10 d.exp.toNat

def den (d : Decimal) : Nat := Nat.pow 10 (-d.exp).toNat

theorem den_pos (d : Decimal) : 0 < d.den := Nat.pow_pos (by decide)

/-- The rank of the magnitude nearest to the decimal, as if ranks had no end. -/
def rank (d : Decimal) : Nat := Double.nearestRank (d.num * Double.unitsPerOne) d.den

theorem isNearest_rank (d : Decimal) :
    Double.IsNearest (d.num * Double.unitsPerOne) d.den d.rank :=
  Double.isNearest_nearestRank _ d.den_pos

theorem rank_of_coeff_eq_zero {d : Decimal} (h : d.coeff = 0) : d.rank = 0 := by
  apply Double.nearestRank_eq_zero
  rw [num, h, Nat.zero_mul, Nat.zero_mul]
  exact d.den_pos

/-- A decimal with more than 400 zeros behind the point is less than half a unit. -/
theorem rank_of_small {d : Decimal} (h : d.point < -400) : d.rank = 0 := by
  have hlt := Double.lt_pow_length_toDigits d.coeff
  obtain ⟨k, hk, hunits⟩ : ∃ k, k = 400 ∧ 2 * Double.unitsPerOne ≤ 10 ^ k :=
    ⟨400, rfl, by decide +kernel⟩
  have hexp : d.exp.toNat = 0 := by
    unfold point at h
    omega
  have hden : d.digits.length + k ≤ (-d.exp).toNat := by
    unfold point at h
    omega
  apply Double.nearestRank_eq_zero
  rw [num, hexp, den, show Nat.pow 10 0 = 1 from rfl, Nat.mul_one]
  calc 2 * (d.coeff * Double.unitsPerOne)
      = d.coeff * (2 * Double.unitsPerOne) := Nat.mul_left_comm _ _ _
    _ < 10 ^ d.digits.length * (2 * Double.unitsPerOne) :=
      Nat.mul_lt_mul_of_pos_right hlt (Nat.mul_pos (by decide) Double.unitsPerOne_pos)
    _ ≤ 10 ^ d.digits.length * 10 ^ k := Nat.mul_le_mul_left _ hunits
    _ = 10 ^ (d.digits.length + k) := (Nat.pow_add 10 _ _).symm
    _ ≤ Nat.pow 10 (-d.exp).toNat := Nat.pow_le_pow_right (by decide) hden

/-- A decimal with more than 400 digits before the point is beyond all finite numbers. -/
theorem topRank_le_rank {d : Decimal} (hc : d.coeff ≠ 0) (h : 400 < d.point) :
    Double.topRank ≤ d.rank := by
  have hle := Double.pow_length_toDigits_le hc
  obtain ⟨k, hk, hunits⟩ : ∃ k, k = 400 ∧
      Double.unitsOfRank Double.topRank ≤ 10 ^ k * Double.unitsPerOne :=
    ⟨400, rfl, by decide +kernel⟩
  have hexp : (-d.exp).toNat + k ≤ d.digits.length - 1 + d.exp.toNat := by
    have hpos : 0 < d.digits.length := Nat.length_toDigits_pos
    unfold point at h
    omega
  apply Double.le_nearestRank d.den_pos
  calc d.den * Double.unitsOfRank Double.topRank
      ≤ 10 ^ (-d.exp).toNat * (10 ^ k * Double.unitsPerOne) := Nat.mul_le_mul_left _ hunits
    _ = 10 ^ ((-d.exp).toNat + k) * Double.unitsPerOne := by rw [Nat.pow_add, Nat.mul_assoc]
    _ ≤ 10 ^ (d.digits.length - 1 + d.exp.toNat) * Double.unitsPerOne :=
      Nat.mul_le_mul_right _ (Nat.pow_le_pow_right (by decide) hexp)
    _ = 10 ^ (d.digits.length - 1) * 10 ^ d.exp.toNat * Double.unitsPerOne := by rw [Nat.pow_add]
    _ ≤ d.num * Double.unitsPerOne :=
      Nat.mul_le_mul_right _ (Nat.mul_le_mul_right _ hle)

end Decimal

namespace Double

/-- The number of the given rank and sign, infinite from `topRank` on. -/
def ofRank (neg : Bool) (r : Nat) : Double :=
  if h : r < topRank then .finite neg r h else .infinite neg

theorem ofRank_of_lt {r : Nat} (h : r < topRank) (neg : Bool) : ofRank neg r = .finite neg r h :=
  dif_pos h

theorem ofRank_of_le {r : Nat} (h : topRank ≤ r) (neg : Bool) : ofRank neg r = .infinite neg :=
  dif_neg (Nat.not_lt_of_le h)

/-- A decimal is read as the number nearest to it, however far out of the range it is. -/
theorem ofDecimal_eq_ofRank (neg : Bool) (d : Decimal) :
    ofDecimal neg d.coeff d.exp = ofRank neg d.rank := by
  have hpoint : d.exp + (Nat.toDigits 10 d.coeff).length = d.point := Int.add_comm _ _
  simp only [ofDecimal, hpoint, Bool.or_eq_true, decide_eq_true_eq]
  split
  next hzero =>
    have hrank : d.rank = 0 :=
      hzero.elim Decimal.rank_of_coeff_eq_zero Decimal.rank_of_small
    rw [hrank]
    rfl
  next hzero =>
    split
    next hbig =>
      have htop := Decimal.topRank_le_rank (fun hc => hzero (.inl hc)) hbig
      rw [ofRank_of_le htop]
    next => rfl

end Double

end Reckon
