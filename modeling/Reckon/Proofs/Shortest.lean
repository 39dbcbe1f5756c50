-- SUMMARY: The text of a number has the fewest digits that read back, and as a constant it brings the number through the pool.
import Reckon.Machine
import Reckon.Proofs.Nearest
import Reckon.Proofs.NumberText

/-!
# Shortest digits

If some decimal on a grid is read as a number, then so is one of the two next to
the number: reading keeps the order. So the coarsest grid on which one of these
two is read as the number gives the fewest digits, and the nearer of them no
decimal with as few digits can beat. Seventeen digits are always enough, because
on that grid the decimals lie closer together than the numbers.
-/

namespace Reckon

namespace Decimal

variable {d d' d'' : Decimal} {units : Nat}

/-! ## Order of decimals -/

def AtMost (d d' : Decimal) : Prop := d.num * d'.den ≤ d'.num * d.den

/-- Reading keeps the order of decimals. -/
theorem AtMost.rank_le (h : d.AtMost d') : d.rank ≤ d'.rank := by
  have hleft := Double.nearestRank_mul_right (d.num * Double.unitsPerOne) d.den d'.den_pos
  have hright := Double.nearestRank_mul_right (d'.num * Double.unitsPerOne) d'.den d.den_pos
  rw [rank, rank, ← hleft, ← hright, Nat.mul_comm d'.den d.den]
  apply Double.nearestRank_mono
  rw [Nat.mul_right_comm, Nat.mul_right_comm d'.num]
  exact Nat.mul_le_mul_right _ h

theorem rank_mono {c c' : Nat} (h : c ≤ c') (e : Int) : rank ⟨c, e⟩ ≤ rank ⟨c', e⟩ :=
  AtMost.rank_le (Nat.mul_le_mul_right _ (Nat.mul_le_mul_right _ h))

/-- A decimal is not less than any power of ten up to that of its first digit. -/
theorem pow_atMost (hc : d.coeff ≠ 0) {i : Nat} {t : Int} (ht : t + i < d.point) :
    AtMost ⟨Nat.pow 10 i, t⟩ d := by
  have hle := Double.pow_length_toDigits_le hc
  have hpos : 0 < d.digits.length := Nat.length_toDigits_pos
  have hexp : i + t.toNat + (-d.exp).toNat ≤ d.digits.length - 1 + d.exp.toNat + (-t).toNat := by
    unfold point at ht
    omega
  calc num ⟨10 ^ i, t⟩ * d.den
      = 10 ^ (i + t.toNat + (-d.exp).toNat) := by rw [num, den, Nat.pow_add, Nat.pow_add]; rfl
    _ ≤ 10 ^ (d.digits.length - 1 + d.exp.toNat + (-t).toNat) :=
      Nat.pow_le_pow_right (by decide) hexp
    _ = 10 ^ (d.digits.length - 1) * 10 ^ d.exp.toNat * 10 ^ (-t).toNat := by
      rw [Nat.pow_add, Nat.pow_add]
    _ ≤ d.num * den ⟨10 ^ i, t⟩ := Nat.mul_le_mul_right _ (Nat.mul_le_mul_right _ hle)

/-- A decimal is not greater than any power of ten from the one before its first digit on. -/
theorem atMost_pow (d : Decimal) {i : Nat} {t : Int} (ht : d.point ≤ t + i) :
    AtMost d ⟨Nat.pow 10 i, t⟩ := by
  have hlt := Double.lt_pow_length_toDigits d.coeff
  have hexp : d.digits.length + d.exp.toNat + (-t).toNat ≤ i + t.toNat + (-d.exp).toNat := by
    unfold point at ht
    omega
  calc d.num * den ⟨10 ^ i, t⟩
      ≤ 10 ^ d.digits.length * 10 ^ d.exp.toNat * 10 ^ (-t).toNat :=
      Nat.mul_le_mul_right _ (Nat.mul_le_mul_right _ (Nat.le_of_lt hlt))
    _ = 10 ^ (d.digits.length + d.exp.toNat + (-t).toNat) := by rw [Nat.pow_add, Nat.pow_add]
    _ ≤ 10 ^ (i + t.toNat + (-d.exp).toNat) := Nat.pow_le_pow_right (by decide) hexp
    _ = num ⟨10 ^ i, t⟩ * d.den := by rw [num, den, Nat.pow_add, Nat.pow_add]; rfl

/-! ## Distances -/

/-- The first decimal is at least as near to the magnitude as the second. -/
def AsNear (units : Nat) (d d' : Decimal) : Prop :=
  Nat.dist (d.num * Double.unitsPerOne) (d.den * units) * d'.den ≤
    Nat.dist (d'.num * Double.unitsPerOne) (d'.den * units) * d.den

theorem AsNear.refl (units : Nat) (d : Decimal) : AsNear units d d := Nat.le_refl _

theorem AsNear.trans (h : AsNear units d d') (h' : AsNear units d' d'') : AsNear units d d'' := by
  unfold AsNear at h h' ⊢
  generalize Nat.dist (d.num * _) _ = far at h ⊢
  generalize Nat.dist (d'.num * _) _ = far' at h h'
  generalize Nat.dist (d''.num * _) _ = far'' at h' ⊢
  refine Nat.le_of_mul_le_mul_right ?_ d'.den_pos
  calc far * d''.den * d'.den
      = far * d'.den * d''.den := Nat.mul_right_comm _ _ _
    _ ≤ far' * d.den * d''.den := Nat.mul_le_mul_right _ h
    _ = far' * d''.den * d.den := Nat.mul_right_comm _ _ _
    _ ≤ far'' * d'.den * d.den := Nat.mul_le_mul_right _ h'
    _ = far'' * d.den * d'.den := Nat.mul_right_comm _ _ _

/-- Distances over a common denominator. -/
theorem asNear_iff : AsNear units d d' ↔
    Nat.dist (d.num * d'.den * Double.unitsPerOne) (d.den * units * d'.den) ≤
      Nat.dist (d'.num * d.den * Double.unitsPerOne) (d.den * units * d'.den) := by
  have hunits : d'.den * units * d.den = d.den * units * d'.den := by
    rw [Nat.mul_right_comm, Nat.mul_comm d'.den, Nat.mul_right_comm]
  rw [AsNear, ← Nat.dist_mul_right, ← Nat.dist_mul_right, hunits, Nat.mul_right_comm,
    Nat.mul_right_comm d'.num]

theorem asNear_of_eq (h : d.num * d'.den = d'.num * d.den) : AsNear units d d' := by
  refine asNear_iff.2 (Nat.le_of_eq ?_)
  rw [h]

/-- Beyond a decimal that is not less than the magnitude, none is nearer. -/
theorem AtMost.asNear_of_le (h : d.AtMost d')
    (hunits : d.den * units ≤ d.num * Double.unitsPerOne) : AsNear units d d' := by
  have hfar := Nat.mul_le_mul_right Double.unitsPerOne h
  have hnear := Nat.mul_le_mul_right d'.den hunits
  rw [Nat.mul_right_comm d.num] at hnear
  rw [asNear_iff]
  unfold Nat.dist
  omega

theorem AtMost.asNear_of_ge (h : d'.AtMost d)
    (hunits : d.num * Double.unitsPerOne ≤ d.den * units) : AsNear units d d' := by
  have hfar := Nat.mul_le_mul_right Double.unitsPerOne h
  have hnear := Nat.mul_le_mul_right d'.den hunits
  rw [Nat.mul_right_comm d.num] at hnear
  rw [asNear_iff]
  unfold Nat.dist
  omega

theorem num_mul_den_succ (c : Nat) (e : Int) :
    num ⟨c, e + 1⟩ * den ⟨c * 10, e⟩ = num ⟨c * 10, e⟩ * den ⟨c, e + 1⟩ := by
  simp only [num, den, Nat.pow_eq]
  by_cases he : 0 ≤ e
  · rw [show (e + 1).toNat = e.toNat + 1 from by omega, show (-(e + 1)).toNat = 0 from by omega,
      show (-e).toNat = 0 from by omega, Nat.pow_succ]
    ac_rfl
  · rw [show (e + 1).toNat = 0 from by omega, show e.toNat = 0 from by omega,
      show (-e).toNat = (-(e + 1)).toNat + 1 from by omega, Nat.pow_succ]
    ac_rfl

theorem asNear_normalize (units : Nat) (d : Decimal) : AsNear units d.normalize d := by
  fun_induction normalize d with
  | case1 d h ih =>
    have hzero : d.coeff / 10 * 10 = d.coeff := by omega
    have hvalue := num_mul_den_succ (d.coeff / 10) d.exp
    rw [hzero] at hvalue
    exact ih.trans (asNear_of_eq hvalue)
  | case2 d h => exact AsNear.refl units d

/-! ## Digits -/

theorem coeff_normalize_le (d : Decimal) : d.normalize.coeff ≤ d.coeff := by
  fun_induction normalize d with
  | case1 d h ih => exact Nat.le_trans ih (Nat.div_le_self _ _)
  | case2 d h => exact Nat.le_refl _

/-- Without the zeros at its end, a power of ten has no more digits than the numbers below it. -/
theorem length_digits_normalize_le {d : Decimal} {n : Nat} (hn : 0 < n)
    (h : d.coeff ≤ Nat.pow 10 n) : d.normalize.digits.length ≤ n := by
  refine (Nat.length_toDigits_le_iff (by decide) hn).2 ?_
  rcases Nat.lt_or_eq_of_le h with hlt | heq
  · exact Nat.lt_of_le_of_lt d.coeff_normalize_le hlt
  · obtain ⟨m, rfl⟩ : ∃ m, n = m + 1 := ⟨n - 1, by omega⟩
    have hpos : 0 < 10 ^ m := Nat.pow_pos (by decide)
    have hten : d.coeff = 10 ^ m * 10 := heq
    rw [normalize, dif_pos (by omega), Nat.pow_succ]
    refine Nat.lt_of_le_of_lt (coeff_normalize_le _) ?_
    show d.coeff / 10 < 10 ^ m * 10
    omega

end Decimal

namespace Double

/-! ## Decimals next to a number -/

section

variable {r : Nat} {e : Int} {c : Nat}

theorem readsAs_iff (hr : r < topRank) {d : Decimal} : readsAs r d = true ↔ d.rank = r := by
  have hread := ofDecimal_eq_ofRank false d
  unfold readsAs
  rcases Nat.lt_or_ge d.rank topRank with hlt | hge
  · rw [hread, ofRank_of_lt hlt]
    exact decide_eq_true_iff
  · rw [hread, ofRank_of_le hge]
    exact iff_of_false Bool.false_ne_true (by omega)

theorem rank_of_ofDecimal {hr : r < topRank} {d : Decimal}
    (h : ofDecimal false d.coeff d.exp = .finite false r hr) : d.rank = r :=
  (readsAs_iff hr).1 (readsAs_of_ofDecimal h)

theorem num_eq_grid (c : Nat) (e : Int) : Decimal.num ⟨c, e⟩ * unitsPerOne = c * gridDen e := by
  rw [Decimal.num, gridDen, Nat.mul_assoc, Nat.mul_comm (Nat.pow _ _)]

theorem den_eq_grid (c : Nat) (e : Int) (units : Nat) :
    Decimal.den ⟨c, e⟩ * units = gridNum units e :=
  Nat.mul_comm _ _

theorem gridDen_pos (e : Int) : 0 < gridDen e :=
  Nat.mul_pos unitsPerOne_pos (Nat.pow_pos (by decide))

theorem rank_le_of_grid (h : c * gridDen e ≤ gridNum (unitsOfRank r) e) :
    Decimal.rank ⟨c, e⟩ ≤ r := by
  rw [Decimal.rank, num_eq_grid]
  apply nearestRank_le (Decimal.den_pos _)
  rwa [den_eq_grid]

theorem le_rank_of_grid (h : gridNum (unitsOfRank r) e ≤ c * gridDen e) :
    r ≤ Decimal.rank ⟨c, e⟩ := by
  rw [Decimal.rank, num_eq_grid]
  apply le_nearestRank (Decimal.den_pos _)
  rwa [den_eq_grid]

/-- Between a number and a decimal that is read as it, all decimals are read as it. -/
theorem rank_of_below {q : Nat} (h : Decimal.rank ⟨c, e⟩ = r) (hc : c ≤ q)
    (hq : q * gridDen e ≤ gridNum (unitsOfRank r) e) : Decimal.rank ⟨q, e⟩ = r :=
  Nat.le_antisymm (rank_le_of_grid hq)
    (Nat.le_trans (Nat.le_of_eq h.symm) (Decimal.rank_mono hc e))

theorem rank_of_above {q : Nat} (h : Decimal.rank ⟨c, e⟩ = r) (hc : q ≤ c)
    (hq : gridNum (unitsOfRank r) e ≤ q * gridDen e) : Decimal.rank ⟨q, e⟩ = r :=
  Nat.le_antisymm (Nat.le_trans (Decimal.rank_mono hc e) (Nat.le_of_eq h)) (le_rank_of_grid hq)

theorem asNear_of_grid {c' : Nat} (h : Nat.dist (c * gridDen e) (gridNum (unitsOfRank r) e) ≤
    Nat.dist (c' * gridDen e) (gridNum (unitsOfRank r) e)) :
    Decimal.AsNear (unitsOfRank r) ⟨c, e⟩ ⟨c', e⟩ := by
  rw [Decimal.AsNear, num_eq_grid, num_eq_grid, den_eq_grid, den_eq_grid]
  exact Nat.mul_le_mul_right _ h

/-- What is found on a grid, where `q` and `q + 1` are the coefficients next to the number. -/
theorem shortestOn?_cases (hr : r < topRank) (e : Int) :
    ∃ q, q * gridDen e ≤ gridNum (unitsOfRank r) e ∧
      gridNum (unitsOfRank r) e ≤ (q + 1) * gridDen e ∧
      ((∃ c, shortestOn? r e = some ⟨c, e⟩ ∧ c ≤ q + 1 ∧
          ∀ c', Decimal.AsNear (unitsOfRank r) ⟨c, e⟩ ⟨c', e⟩) ∨
        (shortestOn? r e = some ⟨q, e⟩ ∧ Decimal.rank ⟨q + 1, e⟩ ≠ r) ∨
        (shortestOn? r e = some ⟨q + 1, e⟩ ∧ Decimal.rank ⟨q, e⟩ ≠ r) ∨
        (shortestOn? r e = none ∧ Decimal.rank ⟨q, e⟩ ≠ r ∧ Decimal.rank ⟨q + 1, e⟩ ≠ r)) := by
  have hreads : ∀ c, ¬ readsAs r ⟨c, e⟩ = true → Decimal.rank ⟨c, e⟩ ≠ r :=
    fun c hc hrank => hc ((readsAs_iff hr).2 hrank)
  have hnear : ∀ c', Decimal.AsNear (unitsOfRank r)
      ⟨roundDiv .even (gridNum (unitsOfRank r) e) (gridDen e), e⟩ ⟨c', e⟩ :=
    fun c' => asNear_of_grid (dist_roundDiv_le _ c' (gridDen_pos e))
  have hbelow := Nat.div_mul_le_self (gridNum (unitsOfRank r) e) (gridDen e)
  have habove := Nat.le_of_lt (Nat.lt_mul_of_div_lt
    (Nat.lt_succ_self (gridNum (unitsOfRank r) e / gridDen e)) (gridDen_pos e))
  have hround := (roundDiv_even_cases (gridNum (unitsOfRank r) e) (gridDen e)).imp
    And.left And.left
  unfold shortestOn?
  dsimp only
  generalize gridNum (unitsOfRank r) e / gridDen e = q at hbelow habove hround ⊢
  generalize roundDiv .even (gridNum (unitsOfRank r) e) (gridDen e) = c at hnear hround ⊢
  refine ⟨q, hbelow, habove, ?_⟩
  split
  next => exact .inl ⟨c, rfl, by omega, hnear⟩
  next hc =>
    split
    next hq =>
      rcases hround with rfl | rfl
      · exact absurd hq hc
      · exact .inr (.inl ⟨rfl, hreads _ hc⟩)
    next hq =>
      split
      next => exact .inr (.inr (.inl ⟨rfl, hreads _ hq⟩))
      next hq' => exact .inr (.inr (.inr ⟨rfl, hreads _ hq, hreads _ hq'⟩))

/-- If a decimal on the grid is read as a number, then so is one next to the number. -/
theorem exists_shortestOn? (hr : r < topRank) (h : Decimal.rank ⟨c, e⟩ = r) :
    ∃ d, shortestOn? r e = some d := by
  obtain ⟨q, hbelow, habove, hcases⟩ := shortestOn?_cases hr e
  rcases hcases with ⟨c, hfound, -⟩ | ⟨hfound, -⟩ | ⟨hfound, -⟩ | ⟨-, hnone, hnone'⟩
  · exact ⟨_, hfound⟩
  · exact ⟨_, hfound⟩
  · exact ⟨_, hfound⟩
  · rcases Nat.lt_or_ge q c with hc | hc
    · exact absurd (rank_of_above h hc habove) hnone'
    · exact absurd (rank_of_below h hc hbelow) hnone

/-- No other decimal on the grid that is read as the number is nearer than the one found. -/
theorem asNear_of_shortestOn? (hr : r < topRank) {d : Decimal} (h : shortestOn? r e = some d)
    (hc : Decimal.rank ⟨c, e⟩ = r) : Decimal.AsNear (unitsOfRank r) d ⟨c, e⟩ := by
  obtain ⟨q, hbelow, habove, hcases⟩ := shortestOn?_cases hr e
  rcases hcases with ⟨c', hfound, -, hnear⟩ | ⟨hfound, hnone⟩ | ⟨hfound, hnone⟩ | ⟨hfound, -⟩
  · obtain rfl := Option.some.inj (hfound.symm.trans h)
    exact hnear c
  · obtain rfl := Option.some.inj (hfound.symm.trans h)
    have hle : c ≤ q := Nat.le_of_not_lt fun hlt => hnone (rank_of_above hc hlt habove)
    have hfar := Nat.mul_le_mul_right (gridDen e) hle
    apply asNear_of_grid
    unfold Nat.dist
    omega
  · obtain rfl := Option.some.inj (hfound.symm.trans h)
    have hlt : q + 1 ≤ c := Nat.lt_of_not_le fun hle => hnone (rank_of_below hc hle hbelow)
    have hfar := Nat.mul_le_mul_right (gridDen e) hlt
    apply asNear_of_grid
    unfold Nat.dist
    omega
  · cases hfound.symm.trans h

/-- If the number is less than `n` steps of the grid, then so is what is found, or it is equal. -/
theorem coeff_le_of_shortestOn? (hr : r < topRank) {d : Decimal} (h : shortestOn? r e = some d)
    {n : Nat} (hn : gridNum (unitsOfRank r) e < n * gridDen e) : d.coeff ≤ n := by
  obtain ⟨q, hbelow, -, hcases⟩ := shortestOn?_cases hr e
  have hq : q + 1 ≤ n := Nat.lt_of_mul_lt_mul_right (Nat.lt_of_le_of_lt hbelow hn)
  rcases hcases with ⟨c, hfound, hc, -⟩ | ⟨hfound, -⟩ | ⟨hfound, -⟩ | ⟨hfound, -⟩
  · obtain rfl := Option.some.inj (hfound.symm.trans h)
    exact Nat.le_trans hc hq
  · obtain rfl := Option.some.inj (hfound.symm.trans h)
    exact Nat.le_of_succ_le hq
  · obtain rfl := Option.some.inj (hfound.symm.trans h)
    exact hq
  · cases hfound.symm.trans h

end

/-! ## Grids -/

/-- On the grid that is `k` places finer than its first digit, a magnitude has `k + 1` digits
    before the point. -/
theorem gridNum_bounds {u : Nat} (hu : 0 < u) {e : Int} {k : Nat} (he : e = decimalExponent u - k) :
    Nat.pow 10 k * gridDen e ≤ gridNum u e ∧ gridNum u e < Nat.pow 10 (k + 1) * gridDen e := by
  obtain ⟨w, hw, hunits, htop⟩ : ∃ w, w = 324 ∧ unitsPerOne ≤ Nat.pow 10 w ∧ decimalExponent u =
      ((Nat.toDigits 10 (u * Nat.pow 10 w / unitsPerOne)).length : Int) - 325 :=
    ⟨324, rfl, by decide +kernel, rfl⟩
  have hbelow := Nat.div_mul_le_self (u * Nat.pow 10 w) unitsPerOne
  have habove := Nat.lt_mul_of_div_lt (Nat.lt_succ_self (u * Nat.pow 10 w / unitsPerOne))
    unitsPerOne_pos
  have hscaled : u * Nat.pow 10 w / unitsPerOne ≠ 0 := by
    refine Nat.ne_of_gt (Nat.div_pos ?_ unitsPerOne_pos)
    exact Nat.le_trans hunits (Nat.le_mul_of_pos_left _ hu)
  generalize u * Nat.pow 10 w / unitsPerOne = n at htop hbelow habove hscaled
  have hlow := pow_length_toDigits_le hscaled
  have hhigh := lt_pow_length_toDigits n
  have hpos := Nat.length_toDigits_pos (b := 10) (n := n)
  have hplaces : k + e.toNat + w = (Nat.toDigits 10 n).length - 1 + (-e).toNat := by omega
  have hgrid : ∀ j, 10 ^ j * gridDen e * 10 ^ w = 10 ^ (j + e.toNat + w) * unitsPerOne := by
    intro j
    show 10 ^ j * (unitsPerOne * 10 ^ e.toNat) * 10 ^ w = _
    rw [Nat.pow_add, Nat.pow_add, Nat.mul_left_comm, Nat.mul_assoc, Nat.mul_comm]
  have hpow : 0 < 10 ^ w := Nat.pow_pos (by decide)
  constructor
  · refine Nat.le_of_mul_le_mul_right ?_ hpow
    calc 10 ^ k * gridDen e * 10 ^ w
        = 10 ^ (k + e.toNat + w) * unitsPerOne := hgrid k
      _ = 10 ^ ((Nat.toDigits 10 n).length - 1) * unitsPerOne * 10 ^ (-e).toNat := by
          rw [hplaces, Nat.pow_add, Nat.mul_right_comm]
      _ ≤ n * unitsPerOne * 10 ^ (-e).toNat :=
          Nat.mul_le_mul_right _ (Nat.mul_le_mul_right _ hlow)
      _ ≤ u * 10 ^ w * 10 ^ (-e).toNat := Nat.mul_le_mul_right _ hbelow
      _ = gridNum u e * 10 ^ w := Nat.mul_right_comm _ _ _
  · refine Nat.lt_of_mul_lt_mul_right (a := 10 ^ w) ?_
    calc gridNum u e * 10 ^ w
        = u * 10 ^ w * 10 ^ (-e).toNat := Nat.mul_right_comm _ _ _
      _ < (n + 1) * unitsPerOne * 10 ^ (-e).toNat :=
          Nat.mul_lt_mul_of_pos_right habove (Nat.pow_pos (by decide))
      _ ≤ 10 ^ (Nat.toDigits 10 n).length * unitsPerOne * 10 ^ (-e).toNat :=
          Nat.mul_le_mul_right _ (Nat.mul_le_mul_right _ hhigh)
      _ = 10 ^ (k + 1 + e.toNat + w) * unitsPerOne := by
          rw [show k + 1 + e.toNat + w = (Nat.toDigits 10 n).length + (-e).toNat from by omega,
            Nat.pow_add, Nat.mul_right_comm]
      _ = 10 ^ (k + 1) * gridDen e * 10 ^ w := (hgrid (k + 1)).symm

/-- The distance from a magnitude to the next one below it. -/
theorem unitsOfRank_succ_le (q : Nat) :
    unitsOfRank (q + 1) ≤ 2 * binade * (unitsOfRank (q + 1) - unitsOfRank q) := by
  obtain ⟨s, m, rfl, hm, hs⟩ : ∃ s m, q = binade * s + m ∧ m + 1 ≤ 2 * binade ∧
      (s = 0 ∨ binade ≤ m) := by
    have hsplit := Nat.div_add_mod q binade
    have hmod := Nat.mod_lt q (show 0 < binade by decide)
    rcases Nat.eq_zero_or_pos (q / binade) with hzero | hpos
    · exact ⟨0, q, by omega, by rw [hzero] at hsplit; omega, .inl rfl⟩
    · obtain ⟨s, hs⟩ := Nat.exists_eq_succ_of_ne_zero (Nat.ne_of_gt hpos)
      rw [hs, Nat.mul_succ] at hsplit
      exact ⟨s, binade + q % binade, by omega, by omega, .inr (by omega)⟩
  rw [Nat.add_assoc, unitsOfRank_binade hm (hs.imp_right Nat.le_succ_of_le),
    unitsOfRank_binade (Nat.le_of_succ_le hm) hs, ← Nat.sub_mul, Nat.add_sub_cancel_left, Nat.one_mul]
  exact Nat.mul_le_mul_right _ hm

/-- Any other magnitude is farther away than a part in `2 ^ 53`. -/
theorem unitsOfRank_le_mul_dist {r q : Nat} (hne : q ≠ r) :
    unitsOfRank r ≤ 2 * binade * Nat.dist (unitsOfRank q) (unitsOfRank r) := by
  unfold Nat.dist
  rcases Nat.lt_or_gt_of_ne hne with hlt | hgt
  · obtain ⟨p, rfl⟩ : ∃ p, r = p + 1 := ⟨r - 1, by omega⟩
    have hbelow := unitsOfRank_mono (Nat.le_of_lt_succ hlt)
    refine Nat.le_trans (unitsOfRank_succ_le p) (Nat.mul_le_mul_left _ ?_)
    omega
  · have habove := unitsOfRank_mono (show r + 1 ≤ q from hgt)
    have hnext := unitsOfRank_mono (Nat.le_succ r)
    refine Nat.le_trans (Nat.le_trans hnext (unitsOfRank_succ_le r)) (Nat.mul_le_mul_left _ ?_)
    omega

/-- Seventeen digits tell a magnitude from all others. -/
theorem exists_rank_seventeen {r : Nat} (hpos : 0 < r) :
    ∃ c, Decimal.rank ⟨c, decimalExponent (unitsOfRank r) - (16 : Nat)⟩ = r := by
  generalize he : decimalExponent (unitsOfRank r) - (16 : Nat) = e
  obtain ⟨hlow, -⟩ := gridNum_bounds (unitsOfRank_pos hpos) (k := 16) he.symm
  have hc := two_mul_dist_roundDiv_le (gridNum (unitsOfRank r) e) (gridDen_pos e)
  generalize roundDiv .even (gridNum (unitsOfRank r) e) (gridDen e) = c at hc
  refine ⟨c, Classical.byContradiction fun hne => ?_⟩
  have hnear := (Decimal.isNearest_rank ⟨c, e⟩).nearest r
  rw [num_eq_grid, den_eq_grid, den_eq_grid] at hnear
  -- Both the number and the magnitude that is read are half a step from the decimal.
  have hclose : Nat.dist (gridNum (unitsOfRank (Decimal.rank ⟨c, e⟩)) e)
      (gridNum (unitsOfRank r) e) ≤ gridDen e := by
    unfold Nat.dist at hc hnear ⊢
    omega
  have hfar : gridNum (unitsOfRank r) e ≤ 2 * binade *
      Nat.dist (gridNum (unitsOfRank (Decimal.rank ⟨c, e⟩)) e) (gridNum (unitsOfRank r) e) := by
    unfold gridNum
    rw [Nat.dist_mul_right, ← Nat.mul_assoc]
    exact Nat.mul_le_mul_right _ (unitsOfRank_le_mul_dist hne)
  have hsteps : 10 ^ 16 * gridDen e ≤ 2 * binade * gridDen e :=
    Nat.le_trans hlow (Nat.le_trans hfar (Nat.mul_le_mul_left _ hclose))
  exact absurd (Nat.le_of_mul_le_mul_right hsteps (gridDen_pos e)) (by decide)

/-! ## The search -/

/-- A search ends no later than at a place where something is found. -/
theorem findSome?_range {α : Type} {f : Nat → Option α} {j n : Nat} {x : α} (hj : j < n)
    (h : f j = some x) :
    ∃ k y, k ≤ j ∧ f k = some y ∧ (List.range n).findSome? f = some y := by
  induction n with
  | zero => omega
  | succ n ih =>
    rw [List.range_succ, List.findSome?_append]
    rcases Nat.lt_or_eq_of_le (Nat.le_of_lt_succ hj) with hlt | rfl
    · obtain ⟨k, y, hk, hfk, hfound⟩ := ih hlt
      exact ⟨k, y, hk, hfk, by rw [hfound]; rfl⟩
    · cases hfirst : (List.range j).findSome? f with
      | none => exact ⟨j, x, Nat.le_refl j, h, by simp [h]⟩
      | some y =>
        obtain ⟨k, hk, hfk⟩ := List.exists_of_findSome?_eq_some hfirst
        exact ⟨k, y, Nat.le_of_lt (List.mem_range.1 hk), hfk, rfl⟩

section

variable {r : Nat} (hpos : 0 < r) (hr : r < topRank)

include hr in
/-- The shortest decimal is found on the first grid with a decimal that is read as the number. -/
theorem exists_shortest {k c : Nat} (hk : k < 17)
    (h : Decimal.rank ⟨c, decimalExponent (unitsOfRank r) - k⟩ = r) :
    ∃ j d, j ≤ k ∧ shortestOn? r (decimalExponent (unitsOfRank r) - (j : Nat)) = some d ∧
      shortest r = d.normalize := by
  obtain ⟨d, hd⟩ := exists_shortestOn? hr h
  obtain ⟨j, d', hj, hd', hfound⟩ :=
    findSome?_range (f := fun (k : Nat) => shortestOn? r (decimalExponent (unitsOfRank r) - k)) hk hd
  refine ⟨j, d', hj, hd', ?_⟩
  rw [shortest, hfound]
  rfl

include hpos hr in
theorem length_normalize_le {j : Nat} {d : Decimal}
    (h : shortestOn? r (decimalExponent (unitsOfRank r) - j) = some d) :
    d.normalize.digits.length ≤ j + 1 := by
  have hhigh := (gridNum_bounds (unitsOfRank_pos hpos) (k := j) rfl).2
  exact Decimal.length_digits_normalize_le (Nat.succ_pos j) (coeff_le_of_shortestOn? hr h hhigh)

include hpos in
/-- A decimal with `n` digits that is read as the number can be replaced by one on a grid with at
    most `n` digits: if their first digits do not stand at the same place, then a power of ten
    lies between the two. -/
theorem exists_rank_grid {d : Decimal} (h : d.rank = r) :
    ∃ k c, k < d.digits.length ∧
      Decimal.rank ⟨c, decimalExponent (unitsOfRank r) - (k : Nat)⟩ = r ∧
      Decimal.AsNear (unitsOfRank r) ⟨c, decimalExponent (unitsOfRank r) - (k : Nat)⟩ d := by
  obtain ⟨hlow, hhigh⟩ := gridNum_bounds (unitsOfRank_pos hpos) (k := 0) rfl
  have hlength : 0 < d.digits.length := Nat.length_toDigits_pos
  have hc : d.coeff ≠ 0 := by
    intro hzero
    rw [Decimal.rank_of_coeff_eq_zero hzero] at h
    omega
  rcases Int.lt_trichotomy (d.point - 1) (decimalExponent (unitsOfRank r)) with hlt | heq | hgt
  · have hbetween : d.AtMost ⟨Nat.pow 10 0, decimalExponent (unitsOfRank r) - (0 : Nat)⟩ :=
      d.atMost_pow (by omega)
    refine ⟨0, Nat.pow 10 0, hlength, ?_, hbetween.asNear_of_ge ?_⟩
    · exact Nat.le_antisymm (rank_le_of_grid hlow)
        (Nat.le_trans (Nat.le_of_eq h.symm) hbetween.rank_le)
    · rewrite [num_eq_grid, den_eq_grid]
      exact hlow
  · have hexp : decimalExponent (unitsOfRank r) - (d.digits.length - 1 : Nat) = d.exp := by
      unfold Decimal.point at heq
      omega
    refine ⟨d.digits.length - 1, d.coeff, by omega, ?_, ?_⟩
    · rw [hexp]
      exact h
    · rw [hexp]
      exact Decimal.AsNear.refl _ d
  · have hbetween : Decimal.AtMost ⟨Nat.pow 10 1, decimalExponent (unitsOfRank r) - (0 : Nat)⟩ d :=
      Decimal.pow_atMost hc (by omega)
    refine ⟨0, Nat.pow 10 1, hlength, ?_, hbetween.asNear_of_le ?_⟩
    · exact Nat.le_antisymm (Nat.le_trans hbetween.rank_le (Nat.le_of_eq h))
        (le_rank_of_grid (Nat.le_of_lt hhigh))
    · rewrite [num_eq_grid, den_eq_grid]
      exact Nat.le_of_lt hhigh

end

end Double

/-- The decimal is read as the magnitude, none that is read so has fewer digits, and of those
    that have as few none is nearer to it. -/
structure Decimal.IsShortest (rank : Nat) (d : Decimal) : Prop where
  reads : d.rank = rank
  fewest : ∀ d' : Decimal, d'.rank = rank → d.digits.length ≤ d'.digits.length
  nearest : ∀ d' : Decimal, d'.rank = rank → d'.digits.length = d.digits.length →
    AsNear (Double.unitsOfRank rank) d d'

namespace Double

theorem isShortest_shortest {r : Nat} (hpos : 0 < r) (hr : r < topRank) :
    (shortest r).IsShortest r := by
  have hseventeen : (shortest r).digits.length ≤ 17 := by
    obtain ⟨c, hc⟩ := exists_rank_seventeen hpos
    obtain ⟨j, d, hj, hd, heq⟩ := exists_shortest hr (k := 16) (by decide) hc
    rw [heq]
    exact Nat.le_trans (length_normalize_le hpos hr hd) (Nat.succ_le_succ hj)
  refine ⟨?_, fun d' h => ?_, fun d' h hlength => ?_⟩
  · exact rank_of_ofDecimal (ofDecimal_shortest hpos hr false).2
  · obtain ⟨k, c, hk, hc, -⟩ := exists_rank_grid hpos h
    rcases Nat.lt_or_ge k 17 with hfew | hmany
    · obtain ⟨j, d, hj, hd, heq⟩ := exists_shortest hr hfew hc
      have hle := length_normalize_le hpos hr hd
      rw [heq]
      omega
    · omega
  · obtain ⟨k, c, hk, hc, hnear⟩ := exists_rank_grid hpos h
    obtain ⟨j, d, hj, hd, heq⟩ := exists_shortest hr (by omega) hc
    have hle := length_normalize_le hpos hr hd
    rw [heq] at hlength ⊢
    obtain rfl : j = k := by omega
    exact (Decimal.asNear_normalize _ d).trans ((asNear_of_shortestOn? hr hd hc).trans hnear)

/-! ## Constants -/

/-- The text of a number as a constant stands for this number only. -/
structure SurvivesPool (x : Double) : Prop where
  /-- The machine pushes the number where its text is in the pool. -/
  pushed : ∀ (env : Environment) (p : Program) (pc : Nat) (i : Instruction) (c : Context),
    i.opcode? = some .pushFloat → p.strings[i.index.toNat]? = some x.constantText →
      Machine.exec env p pc i c = .next 0 (c.push env (.float x))
  distinct : ∀ y : Double, y.constantText = x.constantText → y = x
  shortest : ∀ neg r h, x = .finite neg r h → 0 < r →
    ∃ d : Decimal, x.constantText = signText neg ++ d.text Decimal.plain ∧ d.IsShortest r

theorem survivesPool (x : Double) : x.SurvivesPool := by
  refine ⟨?_, fun y h => constantText_inj h, ?_⟩
  · intro env p pc i c hop hstring
    simp only [Machine.exec, hop, hstring, Option.elim, toDouble_constantText]
  · rintro neg r h rfl hpos
    have hzero : Double.finite neg r h ≠ zero true :=
      fun heq => Nat.ne_of_gt hpos (Double.finite.inj heq).2
    refine ⟨Double.shortest r, ?_, isShortest_shortest hpos h⟩
    rw [constantText, if_neg hzero]
    exact if_neg (Nat.ne_of_gt hpos)

/-- The number is the decimal, rounded to the nearest one, to infinity beyond the greatest. -/
def IsRounded (neg : Bool) (d : Decimal) (x : Double) : Prop :=
  ∃ r, x = ofRank neg r ∧ IsNearest (d.num * unitsPerOne) d.den r

/-- Every number comes through the string pool, written with the fewest digits that can be read
    back, because every decimal is read as the number nearest to it. -/
theorem constants_survive :
    (∀ x : Double, x.SurvivesPool) ∧
      ∀ neg (d : Decimal), d.coeff ≠ 0 →
        IsRounded neg d (signText neg ++ d.text Decimal.plain : Text).toDouble := by
  refine ⟨survivesPool, fun neg d hc => ⟨d.rank, ?_, d.isNearest_rank⟩⟩
  rw [Decimal.toDouble_text neg hc, ofDecimal_eq_ofRank]

end Double

end Reckon
