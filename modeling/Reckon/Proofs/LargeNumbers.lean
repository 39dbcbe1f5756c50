-- SUMMARY: Large numbers in the general format: which of their texts read back, and what the others denote.
import Reckon.Proofs.GeneralFormat

/-!
# Large numbers

From `10 ^ 21` on, the text of a number with fixed places is its plain text, and
this has an exponent. Such a number is whole, so as many significant digits as it
has digits before the point give its exact value, and the general format writes
it with fixed places. If the text has a point, then the zeros that are dropped
from its end are those of the exponent: the text reads back unless the exponent
ends in a zero.
-/

namespace Reckon

namespace Decimal

variable {d : Decimal} {r : ℕ}

/-- More than one digit is needed only where the first stands at the place of that of the number:
    otherwise a power of ten lies between the two. -/
theorem IsShortest.point_eq (h : d.IsShortest r) (hpos : 0 < r) (hlen : 1 < d.digits.length) :
    d.point - 1 = Double.decimalExponent (Double.unitsOfRank r) := by
  obtain ⟨hlow, hhigh⟩ := Double.gridNum_bounds (Double.unitsOfRank_pos hpos) (k := 0) rfl
  have hc : d.coeff ≠ 0 := by
    intro hzero
    have hrank := h.reads
    rw [rank_of_coeff_eq_zero hzero] at hrank
    omega
  have hone : ∀ e, rank ⟨1, e⟩ ≠ r := by
    intro e hrank
    have hdigit : (digits ⟨1, e⟩).length ≤ 1 :=
      (Nat.length_toDigits_le_iff (by decide) (by decide)).2 (by decide : 1 < 10 ^ 1)
    have hfew := h.fewest _ hrank
    omega
  generalize he : Double.decimalExponent (Double.unitsOfRank r) - (0 : ℕ) = e at hlow hhigh
  have hten : rank ⟨10, e⟩ ≠ r := by
    have hvalue := num_mul_den_succ 1 e
    rw [Nat.le_antisymm (AtMost.rank_le (Nat.le_of_eq hvalue.symm))
      (AtMost.rank_le (Nat.le_of_eq hvalue))]
    exact hone (e + 1)
  rcases Int.lt_trichotomy (d.point - 1) e with hlt | heq | hgt
  · have hbetween : d.AtMost ⟨Nat.pow 10 0, e⟩ := d.atMost_pow (by omega)
    exact absurd (Nat.le_antisymm (Double.rank_le_of_grid hlow)
      (Nat.le_trans (Nat.le_of_eq h.reads.symm) hbetween.rank_le)) (hone e)
  · omega
  · have hbetween : AtMost ⟨Nat.pow 10 1, e⟩ d := pow_atMost hc (by omega)
    exact absurd (Nat.le_antisymm (Nat.le_trans hbetween.rank_le (Nat.le_of_eq h.reads))
      (Double.le_rank_of_grid (Nat.le_of_lt hhigh))) hten

end Decimal

namespace Double

/-- From `10 ^ 21` on, numbers are whole. -/
theorem unitsPerOne_dvd {r : ℕ} (h : fixedLimit * unitsPerOne ≤ unitsOfRank r) :
    unitsPerOne ∣ unitsOfRank r := by
  obtain ⟨w, hone⟩ : ∃ w, unitsPerOne = Nat.pow 2 w := ⟨1074, by decide +kernel⟩
  have hlimit : 2 * binade ≤ fixedLimit := by decide
  have hsmall : ∀ m s, m < 2 * binade → s ≤ w → m * 2 ^ s < fixedLimit * unitsPerOne := by
    intro m s hm hs
    calc m * 2 ^ s < 2 * binade * 2 ^ s := Nat.mul_lt_mul_of_pos_right hm (Nat.two_pow_pos s)
      _ ≤ fixedLimit * 2 ^ w := Nat.mul_le_mul hlimit (Nat.pow_le_pow_right (by decide) hs)
      _ = fixedLimit * unitsPerOne := by rw [hone, Nat.pow_eq]
  have hmod := Nat.mod_lt r (show 0 < binade by decide)
  unfold unitsOfRank at h ⊢
  split at h
  next hr =>
    have hlt := hsmall r 0 (by omega) (Nat.zero_le w)
    omega
  next hr =>
    rw [if_neg hr, Nat.pow_eq] at *
    rcases Nat.lt_or_ge (r / binade - 1) w with hlt | hge
    · exact absurd h (Nat.not_le.2 (hsmall _ _ (by omega) (Nat.le_of_lt hlt)))
    · rw [hone]
      exact Dvd.dvd.mul_left (Nat.pow_dvd_pow 2 hge) _

theorem exists_magnitude_eq {r : ℕ} (h : fixedLimit * unitsPerOne ≤ unitsOfRank r) :
    ∃ n : ℕ, magnitude (unitsOfRank r) = n := by
  obtain ⟨n, hn⟩ := unitsPerOne_dvd h
  refine ⟨n, ?_⟩
  rw [magnitude, hn, Nat.cast_mul,
    mul_div_cancel_left₀ _ (Nat.cast_ne_zero.2 (Nat.ne_of_gt unitsPerOne_pos))]

/-- A whole number does not change if all its digits are significant. -/
theorem roundSignificant_whole {u n p : ℕ} (hu : 0 < u) (hn : magnitude u = n)
    (hp : decimalExponent u < p) (hp' : 0 < p) : roundSignificant p (magnitude u) = magnitude u := by
  obtain ⟨k, rfl⟩ : ∃ k, p = k + 1 := ⟨p - 1, by omega⟩
  obtain ⟨j, hj⟩ : ∃ j : ℕ, decimalExponent u - k = -(j : ℤ) :=
    ⟨(k - decimalExponent u).toNat, by omega⟩
  have hsteps : (n : ℚ) / 10 ^ (-(j : ℤ)) = (n * 10 ^ j : ℕ) := by
    rw [zpow_neg, div_inv_eq_mul, zpow_natCast]
    push_cast
    rfl
  rw [roundSignificant_magnitude hu, hj, hn, hsteps, round_natCast, Int.cast_natCast, ← hsteps,
    div_mul_cancel₀ _ (ten_zpow_pos _).ne']

/-- So the first digit stays where it is. -/
theorem point_significant {r p : ℕ} (hr : 0 < r) (h : fixedLimit * unitsPerOne ≤ unitsOfRank r)
    (hp : decimalExponent (unitsOfRank r) < p) (hp' : 0 < p) :
    (significant (unitsOfRank r) p).point - 1 = decimalExponent (unitsOfRank r) := by
  have hu := unitsOfRank_pos hr
  have hd := isSignificant_significant hu hp'
  obtain ⟨n, hn⟩ := exists_magnitude_eq h
  rw [← hd.log_value hp', hd.value_eq, roundSignificant_whole hu hn hp hp', log_magnitude hu]

/-- The general format writes the plain text, without the zeros at its end. -/
theorem general_plain {neg : Bool} {r : ℕ} {h : r < topRank} (hr : 0 < r)
    (hlimit : fixedLimit * unitsPerOne ≤ unitsOfRank r) {p : ℕ}
    (hp : decimalExponent (unitsOfRank r) < p) (hp' : p ≤ 100) :
    general p (.finite neg r h) =
      .ok (signText neg ++ dropFractionZeros ((shortest r).text Decimal.plain)) := by
  have hlow := (fixedLimit_le_iff (unitsOfRank_pos hr)).1 hlimit
  have hpoint := point_significant hr hlimit hp (by omega)
  generalize hd : significant (unitsOfRank r) p = d at hpoint
  rw [← hpoint] at hlow hp
  have hplaces : p - d.point ≤ maxPlaces := by
    rw [maxPlaces]
    omega
  rw [general_fixed (Nat.ne_of_gt hr) (by omega) (by omega) hd (by omega) hp hplaces, fixedText,
    if_pos hlimit]

/-- Decimals below `10 ^ 20` are read as smaller numbers. -/
theorem rank_lt_of_point_le {d : Decimal} {r : ℕ}
    (hlimit : fixedLimit * unitsPerOne ≤ unitsOfRank r) (hpoint : d.point ≤ 20) : d.rank < r := by
  have hbelow : d.AtMost ⟨Nat.pow 10 0, 20⟩ := d.atMost_pow (by omega)
  have hstep : Decimal.rank ⟨Nat.pow 10 0, 20⟩ < Decimal.rank ⟨1, 21⟩ := by decide +kernel
  have habove : Decimal.rank ⟨1, 21⟩ ≤ r := by
    have hden : gridDen 21 = unitsPerOne * fixedLimit :=
      congrArg (unitsPerOne * ·) (by decide : Nat.pow 10 (21 : ℤ).toNat = fixedLimit)
    have hnum : gridNum (unitsOfRank r) 21 = unitsOfRank r := Nat.mul_one _
    apply rank_le_of_grid
    rewrite [Nat.one_mul, hden, hnum, Nat.mul_comm]
    exact hlimit
  exact Nat.lt_of_le_of_lt hbelow.rank_le (Nat.lt_of_lt_of_le hstep habove)

/-! ## The zeros that are dropped -/

theorem point_not_mem_digits (d : Decimal) :
    Text.unit '.' ∉ d.digits.map Text.unit :=
  point_not_mem fun _ hu => Decimal.isDigit_of_mem_digits hu

theorem units_exponent_natCast (n : ℕ) : (Decimal.exponent 1 n).units =
    Text.unit 'e' :: Text.unit '+' :: (Nat.toDigits 10 n).map Text.unit := by
  have hneg : ¬ (n : ℤ) < 0 := by omega
  rw [Decimal.units_exponent, decide_eq_false hneg]
  rfl

theorem not_mem_exponent (n : ℕ) : Text.unit '.' ∉ (Decimal.exponent 1 n).units := by
  have hdigits := point_not_mem fun u => Decimal.isDigit_of_mem_digits (n := n) (u := u)
  rw [units_exponent_natCast]
  simp only [List.mem_cons, not_or]
  exact ⟨by decide, by decide, hdigits⟩

/-- The last digit of an exponent of two digits is dropped if it is a zero. -/
def trimmedExponent (n : ℕ) : ℕ := if n % 10 = 0 then n / 10 else n

theorem rdropWhile_exponent (us : List UInt16) {n : ℕ} (hlow : 10 ≤ n) (hhigh : n < 100) :
    (us ++ (Decimal.exponent 1 n).units).rdropWhile (· = Text.unit '0') =
      us ++ (Decimal.exponent 1 (trimmedExponent n)).units := by
  have hzero : ∀ k < 10, Text.unit k.digitChar = Text.unit '0' ↔ k = 0 := by decide
  have hfirst : Nat.toDigits 10 (n / 10) = [(n / 10).digitChar] :=
    Nat.toDigits_of_lt_base (by omega)
  have hdigits : Nat.toDigits 10 n = [(n / 10).digitChar, (n % 10).digitChar] := by
    rw [Nat.toDigits_of_base_le (by decide) hlow, hfirst]
    rfl
  have hunits : us ++ (Decimal.exponent 1 n).units =
      us ++ [Text.unit 'e', Text.unit '+'] ++ [Text.unit (n / 10).digitChar] ++
        [Text.unit (n % 10).digitChar] := by
    simp [units_exponent_natCast, hdigits]
  rw [hunits, trimmedExponent]
  by_cases hlast : n % 10 = 0
  · have hkeep : ¬ decide (Text.unit (n / 10).digitChar = Text.unit '0') = true := by
      rw [decide_eq_true_eq, hzero _ (by omega)]
      omega
    have hdrop : decide (Text.unit (n % 10).digitChar = Text.unit '0') = true := by
      rw [hlast]
      rfl
    rw [List.rdropWhile_concat_pos (· = Text.unit '0') _ _ hdrop,
      List.rdropWhile_concat_neg (· = Text.unit '0') _ _ hkeep, if_pos hlast, units_exponent_natCast,
      hfirst]
    simp
  · have hkeep : ¬ decide (Text.unit (n % 10).digitChar = Text.unit '0') = true := by
      rwa [decide_eq_true_eq, hzero _ (by omega)]
    rw [List.rdropWhile_concat_neg (· = Text.unit '0') _ _ hkeep, if_neg hlast, ← hunits]

/-- Behind a point, the zero at the end of the exponent is dropped. -/
theorem dropFractionZeros_pointed {d : Decimal} (hlen : 1 < d.digits.length) {n : ℕ}
    (hlow : 10 ≤ n) (hhigh : n < 100) :
    dropFractionZeros (Decimal.pointed d.digits ++ Decimal.exponent 1 n) =
      Decimal.pointed d.digits ++ Decimal.exponent 1 (trimmedExponent n) := by
  have hds := point_not_mem_digits d
  obtain ⟨c, c', cs, hcs⟩ : ∃ c c' cs, d.digits = c :: c' :: cs := by
    match hcs : d.digits, hlen with
    | c :: c' :: cs, _ => exact ⟨c, c', cs, rfl⟩
  rw [hcs] at hds ⊢
  have hus : Text.unit '.' ∉ (c' :: cs).map Text.unit ++ (Decimal.exponent 1 n).units := by
    rw [List.mem_append]
    exact fun hmem => hmem.elim (fun hmem => hds (List.mem_cons_of_mem _ hmem)) (not_mem_exponent n)
  refine (dropFractionZeros_point [Text.unit c] hus).trans ?_
  rw [rdropWhile_exponent _ hlow hhigh, if_neg (by simp)]
  rfl

theorem dropFractionZeros_text {d : Decimal} (hlen : d.digits.length = 1) (hpoint : 20 < d.point) :
    dropFractionZeros (d.text Decimal.plain) = d.text Decimal.plain := by
  have hds := point_not_mem_digits d
  refine if_neg ?_
  unfold Decimal.text
  split
  · have hexp : 0 ≤ d.exp := by
      rw [Decimal.point, hlen] at hpoint
      omega
    have hzeros := point_not_mem fun u => Decimal.isDigit_of_mem_zeros (k := d.exp.toNat) (u := u)
    rw [Decimal.positional, if_pos hexp, List.mem_append]
    exact fun hmem => hmem.elim hds hzeros
  · obtain ⟨n, hn⟩ : ∃ n : ℕ, d.point - 1 = n := ⟨(d.point - 1).toNat, by omega⟩
    obtain ⟨c, hc⟩ := List.length_eq_one_iff.1 hlen
    rw [hc] at hds
    rw [hc, hn, Text.units_append, List.mem_append]
    exact fun hmem => hmem.elim hds (not_mem_exponent n)

/-- What is left of a plain text. -/
theorem dropFractionZeros_shortest {d : Decimal} {r : ℕ} (hd : d.IsShortest r) (hr : 0 < r)
    (hlimit : fixedLimit * unitsPerOne ≤ unitsOfRank r)
    (hhigh : decimalExponent (unitsOfRank r) < 100) :
    dropFractionZeros (d.text Decimal.plain) =
      if d.digits.length = 1 ∨ (d.point - 1) % 10 ≠ 0 then d.text Decimal.plain
      else Decimal.pointed d.digits ++ Decimal.exponent 1 ((d.point - 1) / 10) := by
  by_cases hlen : d.digits.length = 1
  · have hpoint : 20 < d.point := by
      apply Int.not_le.1
      intro hle
      exact Nat.ne_of_lt (rank_lt_of_point_le hlimit hle) hd.reads
    rw [if_pos (.inl hlen), dropFractionZeros_text hlen hpoint]
  · have hpos : 0 < d.digits.length := Nat.length_toDigits_pos
    have hmore : 1 < d.digits.length := by omega
    have hlow := (fixedLimit_le_iff (unitsOfRank_pos hr)).1 hlimit
    rw [← hd.point_eq hr hmore] at hlow hhigh
    obtain ⟨n, hn⟩ : ∃ n : ℕ, d.point - 1 = n := ⟨(d.point - 1).toNat, by omega⟩
    have htext : d.text Decimal.plain = Decimal.pointed d.digits ++ Decimal.exponent 1 n := by
      rw [← hn]
      exact if_neg fun hplain => absurd hplain.2 (by change ¬ d.point ≤ 21; omega)
    rw [htext, dropFractionZeros_pointed hmore (by omega) (by omega), trimmedExponent, hn]
    by_cases hlast : n % 10 = 0
    · rw [if_pos hlast, if_neg (not_or.2 ⟨hlen, by omega⟩), Int.natCast_ediv]
      rfl
    · rw [if_neg hlast, if_pos (.inr (by omega))]

/-! ## Reading back -/

theorem toDouble_pointed (neg : Bool) (d : Decimal) (e : ℤ) :
    (signText neg ++ (Decimal.pointed d.digits ++ Decimal.exponent 1 e) : Text).toDouble =
      ofRank neg (Decimal.rank ⟨d.coeff, e + 1 - d.digits.length⟩) := by
  have hpoint : Decimal.point ⟨d.coeff, e + 1 - d.digits.length⟩ - 1 = e := by
    change (d.digits.length : ℤ) + (e + 1 - d.digits.length) - 1 = e
    omega
  have hread := Decimal.decimal?_pointed neg ⟨d.coeff, e + 1 - d.digits.length⟩
  rw [hpoint] at hread
  rw [← ofDecimal_eq_ofRank]
  exact Decimal.toDouble_written neg (Decimal.written_pointed d e) hread

/-- Without its last digit, the exponent is that of a smaller number. -/
theorem toDouble_trimmed_ne {neg : Bool} {r : ℕ} {h : r < topRank}
    (hlimit : fixedLimit * unitsPerOne ≤ unitsOfRank r) (d : Decimal) {e : ℤ} (he : e ≤ 9) :
    (signText neg ++ (Decimal.pointed d.digits ++ Decimal.exponent 1 e) : Text).toDouble ≠
      .finite neg r h := by
  have hpoint : Decimal.point ⟨d.coeff, e + 1 - d.digits.length⟩ ≤ 20 := by
    change (d.digits.length : ℤ) + (e + 1 - d.digits.length) ≤ 20
    omega
  have hlt := rank_lt_of_point_le hlimit hpoint
  rw [toDouble_pointed, ofRank_of_lt (Nat.lt_trans hlt h)]
  intro heq
  exact Nat.ne_of_lt hlt (Double.finite.inj heq).2

/-- A number from `10 ^ 21` on, with all its digits significant, reads back from the general format
    unless its plain text has a point and an exponent that ends in a zero. Then the zero is lost. -/
theorem toDouble_general_iff {neg : Bool} {r : ℕ} {h : r < topRank} {p : ℕ}
    (hlarge : 10 ^ 21 ≤ magnitude (unitsOfRank r))
    (hp : Int.log 10 (magnitude (unitsOfRank r)) < p) (hp' : p ≤ 100) :
    ∃ (d : Decimal) (t : Text), d.IsShortest r ∧
      (Double.finite neg r h).text = signText neg ++ d.text Decimal.plain ∧
      (Double.finite neg r h).general p = .ok t ∧
      (t.toDouble = .finite neg r h ↔ d.digits.length = 1 ∨ (d.point - 1) % 10 ≠ 0) ∧
      t = if d.digits.length = 1 ∨ (d.point - 1) % 10 ≠ 0 then (Double.finite neg r h).text
        else signText neg ++ (Decimal.pointed d.digits ++ Decimal.exponent 1 ((d.point - 1) / 10)) := by
  have hr : 0 < r := by
    apply Nat.pos_of_ne_zero
    rintro rfl
    norm_num [magnitude_unitsOfRank_zero] at hlarge
  have hu := unitsOfRank_pos hr
  rw [log_magnitude hu] at hp
  have hlimit := le_magnitude_iff.1 hlarge
  have hshort := isShortest_shortest hr h
  have htext : (Double.finite neg r h).text = signText neg ++ (shortest r).text Decimal.plain :=
    if_neg (Nat.ne_of_gt hr)
  obtain ⟨hc, hread⟩ := ofDecimal_shortest hr h neg
  have hback := Decimal.toDouble_text neg hc
  rw [hread, ← htext] at hback
  refine ⟨shortest r, _, hshort, htext, general_plain hr hlimit hp hp', ?_⟩
  rw [dropFractionZeros_shortest hshort hr hlimit (by omega)]
  generalize shortest r = d at hshort htext ⊢
  split
  next hkeep => exact ⟨iff_of_true (htext ▸ hback) hkeep, htext.symm⟩
  next hdrop =>
    obtain ⟨hlen, -⟩ := not_or.1 hdrop
    have hpos : 0 < d.digits.length := Nat.length_toDigits_pos
    have hexp := hshort.point_eq hr (by omega)
    exact ⟨iff_of_false (toDouble_trimmed_ne hlimit d (by omega)) hdrop, rfl⟩

/-- The rank of `1.5e30`. -/
def thirtyRank : ℕ := 5058367852427897263

theorem thirtyRank_lt : thirtyRank < topRank := by decide

theorem le_magnitude_thirty : 10 ^ 21 ≤ magnitude (unitsOfRank thirtyRank) :=
  le_magnitude_iff.2 (by decide +kernel)

theorem log_magnitude_thirty : Int.log 10 (magnitude (unitsOfRank thirtyRank)) < (40 : ℕ) := by
  rw [log_magnitude (by decide +kernel)]
  decide +kernel

/-- Of the exponent 30, the zero is lost: the text is that of `1500`. -/
theorem toDouble_general_thirty :
    (Double.finite false thirtyRank thirtyRank_lt).text = "1.5e+30" ∧
      (Double.finite false thirtyRank thirtyRank_lt).general (40 : ℕ) = .ok "1.5e+3" ∧
      ("1.5e+3" : Text).toDouble = ofNat 1500 ∧
      ∃ (d : Decimal) (t : Text), d.IsShortest thirtyRank ∧
        (Double.finite false thirtyRank thirtyRank_lt).text =
          signText false ++ d.text Decimal.plain ∧
        (Double.finite false thirtyRank thirtyRank_lt).general (40 : ℕ) = .ok t ∧
        (t.toDouble = .finite false thirtyRank thirtyRank_lt ↔
          d.digits.length = 1 ∨ (d.point - 1) % 10 ≠ 0) ∧
        t = if d.digits.length = 1 ∨ (d.point - 1) % 10 ≠ 0 then
            (Double.finite false thirtyRank thirtyRank_lt).text
          else signText false ++
            (Decimal.pointed d.digits ++ Decimal.exponent 1 ((d.point - 1) / 10)) :=
  ⟨by decide +kernel, by decide +kernel, by decide +kernel,
    toDouble_general_iff le_magnitude_thirty log_magnitude_thirty (by decide)⟩

end Double

end Reckon
