-- SUMMARY: Rounding to a double keeps the order, and a whole number is rounded to a safe one exactly if it is safe itself.
import Reckon.Proofs.Rounding

/-!
# Whole numbers

Rounding to the nearest magnitude keeps the order of what is rounded. Whole
numbers below `2^53` are magnitudes, so they are rounded to themselves. A greater
one may be changed, but is never rounded to one below `2^53`. So whether a whole
number is safe can be told from the number that it is rounded to.
-/

namespace Reckon

/-! ## Quotients -/

variable {tie : Tie} {num num' den : Nat}

theorem div_le_roundDiv : num / den ≤ roundDiv tie num den := by
  unfold roundDiv
  split
  · exact Nat.le_refl _
  · exact Nat.le_succ _
  · cases tie
    · exact Nat.le_add_right _ _
    · exact Nat.le_succ _

theorem roundDiv_le_succ : roundDiv tie num den ≤ num / den + 1 := by
  unfold roundDiv
  split
  · exact Nat.le_succ _
  · exact Nat.le_refl _
  · cases tie
    · exact Nat.add_le_add_left (Nat.le_of_lt_succ (Nat.mod_lt _ (by decide))) _
    · exact Nat.le_refl _

theorem roundDiv_of_lt (h : 2 * (num % den) < den) : roundDiv tie num den = num / den := by
  unfold roundDiv
  rw [Nat.compare_eq_lt.2 h]

theorem roundDiv_of_gt (h : den < 2 * (num % den)) : roundDiv tie num den = num / den + 1 := by
  unfold roundDiv
  rw [Nat.compare_eq_gt.2 h]

theorem roundDiv_mono (h : num ≤ num') : roundDiv tie num den ≤ roundDiv tie num' den := by
  rcases Nat.lt_or_ge (num / den) (num' / den) with hlt | hge
  · exact Nat.le_trans roundDiv_le_succ (Nat.le_trans hlt div_le_roundDiv)
  -- The whole parts are the same, so the remainders decide.
  have hdiv : num / den = num' / den := Nat.le_antisymm (Nat.div_le_div_right h) hge
  have hnum := Nat.div_add_mod num den
  have hnum' := Nat.div_add_mod num' den
  rw [hdiv] at hnum
  by_cases hgt : den < 2 * (num' % den)
  · rw [roundDiv_of_gt hgt, ← hdiv]
    exact roundDiv_le_succ
  · by_cases hmod : num % den = num' % den
    · have heq : num = num' := by omega
      exact Nat.le_of_eq (congrArg (roundDiv tie · den) heq)
    · have hlt : 2 * (num % den) < den := by omega
      rw [roundDiv_of_lt hlt, hdiv]
      exact div_le_roundDiv

namespace Double

/-! ## Magnitudes -/

/-- Above the first binades, a quotient has its leading bit in front of 52 others. -/
theorem binade_le_div (hshift : 52 < (num / den).log2) :
    binade ≤ num / (den * Nat.pow 2 ((num / den).log2 - 52)) := by
  have hpos : num / den ≠ 0 := by
    intro h
    rw [h] at hshift
    exact absurd hshift (by decide)
  rw [← Nat.div_div_eq_div_mul]
  apply (Nat.le_div_iff_mul_le (Nat.two_pow_pos _)).2
  calc binade * Nat.pow 2 ((num / den).log2 - 52)
      = 2 ^ (52 + ((num / den).log2 - 52)) := (Nat.pow_add 2 52 _).symm
    _ = 2 ^ (num / den).log2 := by congr 1; omega
    _ ≤ num / den := Nat.log2_self_le hpos

theorem div_lt_two_binades (num den : Nat) :
    num / (den * Nat.pow 2 ((num / den).log2 - 52)) < 2 * binade := by
  rw [← Nat.div_div_eq_div_mul]
  apply (Nat.div_lt_iff_lt_mul (Nat.two_pow_pos _)).2
  calc num / den < 2 ^ ((num / den).log2 + 1) := Nat.lt_log2_self
    _ ≤ 2 ^ (53 + ((num / den).log2 - 52)) := Nat.pow_le_pow_right (by decide) (by omega)
    _ = 2 * binade * Nat.pow 2 ((num / den).log2 - 52) := Nat.pow_add 2 53 _

theorem binade_le_roundDiv (hshift : 52 < (num / den).log2) :
    binade ≤ roundDiv .even num (den * Nat.pow 2 ((num / den).log2 - 52)) :=
  Nat.le_trans (binade_le_div hshift) div_le_roundDiv

theorem roundDiv_le_two_binades (num den : Nat) :
    roundDiv .even num (den * Nat.pow 2 ((num / den).log2 - 52)) ≤ 2 * binade :=
  Nat.le_trans roundDiv_le_succ (div_lt_two_binades num den)

theorem log2_mono {m n : Nat} (h : m ≤ n) : m.log2 ≤ n.log2 := by
  by_cases hm : m = 0
  · rw [hm, Nat.log2_zero]
    exact Nat.zero_le _
  · have hn : n ≠ 0 := by omega
    exact (Nat.le_log2 hn).2 (Nat.le_trans (Nat.log2_self_le hm) h)

/-- Rounding keeps the order. -/
theorem nearestRank_mono (den : Nat) (h : num ≤ num') :
    nearestRank num den ≤ nearestRank num' den := by
  have hlog := log2_mono (Nat.div_le_div_right (c := den) h)
  simp only [nearestRank]
  rcases Nat.lt_or_ge ((num / den).log2 - 52) ((num' / den).log2 - 52) with hlt | hge
  · -- The greater one lies in a later binade.
    have hlow : binade ≤ roundDiv .even num' (den * Nat.pow 2 ((num' / den).log2 - 52)) :=
      binade_le_roundDiv (by omega)
    have hhigh := roundDiv_le_two_binades num den
    have hnext : binade * ((num / den).log2 - 52) + binade ≤
        binade * ((num' / den).log2 - 52) := Nat.mul_le_mul_left binade hlt
    omega
  · have hshift : (num / den).log2 - 52 = (num' / den).log2 - 52 := by omega
    rw [hshift]
    exact Nat.add_le_add_left (roundDiv_mono h) _

theorem unitsOfRank_mono {q r : Nat} (h : q ≤ r) : unitsOfRank q ≤ unitsOfRank r := by
  apply Nat.le_of_not_lt
  intro hlt
  have hle := nearestRank_mono 1 (Nat.le_of_lt hlt)
  rw [nearestRank_unitsOfRank, nearestRank_unitsOfRank] at hle
  rw [Nat.le_antisymm h hle] at hlt
  exact Nat.lt_irrefl _ hlt

theorem unitsOfRank_lt_iff {q r : Nat} : unitsOfRank q < unitsOfRank r ↔ q < r := by
  constructor
  · intro hlt
    apply Nat.lt_of_not_le
    intro hle
    exact Nat.not_lt_of_le (unitsOfRank_mono hle) hlt
  · intro hlt
    refine Nat.lt_of_le_of_ne (unitsOfRank_mono (Nat.le_of_lt hlt)) fun heq => ?_
    have hrank := congrArg (nearestRank · 1) heq
    simp only [nearestRank_unitsOfRank] at hrank
    omega

/-- What has at most 53 bits in front of its trailing zeros is a magnitude. -/
theorem exists_unitsOfRank_eq {m : Nat} (hm : m < 2 * binade) (s : Nat) :
    ∃ r < binade * (s + 2), unitsOfRank r = m * Nat.pow 2 s := by
  induction s generalizing m with
  | zero =>
    refine ⟨m, by omega, ?_⟩
    rw [show Nat.pow 2 0 = 1 from rfl, Nat.mul_one]
    unfold unitsOfRank
    split
    · rfl
    · have hdiv : m / binade = 1 := Nat.div_eq_of_lt_le (by omega) (by omega)
      have hsplit := Nat.div_add_mod m binade
      rw [hdiv] at hsplit ⊢
      rw [show Nat.pow 2 (1 - 1) = 1 from rfl]
      omega
  | succ s ih =>
    by_cases hsmall : m < binade
    · obtain ⟨r, hr, hunits⟩ := ih (m := 2 * m) (by omega)
      refine ⟨r, Nat.lt_of_lt_of_le hr (Nat.mul_le_mul_left _ (by omega)), ?_⟩
      rw [hunits, Nat.pow_eq, Nat.pow_eq, Nat.pow_succ]
      ac_rfl
    · have hdiv : (binade * (s + 1) + m) / binade = s + 2 := by
        rw [Nat.mul_add_div (by decide)]
        have : m / binade = 1 := Nat.div_eq_of_lt_le (by omega) (by omega)
        omega
      have hmod : (binade * (s + 1) + m) % binade = m - binade := by
        rw [Nat.mul_add_mod]
        rw [Nat.mod_eq_sub_mod (by omega)]
        exact Nat.mod_eq_of_lt (by omega)
      refine ⟨binade * (s + 1) + m, by rw [Nat.mul_add, Nat.mul_add, Nat.mul_add]; omega, ?_⟩
      unfold unitsOfRank
      rw [if_neg (by rw [Nat.mul_add]; omega), hdiv, hmod]
      rw [show binade + (m - binade) = m from by omega, show s + 2 - 1 = s + 1 from rfl]

/-! ## Whole numbers -/

theorem unitsPerOne_pos : 0 < unitsPerOne := by decide +kernel

/-- Whole numbers up to `2^53` are magnitudes. -/
theorem exists_unitsOfRank_whole {n : Nat} (hn : n ≤ 2 * binade) :
    ∃ r < topRank, unitsOfRank r = n * unitsPerOne := by
  obtain ⟨s, hone, htop⟩ : ∃ s, unitsPerOne = Nat.pow 2 s ∧ binade * (s + 3) ≤ topRank :=
    ⟨1074, by decide +kernel, by decide⟩
  rcases Nat.lt_or_eq_of_le hn with hlt | rfl
  · obtain ⟨r, hr, hunits⟩ := exists_unitsOfRank_eq hlt s
    have hle : binade * (s + 2) ≤ binade * (s + 3) := Nat.mul_le_mul_left _ (Nat.le_succ _)
    exact ⟨r, Nat.lt_of_lt_of_le hr (Nat.le_trans hle htop), hone ▸ hunits⟩
  · obtain ⟨r, hr, hunits⟩ := exists_unitsOfRank_eq (m := binade) (by decide) (s + 1)
    refine ⟨r, Nat.lt_of_lt_of_le hr htop, ?_⟩
    rw [hunits, hone, Nat.pow_eq, Nat.pow_eq, Nat.pow_succ]
    ac_rfl

theorem ofInt_of_unitsOfRank {n : Int} {r : Nat} (hr : r < topRank)
    (hunits : unitsOfRank r = n.natAbs * unitsPerOne) : ofInt n = .finite (n < 0) r hr := by
  simp only [ofInt, ofRatio, ofUnits, ← hunits, nearestRank_unitsOfRank, dif_pos hr]

theorem toInt?_finite_iff {neg : Bool} {r : Nat} {hr : r < topRank} {n : Int} :
    toInt? (.finite neg r hr) = some n ↔
      unitsOfRank r = n.natAbs * unitsPerOne ∧
        n = if neg then -(n.natAbs : Int) else n.natAbs := by
  have hpos := unitsPerOne_pos
  simp only [toInt?, trunc?, ← Int.natCast_ediv]
  constructor
  · intro h
    split at h
    next hmod =>
      have hunits := Nat.div_mul_cancel (Nat.dvd_of_mod_eq_zero hmod)
      generalize unitsOfRank r / unitsPerOne = q at h hunits
      cases neg <;> cases h <;> simp [hunits]
    next => cases h
  · rintro ⟨hunits, hsign⟩
    rw [hunits, if_pos (Nat.mul_mod_left _ _), Nat.mul_div_cancel _ hpos, ← hsign]

/-- A number that is whole and not the negative zero is the one nearest to its value. -/
theorem ofInt_of_toInt? {x : Double} {n : Int} (hx : x ≠ .zero true) (h : x.toInt? = some n) :
    ofInt n = x := by
  cases x with
  | nan => cases h
  | infinite neg => cases h
  | finite neg r hr =>
    obtain ⟨hunits, hsign⟩ := toInt?_finite_iff.1 h
    have hneg : neg = decide (n < 0) := by
      cases neg with
      | false =>
        rw [if_neg Bool.false_ne_true] at hsign
        exact (decide_eq_false (by omega)).symm
      | true =>
        rw [if_pos rfl] at hsign
        have hn : n ≠ 0 := by
          rintro rfl
          have hzero : r = 0 := by
            apply Nat.eq_zero_of_not_pos
            intro hpos
            have := unitsOfRank_pos hpos
            rw [hunits] at this
            simp at this
          subst hzero
          exact hx rfl
        exact (decide_eq_true (by omega)).symm
    rw [ofInt_of_unitsOfRank hr hunits, hneg]

theorem toSafeInt?_eq_some_iff {x : Double} {n : Int} :
    x.toSafeInt? = some n ↔ x.toInt? = some n ∧ n.natAbs ≤ maxSafe := by
  unfold toSafeInt?
  cases x.toInt? with
  | none => simp
  | some m =>
    simp only [Option.bind_some, Option.ite_none_right_eq_some, Option.some.injEq]
    constructor
    · rintro ⟨hm, rfl⟩
      exact ⟨rfl, hm⟩
    · rintro ⟨rfl, hm⟩
      exact ⟨hm, rfl⟩

theorem maxSafe_succ : maxSafe + 1 = 2 * binade := rfl

theorem toInt?_ofInt {n : Int} (hsafe : n.natAbs ≤ maxSafe) : (ofInt n).toInt? = some n := by
  obtain ⟨r, hr, hunits⟩ := exists_unitsOfRank_whole (n := n.natAbs)
    (maxSafe_succ ▸ Nat.le_succ_of_le hsafe)
  rw [ofInt_of_unitsOfRank hr hunits, toInt?_finite_iff]
  refine ⟨hunits, ?_⟩
  by_cases hneg : n < 0
  · simp only [hneg, decide_true, if_true]
    omega
  · simp only [hneg, decide_false, Bool.false_eq_true, if_false]
    omega

theorem toNat?_ofNat {n : Nat} (hsafe : n ≤ maxSafe) : (ofNat n).toNat? = some n := by
  have hsame : ofNat n = ofInt n := by
    rw [ofNat, ofInt, Int.natAbs_natCast, decide_eq_false (Int.not_lt.2 (Int.natCast_nonneg n))]
  rw [hsame, toNat?, toInt?_ofInt (n := n) hsafe, Option.bind_some,
    if_pos (Int.natCast_nonneg n), Int.toNat_natCast]

/-- What a whole number is rounded to tells whether it is safe, and then it is not changed. -/
theorem toSafeInt?_ofInt (n : Int) :
    (ofInt n).toSafeInt? = if n.natAbs ≤ maxSafe then some n else none := by
  split
  next hsafe => rw [toSafeInt?, toInt?_ofInt hsafe, Option.bind_some, if_pos hsafe]
  next hunsafe =>
    -- The first unsafe number is a magnitude, so nothing above it is rounded below it.
    obtain ⟨r, hr, hunits⟩ := exists_unitsOfRank_whole (Nat.le_refl (2 * binade))
    have hle : 2 * binade * unitsPerOne ≤ n.natAbs * unitsPerOne :=
      Nat.mul_le_mul_right _ (maxSafe_succ ▸ Nat.lt_of_not_le hunsafe)
    have hrank := nearestRank_mono 1 hle
    rw [← hunits, nearestRank_unitsOfRank] at hrank
    have hlow := unitsOfRank_mono hrank
    rw [hunits] at hlow
    rw [toSafeInt?, ofInt, ofRatio, ofUnits]
    split
    next hfinite =>
      cases hvalue : toInt? (.finite (n < 0) _ hfinite) with
      | none => rfl
      | some m =>
        rw [(toInt?_finite_iff.1 hvalue).1] at hlow
        have hm := Nat.le_of_mul_le_mul_right hlow unitsPerOne_pos
        rw [← maxSafe_succ] at hm
        rw [Option.bind_some, if_neg (Nat.not_le_of_lt hm)]
    next => rfl

end Double

end Reckon
