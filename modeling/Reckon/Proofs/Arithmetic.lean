-- SUMMARY: Arithmetic on integers is exact modulo 2^64, and quotient and remainder give the dividend back.
import Reckon.Value.Operators

/-!
# Integer arithmetic

Sums, differences, products and negations of integers are the exact results,
brought into the range of 64 bits by a multiple of `2^64`. A quotient is rounded
toward zero before that, and the remainder has the sign of the dividend. Only the
quotient of the least integer and minus one leaves the range. It is wrapped as
everything else, so the quotient times the divisor, plus the remainder, is the
dividend without exception.
-/

namespace Reckon

/-! ## Wrapping and truncation -/

/-- `r` is `n` brought into the range of 64 bits. -/
structure Wraps (n r : Int) : Prop where
  low : -9223372036854775808 ≤ r
  high : r < 9223372036854775808
  congruent : (18446744073709551616 : Int) ∣ r - n

theorem wraps_wrap64 (n : Int) : Wraps n (wrap64 n) :=
  ⟨Int.le_bmod (by decide), Int.bmod_lt (by decide), Int.dvd_bmod_sub_self⟩

/-- `t` is `a / b` rounded toward zero. -/
structure Truncates (a b t : Int) : Prop where
  natAbs_eq : t.natAbs = a.natAbs / b.natAbs
  sign_eq : t = 0 ∨ t.sign = a.sign * b.sign

theorem truncates_tdiv (a b : Int) : Truncates a b (a.tdiv b) := by
  refine ⟨Int.natAbs_tdiv a b, ?_⟩
  rw [← Int.sign_eq_zero_iff_zero, Int.sign_tdiv]
  split
  · exact .inl rfl
  · exact .inr rfl

/-- The remainder is nearer to zero than the dividend, so it does not have to be wrapped. -/
theorem wrap64_tmod {a : Int} (ha : (Value.int a).WellFormed) (b : Int) :
    wrap64 (a.tmod b) = a.tmod b := by
  obtain ⟨hlow, hhigh⟩ := ha
  have hle : (a.tmod b).natAbs ≤ a.natAbs := by
    rw [Int.natAbs_tmod]
    exact Nat.mod_le _ _
  apply wrap64_of_range
  rcases Int.le_total 0 a with hnonneg | hneg
  · have hsign := Int.tmod_nonneg b hnonneg
    omega
  · have hsign := Int.tmod_nonneg b (Int.neg_nonneg_of_nonpos hneg)
    rw [Int.neg_tmod] at hsign
    omega

/-- Wrapping the quotient and the product does not show in the sum. -/
theorem wrap64_tdiv_mul_add_tmod {a : Int} (ha : (Value.int a).WellFormed) (b : Int) :
    wrap64 (wrap64 (wrap64 (a.tdiv b) * b) + a.tmod b) = a := by
  unfold wrap64
  rw [Int.bmod_mul_bmod, Int.bmod_add_bmod, Int.tdiv_mul_add_tmod]
  exact wrap64_of_range ha

/-! ## Operators -/

namespace BinaryOp

variable (a b : Int)

theorem apply_add_int : add.apply (.int a) (.int b) = .int (wrap64 (a + b)) := rfl

theorem apply_sub_int : sub.apply (.int a) (.int b) = .int (wrap64 (a - b)) := rfl

theorem apply_mul_int : mul.apply (.int a) (.int b) = .int (wrap64 (a * b)) := rfl

theorem apply_div_int :
    div.apply (.int a) (.int b) = if b = 0 then .null else .int (wrap64 (a.tdiv b)) := by
  by_cases hb : b = 0 <;> simp [apply, Value.arithmetic, Value.unlessZeroInt, hb, Value.ofInt]

theorem apply_mod_int :
    mod.apply (.int a) (.int b) = if b = 0 then .null else .int (wrap64 (a.tmod b)) := by
  by_cases hb : b = 0 <;> simp [apply, Value.arithmetic, Value.unlessZeroInt, hb, Value.ofInt]

end BinaryOp

/-- The operators on `a` and `b` compute in two's complement of 64 bits. -/
structure ExactArithmetic (a b : Int) : Prop where
  add : ∃ r, BinaryOp.add.apply (.int a) (.int b) = .int r ∧ Wraps (a + b) r
  sub : ∃ r, BinaryOp.sub.apply (.int a) (.int b) = .int r ∧ Wraps (a - b) r
  mul : ∃ r, BinaryOp.mul.apply (.int a) (.int b) = .int r ∧ Wraps (a * b) r
  negate : ∃ r, UnaryOp.negate.apply (.int a) = .int r ∧ Wraps (-a) r
  /-- The quotient is rounded toward zero and then wrapped. -/
  div : b ≠ 0 → ∃ t q, Truncates a b t ∧ BinaryOp.div.apply (.int a) (.int b) = .int q ∧ Wraps t q
  /-- The remainder is less than the divisor and has the sign of the dividend. -/
  mod : b ≠ 0 → ∃ r, BinaryOp.mod.apply (.int a) (.int b) = .int r ∧ r.natAbs < b.natAbs ∧
    (r = 0 ∨ r.sign = a.sign)
  /-- Quotient, divisor and remainder give the dividend back. -/
  restores : b ≠ 0 →
    BinaryOp.add.apply
      (BinaryOp.mul.apply (BinaryOp.div.apply (.int a) (.int b)) (.int b))
      (BinaryOp.mod.apply (.int a) (.int b)) = .int a
  zero : b = 0 → BinaryOp.div.apply (.int a) (.int b) = .null ∧
    BinaryOp.mod.apply (.int a) (.int b) = .null

/-- Arithmetic on integers of 64 bits is exact modulo `2^64`. -/
theorem exactArithmetic_of_wellFormed {a : Int} (ha : (Value.int a).WellFormed) (b : Int) :
    ExactArithmetic a b := by
  refine ⟨⟨_, BinaryOp.apply_add_int a b, wraps_wrap64 _⟩,
    ⟨_, BinaryOp.apply_sub_int a b, wraps_wrap64 _⟩,
    ⟨_, BinaryOp.apply_mul_int a b, wraps_wrap64 _⟩, ⟨_, rfl, wraps_wrap64 _⟩,
    fun hb => ?_, fun hb => ?_, fun hb => ?_, fun hb => ?_⟩
  · refine ⟨a.tdiv b, _, truncates_tdiv a b, ?_, wraps_wrap64 _⟩
    rw [BinaryOp.apply_div_int, if_neg hb]
  · refine ⟨a.tmod b, ?_, ?_, ?_⟩
    · rw [BinaryOp.apply_mod_int, if_neg hb, wrap64_tmod ha]
    · rw [Int.natAbs_tmod]
      exact Nat.mod_lt _ (Int.natAbs_pos.2 hb)
    · rw [← Int.sign_eq_zero_iff_zero, Int.sign_tmod]
      split
      · exact .inl rfl
      · exact .inr rfl
  · rw [BinaryOp.apply_div_int, BinaryOp.apply_mod_int, if_neg hb, if_neg hb,
      BinaryOp.apply_mul_int, wrap64_tmod ha, BinaryOp.apply_add_int,
      wrap64_tdiv_mul_add_tmod ha]
  · rw [BinaryOp.apply_div_int, BinaryOp.apply_mod_int, if_pos hb, if_pos hb]
    exact ⟨rfl, rfl⟩

/-- The least integer divided by minus one wraps to itself, and is still given back. -/
theorem exactArithmetic_least :
    BinaryOp.div.apply (.int (-9223372036854775808)) (.int (-1)) = .int (-9223372036854775808) ∧
      BinaryOp.add.apply
        (BinaryOp.mul.apply
          (BinaryOp.div.apply (.int (-9223372036854775808)) (.int (-1))) (.int (-1)))
        (BinaryOp.mod.apply (.int (-9223372036854775808)) (.int (-1))) =
          .int (-9223372036854775808) := by
  have hleast : (Value.int (-9223372036854775808)).WellFormed := by simp [Value.WellFormed]
  refine ⟨?_, (exactArithmetic_of_wellFormed hleast (-1)).restores (by decide)⟩
  rw [BinaryOp.apply_div_int]
  rfl

end Reckon
