-- SUMMARY: The comparisons are a sound order: mixing integers and floating-point numbers breaks no law.
import Reckon.Proofs.WholeNumbers
import Reckon.Value.Operators

/-!
# Order

Two integers are compared exactly, and an integer and a floating-point number
after the integer is rounded. Rounding keeps the order but may merge integers, so
the order of two numbers is that of their ranks, and between integers of one rank
their own. Such an order is transitive, whatever the kinds of the three numbers.
Strings are ordered by code units. Two values are ordered if they are two numbers,
none of which is a not-a-number, or two strings, and no comparison holds between
others.
-/

namespace Reckon

/-! ## Numbers -/

namespace Double

/-- The rank of the number nearest to `n`, at most that of infinity. -/
def rankOfNat (n : Nat) : Nat := min (nearestRank (n * unitsPerOne) 1) topRank

theorem rankOfNat_mono {m n : Nat} (h : m ≤ n) : rankOfNat m ≤ rankOfNat n := by
  have hranks := nearestRank_mono 1 (Nat.mul_le_mul_right unitsPerOne h)
  unfold rankOfNat
  omega

/-- The rank of the number nearest to `n`, with its sign. -/
def rankOfInt (n : Int) : Int :=
  if n < 0 then -(rankOfNat n.natAbs : Int) else rankOfNat n.natAbs

theorem signedRank?_ofInt (n : Int) : (ofInt n).signedRank? = some (rankOfInt n) := by
  unfold ofInt ofRatio ofUnits rankOfInt rankOfNat
  split
  next hlt =>
    rw [Nat.min_eq_left (Nat.le_of_lt hlt)]
    simp only [signedRank?, decide_eq_true_eq]
  next hge =>
    rw [Nat.min_eq_right (Nat.le_of_not_lt hge)]
    simp only [signedRank?, decide_eq_true_eq]

/-- Rounding keeps the order of integers. -/
theorem rankOfInt_mono {m n : Int} (h : m ≤ n) : rankOfInt m ≤ rankOfInt n := by
  unfold rankOfInt
  by_cases hn : n < 0
  · -- Of two negative integers, the lesser one has the greater magnitude.
    have hranks := rankOfNat_mono (show n.natAbs ≤ m.natAbs by omega)
    rw [if_pos hn, if_pos (by omega)]
    omega
  · rw [if_neg hn]
    by_cases hm : m < 0
    · rw [if_pos hm]
      omega
    · have hranks := rankOfNat_mono (show m.natAbs ≤ n.natAbs by omega)
      rw [if_neg hm]
      omega

/-- Finite numbers have the order of their exact values. -/
theorem signedUnits_lt_iff {s t : Bool} {q r : Nat} :
    signedUnits s q < signedUnits t r ↔
      (if s then -(q : Int) else q) < if t then -(r : Int) else r := by
  have hqr := @unitsOfRank_lt_iff q r
  have hrq := @unitsOfRank_lt_iff r q
  have hq := @unitsOfRank_lt_iff 0 q
  have hr := @unitsOfRank_lt_iff 0 r
  have hzero : unitsOfRank 0 = 0 := rfl
  unfold signedUnits
  cases s <;> cases t <;> simp only [Bool.false_eq_true, if_true, if_false] <;> omega

end Double

/-! ## Texts -/

namespace Text

theorem compare_units_lt_iff {us vs : List UInt16} :
    compare us vs = .lt ↔ List.Lex (· < ·) us vs := by
  induction us generalizing vs with
  | nil =>
    cases vs with
    | nil => simp
    | cons v vs => simp [List.compare_nil_cons]
  | cons u us ih =>
    cases vs with
    | nil => simp [List.compare_cons_nil]
    | cons v vs =>
      rw [List.compare_cons_cons, Ordering.then_eq_lt, ih, List.cons_lex_cons_iff,
        Std.compare_eq_lt, Std.compare_eq_iff_eq]

/-- Texts have the order of their code units, first difference first. -/
theorem compare_lt_iff {s t : Text} : compare s t = .lt ↔ List.Lex (· < ·) s.units t.units :=
  compare_units_lt_iff

theorem compare_swap (s t : Text) : (compare s t).swap = compare t s :=
  have hswap : compare t.units s.units = (compare s.units t.units).swap := Std.OrientedCmp.eq_swap
  hswap.symm

theorem compare_lt_trans {s t u : Text} (hst : compare s t = .lt) (htu : compare t u = .lt) :
    compare s u = .lt :=
  have hunits : compare s.units u.units = .lt := Std.TransCmp.lt_trans hst htu
  hunits

theorem compare_eq_iff {s t : Text} : compare s t = .eq ↔ s = t := by
  have hunits : compare s.units t.units = .eq ↔ s.units = t.units := Std.compare_eq_iff_eq
  refine hunits.trans ⟨fun h => ?_, congrArg units⟩
  cases s
  cases t
  exact congrArg Text.mk h

end Text

/-! ## Values -/

namespace Value

/-- An integer, or a floating-point number that is a number. -/
def IsNumber : Value → Prop
  | .int _ => True
  | .float x => x ≠ .nan
  | _ => False

/-- Two numbers or two strings that have their data. -/
def Ordered (a b : Value) : Prop :=
  (a.IsNumber ∧ b.IsNumber) ∨ ∃ s t, a = .string s ∧ b = .string t

/-- The rank of a number, with its sign. -/
def rank? (v : Value) : Option Int := v.toDouble?.bind Double.signedRank?

theorem rank?_int (n : Int) : rank? (.int n) = some (Double.rankOfInt n) := by
  rw [rank?, toDouble?, Option.bind_some, Double.signedRank?_ofInt]

theorem isNumber_iff {v : Value} : v.IsNumber ↔ ∃ p, v.rank? = some p := by
  cases v with
  | int n => exact iff_of_true trivial ⟨_, rank?_int n⟩
  | float x => cases x <;> simp [IsNumber, rank?, toDouble?, Double.signedRank?]
  | _ => simp [IsNumber, rank?, toDouble?]

/-- Where not both are integers, the order is that of the floating-point numbers. -/
theorem compare?_of_toDouble? {a b : Value} {x y : Double} (hx : a.toDouble? = some x)
    (hy : b.toDouble? = some y) (hmixed : ∀ m n, a = .int m → b ≠ .int n) :
    a.compare? b = x.compare? y := by
  cases a with
  | int m =>
    cases b with
    | int n => exact absurd rfl (hmixed m n rfl)
    | float z => cases hx; cases hy; rfl
    | _ => cases hy
  | float z =>
    cases b with
    | int n => cases hx; cases hy; rfl
    | float w => cases hx; cases hy; rfl
    | _ => cases hy
  | _ => cases hx

/-- Two integers have the order of integers, other numbers that of their ranks, and strings
    that of their texts. Nothing else has an order. -/
theorem compare?_eq_some_iff {a b : Value} {o : Ordering} :
    a.compare? b = some o ↔
      (∃ m n, a = .int m ∧ b = .int n ∧ compare m n = o) ∨
      (∃ s t, a = .string s ∧ b = .string t ∧ compare s t = o) ∨
      ((∀ m n, a = .int m → b ≠ .int n) ∧
        ∃ p q, a.rank? = some p ∧ b.rank? = some q ∧ compare p q = o) := by
  constructor
  · intro h
    unfold compare? at h
    split at h
    next m n => exact .inl ⟨m, n, rfl, rfl, Option.some.inj h⟩
    next s t => exact .inr (.inl ⟨s, t, rfl, rfl, Option.some.inj h⟩)
    next hmixed _ =>
      split at h
      next x y hx hy =>
        unfold Double.compare? at h
        split at h
        next p q hp hq =>
          refine .inr (.inr ⟨hmixed, p, q, ?_, ?_, Option.some.inj h⟩)
          · rw [rank?, hx, Option.bind_some, hp]
          · rw [rank?, hy, Option.bind_some, hq]
        next => cases h
      next => cases h
  · rintro (⟨m, n, rfl, rfl, rfl⟩ | ⟨s, t, rfl, rfl, rfl⟩ | ⟨hmixed, p, q, ha, hb, rfl⟩)
    · rfl
    · rfl
    · obtain ⟨x, hx, hp⟩ := Option.bind_eq_some_iff.1 ha
      obtain ⟨y, hy, hq⟩ := Option.bind_eq_some_iff.1 hb
      rw [compare?_of_toDouble? hx hy hmixed, Double.compare?, hp, hq]

theorem ordered_iff {a b : Value} : Ordered a b ↔ ∃ o, a.compare? b = some o := by
  constructor
  · rintro (⟨ha, hb⟩ | ⟨s, t, rfl, rfl⟩)
    · obtain ⟨p, hp⟩ := isNumber_iff.1 ha
      obtain ⟨q, hq⟩ := isNumber_iff.1 hb
      by_cases hints : ∃ m n, a = .int m ∧ b = .int n
      · obtain ⟨m, n, rfl, rfl⟩ := hints
        exact ⟨_, rfl⟩
      · have hmixed : ∀ m n, a = .int m → b ≠ .int n := fun m n hm hn => hints ⟨m, n, hm, hn⟩
        exact ⟨_, compare?_eq_some_iff.2 (.inr (.inr ⟨hmixed, p, q, hp, hq, rfl⟩))⟩
    · exact ⟨_, rfl⟩
  · rintro ⟨o, h⟩
    rcases compare?_eq_some_iff.1 h with ⟨m, n, rfl, rfl, -⟩ | ⟨s, t, rfl, rfl, -⟩ |
      ⟨-, p, q, hp, hq, -⟩
    · exact .inl ⟨trivial, trivial⟩
    · exact .inr ⟨s, t, rfl, rfl⟩
    · exact .inl ⟨isNumber_iff.2 ⟨p, hp⟩, isNumber_iff.2 ⟨q, hq⟩⟩

theorem compare?_swap {a b : Value} {o : Ordering} (h : a.compare? b = some o) :
    b.compare? a = some o.swap := by
  rw [compare?_eq_some_iff] at h ⊢
  rcases h with ⟨m, n, hm, hn, rfl⟩ | ⟨s, t, hs, ht, rfl⟩ | ⟨hmixed, p, q, hp, hq, rfl⟩
  · exact .inl ⟨n, m, hn, hm, (Int.compare_swap m n).symm⟩
  · exact .inr (.inl ⟨t, s, ht, hs, (Text.compare_swap s t).symm⟩)
  · exact .inr (.inr ⟨fun n m hn hm => hmixed m n hm hn, q, p, hq, hp,
      (Int.compare_swap p q).symm⟩)

/-- The first number is less than the second: it has the lower rank, or both are integers of
    one rank. -/
def LessNumbers (a b : Value) : Prop :=
  ∃ p q, a.rank? = some p ∧ b.rank? = some q ∧
    (p < q ∨ p = q ∧ ∃ m n, a = .int m ∧ b = .int n ∧ m < n)

/-- The first string stands before the second. -/
def LessStrings (a b : Value) : Prop :=
  ∃ s t, a = .string s ∧ b = .string t ∧ List.Lex (· < ·) s.units t.units

theorem compare?_eq_lt_iff {a b : Value} :
    a.compare? b = some .lt ↔ LessNumbers a b ∨ LessStrings a b := by
  rw [compare?_eq_some_iff]
  constructor
  · rintro (⟨m, n, rfl, rfl, h⟩ | ⟨s, t, rfl, rfl, h⟩ | ⟨-, p, q, hp, hq, h⟩)
    · have hlt := Int.compare_eq_lt.1 h
      have hranks := Double.rankOfInt_mono (Int.le_of_lt hlt)
      refine .inl ⟨_, _, rank?_int m, rank?_int n, ?_⟩
      rcases Int.lt_or_eq_of_le hranks with hless | hsame
      · exact .inl hless
      · exact .inr ⟨hsame, m, n, rfl, rfl, hlt⟩
    · exact .inr ⟨s, t, rfl, rfl, Text.compare_lt_iff.1 h⟩
    · exact .inl ⟨p, q, hp, hq, .inl (Int.compare_eq_lt.1 h)⟩
  · rintro (⟨p, q, hp, hq, hless | ⟨-, m, n, rfl, rfl, hlt⟩⟩ | ⟨s, t, rfl, rfl, h⟩)
    · by_cases hints : ∃ m n, a = .int m ∧ b = .int n
      · -- Integers of different ranks have the order of their ranks.
        obtain ⟨m, n, rfl, rfl⟩ := hints
        rw [rank?_int, Option.some.injEq] at hp hq
        have hlt : m < n := by
          apply Int.lt_of_not_ge
          intro hge
          have hranks := Double.rankOfInt_mono hge
          omega
        exact .inl ⟨m, n, rfl, rfl, Int.compare_eq_lt.2 hlt⟩
      · have hmixed : ∀ m n, a = .int m → b ≠ .int n := fun m n hm hn => hints ⟨m, n, hm, hn⟩
        exact .inr (.inr ⟨hmixed, p, q, hp, hq, Int.compare_eq_lt.2 hless⟩)
    · exact .inl ⟨m, n, rfl, rfl, Int.compare_eq_lt.2 hlt⟩
    · exact .inr (.inl ⟨s, t, rfl, rfl, Text.compare_lt_iff.2 h⟩)

theorem LessNumbers.trans {a b c : Value} (hab : LessNumbers a b) (hbc : LessNumbers b c) :
    LessNumbers a c := by
  obtain ⟨p, q, hp, hq, hpq⟩ := hab
  obtain ⟨q', r, hq', hr, hqr⟩ := hbc
  obtain rfl : q = q' := Option.some.inj (hq.symm.trans hq')
  refine ⟨p, r, hp, hr, ?_⟩
  rcases hpq with hpq | ⟨rfl, m, n, hm, hn, hmn⟩
  · rcases hqr with hqr | ⟨rfl, -⟩
    · exact .inl (Int.lt_trans hpq hqr)
    · exact .inl hpq
  · rcases hqr with hqr | ⟨rfl, n', k, hn', hk, hnk⟩
    · exact .inl hqr
    · obtain rfl : n = n' := Value.int.inj (hn.symm.trans hn')
      exact .inr ⟨rfl, m, k, hm, hk, Int.lt_trans hmn hnk⟩

theorem LessStrings.trans {a b c : Value} (hab : LessStrings a b) (hbc : LessStrings b c) :
    LessStrings a c := by
  obtain ⟨s, t, hs, ht, hst⟩ := hab
  obtain ⟨t', u, ht', hu, htu⟩ := hbc
  obtain rfl : t = t' := Value.string.inj (ht.symm.trans ht')
  refine ⟨s, u, hs, hu, ?_⟩
  rw [← Text.compare_lt_iff] at hst htu ⊢
  exact Text.compare_lt_trans hst htu

/-- No value is both a number and a string. -/
theorem not_lessNumbers_of_lessStrings {a b c d : Value} (hstrings : LessStrings a b)
    (hnumbers : LessNumbers c d) : b ≠ c ∧ d ≠ a := by
  obtain ⟨s, t, rfl, rfl, -⟩ := hstrings
  obtain ⟨p, q, hp, hq, -⟩ := hnumbers
  constructor
  · rintro rfl
    cases hp
  · rintro rfl
    cases hq

theorem compare?_lt_trans {a b c : Value} (hab : a.compare? b = some .lt)
    (hbc : b.compare? c = some .lt) : a.compare? c = some .lt := by
  rw [compare?_eq_lt_iff] at hab hbc ⊢
  rcases hab with hab | hab
  · rcases hbc with hbc | hbc
    · exact .inl (hab.trans hbc)
    · exact absurd rfl (not_lessNumbers_of_lessStrings hbc hab).2
  · rcases hbc with hbc | hbc
    · exact absurd rfl (not_lessNumbers_of_lessStrings hab hbc).1
    · exact .inr (hab.trans hbc)

theorem ordered_test_iff {test : Ordering → Bool} {a b : Value} :
    ordered test a b = .bool true ↔ ∃ o, a.compare? b = some o ∧ test o = true := by
  rw [ordered, Value.bool.injEq, Option.any_eq_true]

end Value

/-! ## Comparisons -/

namespace BinaryOp

/-- The operators that ask for the order of their operands. -/
def comparisons : List BinaryOp := [.lt, .le, .gt, .ge]

/-- The operator answers yes. -/
def Holds (op : BinaryOp) (a b : Value) : Prop := op.apply a b = .bool true

variable {a b c : Value}

theorem holds_lt_iff : lt.Holds a b ↔ a.compare? b = some .lt := by
  refine Value.ordered_test_iff.trans ⟨?_, fun h => ⟨.lt, h, rfl⟩⟩
  rintro ⟨o, h, htest⟩
  rwa [Ordering.isLT_iff_eq_lt.1 htest] at h

theorem holds_gt_iff : gt.Holds a b ↔ a.compare? b = some .gt := by
  refine Value.ordered_test_iff.trans ⟨?_, fun h => ⟨.gt, h, rfl⟩⟩
  rintro ⟨o, h, htest⟩
  rwa [Ordering.isGT_iff_eq_gt.1 htest] at h

theorem holds_lt_iff_holds_gt : lt.Holds a b ↔ gt.Holds b a := by
  rw [holds_lt_iff, holds_gt_iff]
  exact ⟨Value.compare?_swap, Value.compare?_swap⟩

theorem holds_le_iff_holds_ge : le.Holds a b ↔ ge.Holds b a := by
  refine Value.ordered_test_iff.trans (Iff.trans ?_ Value.ordered_test_iff.symm)
  constructor
  · rintro ⟨o, h, htest⟩
    exact ⟨o.swap, Value.compare?_swap h, by rwa [Ordering.isGE_swap]⟩
  · rintro ⟨o, h, htest⟩
    exact ⟨o.swap, Value.compare?_swap h, by rwa [Ordering.isLE_swap]⟩

theorem not_holds_lt_of_holds_lt (h : lt.Holds a b) : ¬ lt.Holds b a := by
  intro h'
  have hgt := Value.compare?_swap (holds_lt_iff.1 h)
  rw [holds_lt_iff.1 h'] at hgt
  cases hgt

/-- What is not greater is less, or in no order but that of two equals. -/
theorem holds_le_iff :
    le.Holds a b ↔ lt.Holds a b ∨ (Value.Ordered a b ∧ ¬ lt.Holds a b ∧ ¬ lt.Holds b a) := by
  refine Value.ordered_test_iff.trans ?_
  simp only [holds_lt_iff, Value.ordered_iff]
  constructor
  · rintro ⟨o, h, htest⟩
    cases o with
    | lt => exact .inl h
    | eq =>
      have hswap := Value.compare?_swap h
      exact .inr ⟨⟨_, h⟩, by simp [h], by simp [hswap]⟩
    | gt => cases htest
  · rintro (h | ⟨⟨o, h⟩, hlt, hgt⟩)
    · exact ⟨_, h, rfl⟩
    · cases o with
      | lt => exact absurd h hlt
      | eq => exact ⟨_, h, rfl⟩
      | gt => exact absurd (Value.compare?_swap h) hgt

theorem apply_of_not_ordered (h : ¬ Value.Ordered a b) {op : BinaryOp} (hop : op ∈ comparisons) :
    op.apply a b = .bool false := by
  have hnone : a.compare? b = none := by
    cases hcompare : a.compare? b with
    | none => rfl
    | some o => exact absurd (Value.ordered_iff.2 ⟨o, hcompare⟩) h
  simp only [comparisons, List.mem_cons, List.not_mem_nil, or_false] at hop
  rcases hop with rfl | rfl | rfl | rfl <;> simp only [apply, Value.ordered, hnone, Option.any_none]

/-- One of the two is less, or they are equal, and they are equal if none is greater. -/
def Total (a b : Value) : Prop :=
  (lt.Holds a b ∨ eq.Holds a b ∨ lt.Holds b a) ∧ (le.Holds a b ∧ le.Holds b a ↔ eq.Holds a b)

/-- Where an order tells equal values, it is total. -/
theorem total_of_compare? {o : Ordering} (h : a.compare? b = some o)
    (heq : eq.Holds a b ↔ o = .eq) : Total a b := by
  have hswap := Value.compare?_swap h
  have hle : ∀ {c d : Value} {o : Ordering}, c.compare? d = some o →
      (le.Holds c d ↔ o.isLE = true) := by
    intro c d o hcd
    refine Value.ordered_test_iff.trans ⟨?_, fun htest => ⟨o, hcd, htest⟩⟩
    rintro ⟨o', ho', htest⟩
    rwa [Option.some.inj (hcd.symm.trans ho')]
  rw [Total, heq, hle h, hle hswap, holds_lt_iff, holds_lt_iff, h, hswap]
  cases o <;> simp

theorem total_int (m n : Int) : Total (.int m) (.int n) := by
  refine total_of_compare? rfl ?_
  rw [Int.compare_eq_eq]
  simp [Holds, apply, Value.equal]

theorem total_string (s t : Text) : Total (.string s) (.string t) := by
  refine total_of_compare? rfl ?_
  rw [Text.compare_eq_iff]
  simp [Holds, apply, Value.equal]

/-- Floating-point numbers have the order of their ranks. -/
theorem holds_lt_float_iff {x y : Double} {p q : Int} (hx : x.signedRank? = some p)
    (hy : y.signedRank? = some q) : lt.Holds (.float x) (.float y) ↔ p < q := by
  have hcompare : Value.compare? (.float x) (.float y) = some (compare p q) := by
    rw [Value.compare?_of_toDouble? rfl rfl (by rintro m n ⟨⟩), Double.compare?, hx, hy]
  rw [holds_lt_iff, hcompare, Option.some.injEq, Int.compare_eq_lt]

/-- The comparisons of three values are those of an order. -/
structure SoundOrder (a b c : Value) : Prop where
  decided : ∀ op ∈ comparisons, op.Holds a b ∨ op.apply a b = .bool false
  irreflexive : ¬ lt.Holds a a
  asymmetric : lt.Holds a b → ¬ lt.Holds b a
  transitive : lt.Holds a b → lt.Holds b c → lt.Holds a c
  gt_iff : lt.Holds a b ↔ gt.Holds b a
  ge_iff : le.Holds a b ↔ ge.Holds b a
  le_iff : le.Holds a b ↔ lt.Holds a b ∨ (Value.Ordered a b ∧ ¬ lt.Holds a b ∧ ¬ lt.Holds b a)
  unordered : ¬ Value.Ordered a b → ∀ op ∈ comparisons, op.apply a b = .bool false
  /-- Two integers are compared exactly. -/
  ints : ∀ m n, a = .int m → b = .int n → Total a b ∧ (lt.Holds a b ↔ m < n)
  /-- Two strings are compared by code units, first difference first. -/
  strings : ∀ s t, a = .string s → b = .string t →
    Total a b ∧ (lt.Holds a b ↔ List.Lex (· < ·) s.units t.units)
  /-- An integer is rounded before it is compared with a floating-point number. -/
  promoted : ∀ m x, a = .int m → b = .float x → ∀ op ∈ comparisons,
    op.apply a b = op.apply (.float (.ofInt m)) b ∧ op.apply b a = op.apply b (.float (.ofInt m))
  /-- Finite floating-point numbers have the order of their exact values. -/
  floats : ∀ s t q r hq hr, a = .float (.finite s q hq) → b = .float (.finite t r hr) →
    (lt.Holds a b ↔ Double.signedUnits s q < Double.signedUnits t r)
  /-- The infinities lie below and above all finite numbers. -/
  infinities : ∀ s t r hr, a = .float (.infinite s) → b = .float (.finite t r hr) →
    (lt.Holds a b ↔ s = true) ∧ (lt.Holds b a ↔ s = false)

/-- The comparisons of any values are those of an order. -/
theorem comparisons_sound (a b c : Value) : SoundOrder a b c where
  decided := by
    intro op hop
    simp only [comparisons, List.mem_cons, List.not_mem_nil, or_false] at hop
    have hbool : ∀ test : Bool, Value.bool test = .bool true ∨ Value.bool test = .bool false := by
      intro test
      cases test
      · exact .inr rfl
      · exact .inl rfl
    rcases hop with rfl | rfl | rfl | rfl <;> exact hbool _
  irreflexive := fun h => not_holds_lt_of_holds_lt h h
  asymmetric := not_holds_lt_of_holds_lt
  transitive := by
    simp only [holds_lt_iff]
    exact Value.compare?_lt_trans
  gt_iff := holds_lt_iff_holds_gt
  ge_iff := holds_le_iff_holds_ge
  le_iff := holds_le_iff
  unordered := fun h op hop => apply_of_not_ordered h hop
  ints := by
    rintro m n rfl rfl
    refine ⟨total_int m n, ?_⟩
    rw [holds_lt_iff, Value.compare?, Option.some.injEq, Int.compare_eq_lt]
  strings := by
    rintro s t rfl rfl
    refine ⟨total_string s t, ?_⟩
    rw [holds_lt_iff, Value.compare?, Option.some.injEq, Text.compare_lt_iff]
  promoted := by
    rintro m x rfl rfl op hop
    simp only [comparisons, List.mem_cons, List.not_mem_nil, or_false] at hop
    rcases hop with rfl | rfl | rfl | rfl <;> exact ⟨rfl, rfl⟩
  floats := by
    rintro s t q r hq hr rfl rfl
    rw [holds_lt_float_iff rfl rfl, Double.signedUnits_lt_iff]
  infinities := by
    rintro s t r hr rfl rfl
    rw [holds_lt_float_iff rfl rfl, holds_lt_float_iff rfl rfl]
    cases s <;> cases t <;> simp <;> omega

/-- The integer `2^53 + 1` is rounded to `2^53`, so it is not greater than that number, though it
    is greater than the integer. -/
example :
    lt.apply (.int 9007199254740992) (.int 9007199254740993) = .bool true ∧
      lt.apply (.float (.ofInt 9007199254740992)) (.int 9007199254740993) = .bool false ∧
      le.apply (.int 9007199254740993) (.float (.ofInt 9007199254740992)) = .bool true := by
  refine ⟨?_, ?_, ?_⟩ <;> refine congrArg Value.bool ?_ <;> decide +kernel

end BinaryOp

end Reckon
