-- SUMMARY: The text of a number as a constant is read as the number itself.
import Reckon.Double.Printer
import Reckon.Double.Reader
import Reckon.Proofs.Rounding

/-!
# Number texts read back

The plain text of a positive number writes its shortest decimal, positionally or
with an exponent. Reading takes the digits, the fraction and the exponent apart
again and finds a decimal of the same value, and the shortest decimal was
chosen so that it is read as the number.
-/

namespace Reckon

/-! ## Digits -/

namespace Text

/-- The units that the text of a finite number consists of. -/
def isNumeric (u : UInt16) : Bool :=
  isDigit u || u = unit '.' || u = unit 'e' || u = unit '+' || u = unit '-'

theorem isNumeric_of_isDigit {u : UInt16} (h : isDigit u = true) : isNumeric u = true := by
  simp [isNumeric, h]

theorem toNat_of_isDigit {u : UInt16} (h : isDigit u = true) : 48 ≤ u.toNat ∧ u.toNat ≤ 57 := by
  simp only [isDigit, Bool.and_eq_true, decide_eq_true_eq, UInt16.le_iff_toNat_le] at h
  exact h

theorem isNumeric_cases {u : UInt16} (h : isNumeric u = true) :
    (48 ≤ u.toNat ∧ u.toNat ≤ 57) ∨ u.toNat = 46 ∨ u.toNat = 101 ∨ u.toNat = 43 ∨ u.toNat = 45 := by
  simp only [isNumeric, Bool.or_eq_true, decide_eq_true_eq] at h
  rcases h with (((h | h) | h) | h) | h
  · exact .inl (toNat_of_isDigit h)
  all_goals subst h; decide

theorem not_isBlank_of_isNumeric {u : UInt16} (h : isNumeric u = true) : isBlank u = false := by
  have hcases := isNumeric_cases h
  rw [Bool.eq_false_iff]
  intro hb
  simp only [isBlank, Bool.or_eq_true, Bool.and_eq_true, decide_eq_true_eq,
    UInt16.le_iff_toNat_le, ← UInt16.toNat_inj, UInt16.reduceToNat] at hb
  omega

theorem toNat_unit_of_isDigit {c : Char} (h : c.isDigit = true) : (unit c).toNat = c.toNat := by
  have hc : 48 ≤ c.toNat ∧ c.toNat ≤ 57 := Char.isDigit_iff_toNat.1 h
  simp only [unit, Nat.toUInt16_eq, UInt16.toNat_ofNat']
  omega

theorem isDigit_unit {c : Char} (h : c.isDigit = true) : isDigit (unit c) = true := by
  have hc : 48 ≤ c.toNat ∧ c.toNat ≤ 57 := Char.isDigit_iff_toNat.1 h
  simp only [isDigit, Bool.and_eq_true, decide_eq_true_eq, UInt16.le_iff_toNat_le,
    toNat_unit_of_isDigit h]
  exact hc

theorem natOfDigits_map_unit {cs : List Char} (h : ∀ c ∈ cs, c.isDigit = true) :
    natOfDigits (cs.map unit) = Nat.ofDigitChars 10 cs 0 := by
  unfold natOfDigits Nat.ofDigitChars
  rw [List.foldl_map]
  generalize 0 = init
  induction cs generalizing init with
  | nil => rfl
  | cons c cs ih =>
    rw [List.foldl_cons, List.foldl_cons, toNat_unit_of_isDigit (h c List.mem_cons_self)]
    exact ih (fun d hd => h d (List.mem_cons_of_mem c hd)) _

/-- A text of numeric units has no white space to cut. -/
theorem trim_of_numeric {us : List UInt16} (h : ∀ u ∈ us, isNumeric u = true) :
    trim ⟨us⟩ = ⟨us⟩ := by
  have hdrop : ∀ vs : List UInt16, (∀ v ∈ vs, isNumeric v = true) → vs.dropWhile isBlank = vs := by
    intro vs hvs
    cases vs with
    | nil => rfl
    | cons v vs =>
      rw [List.dropWhile_cons_of_neg]
      simp [not_isBlank_of_isNumeric (hvs v List.mem_cons_self)]
  simp only [trim, trimWhere]
  rw [hdrop us h, hdrop us.reverse (by simpa using h), List.reverse_reverse]

end Text

/-! ## Reading -/

namespace Numeral

open Text (isDigit isNumeric)

/-- A text that does not go on with a digit. -/
def Stops (us : List UInt16) : Prop := ∀ u ∈ us.head?, isDigit u = false

theorem span_digits {ds rest : List UInt16} (hds : ∀ u ∈ ds, isDigit u = true)
    (hrest : Stops rest) :
    (ds ++ rest).takeWhile isDigit = ds ∧ (ds ++ rest).dropWhile isDigit = rest := by
  rw [List.takeWhile_append_of_pos hds, List.dropWhile_append_of_pos hds]
  cases rest with
  | nil => simp
  | cons u us => simp [hrest u (by simp)]

/-- A whole part, with no fraction behind it. -/
theorem decimal?_whole (neg : Bool) (whole rest : List UInt16) (hne : whole ≠ [])
    (hwhole : ∀ u ∈ whole, isDigit u = true) (hrest : Stops rest)
    (hpoint : ∀ u ∈ rest.head?, u ≠ Text.unit '.') :
    decimal? neg (whole ++ rest) =
      (exponent? rest).map fun e => Double.ofDecimal neg (Text.natOfDigits whole) e := by
  obtain ⟨htake, hdrop⟩ := span_digits hwhole hrest
  simp only [decimal?, htake, hdrop]
  cases rest with
  | nil => simp [hne]
  | cons u us => simp [hne, hpoint u (by simp)]

/-- A whole part and a fraction. -/
theorem decimal?_fraction (neg : Bool) (whole fraction rest : List UInt16) (hne : whole ≠ [])
    (hwhole : ∀ u ∈ whole, isDigit u = true) (hfraction : ∀ u ∈ fraction, isDigit u = true)
    (hrest : Stops rest) :
    decimal? neg (whole ++ Text.unit '.' :: (fraction ++ rest)) =
      (exponent? rest).map fun e =>
        Double.ofDecimal neg (Text.natOfDigits (whole ++ fraction)) (e - fraction.length) := by
  have hpoint : Stops (Text.unit '.' :: (fraction ++ rest)) := by
    intro u hu
    cases hu
    decide
  obtain ⟨htake, hdrop⟩ := span_digits hwhole hpoint
  obtain ⟨htake', hdrop'⟩ := span_digits hfraction hrest
  simp [decimal?, htake, hdrop, htake', hdrop', hne]

/-- A text of numeric units has no mark of a base. -/
theorem read?_of_numeric {us : List UInt16} (hne : us ≠ []) (h : ∀ u ∈ us, isNumeric u = true) :
    read? us = signed? us := by
  have hmark : ∀ v, isNumeric v = true → markedBase? v = none := by
    intro v hv
    have hletters : ∀ w ∈ [Text.unit 'x', Text.unit 'X', Text.unit 'o', Text.unit 'O',
        Text.unit 'b', Text.unit 'B'], v ≠ w := by
      have hnone : [Text.unit 'x', Text.unit 'X', Text.unit 'o', Text.unit 'O', Text.unit 'b',
        Text.unit 'B'].all (!isNumeric ·) = true := by decide
      rintro w hw rfl
      have hnot := List.all_eq_true.1 hnone v hw
      rw [hv] at hnot
      cases hnot
    simp only [List.forall_mem_cons] at hletters
    simp [markedBase?, hletters]
  cases us with
  | nil => exact absurd rfl hne
  | cons u us =>
    cases us with
    | nil => rfl
    | cons v us => simp [read?, hmark v (h v (by simp))]

/-- A sign and a decimal that starts with a digit. -/
theorem toDouble_signed (neg : Bool) {u : UInt16} {us : List UInt16} {x : Double}
    (hu : isDigit u = true) (hus : ∀ v ∈ us, isNumeric v = true)
    (hread : decimal? neg (u :: us) = some x) :
    (Double.signText neg ++ ⟨u :: us⟩ : Text).toDouble = x := by
  have hnumeric : ∀ v ∈ u :: us, isNumeric v = true :=
    List.forall_mem_cons.2 ⟨Text.isNumeric_of_isDigit hu, hus⟩
  have hinf : u :: us ≠ (Text.ofString "Infinity").units := by
    intro heq
    have hI : u = Text.unit 'I' := (List.cons.inj heq).1
    rw [hI] at hu
    revert hu
    decide
  cases neg with
  | true =>
    have hall : ∀ v ∈ Text.unit '-' :: u :: us, isNumeric v = true :=
      List.forall_mem_cons.2 ⟨by decide, hnumeric⟩
    have htext : (Double.signText true ++ ⟨u :: us⟩ : Text) = ⟨Text.unit '-' :: u :: us⟩ := rfl
    have hsigned : signed? (Text.unit '-' :: u :: us) = some x := by
      simp only [signed?, sign, if_true, if_neg hinf, hread]
    rw [htext, Text.toDouble, Text.trim_of_numeric hall,
      read?_of_numeric (List.cons_ne_nil _ _) hall, hsigned]
    rfl
  | false =>
    have htext : (Double.signText false ++ ⟨u :: us⟩ : Text) = ⟨u :: us⟩ := rfl
    have hminus : u ≠ Text.unit '-' := by rintro rfl; revert hu; decide
    have hplus : u ≠ Text.unit '+' := by rintro rfl; revert hu; decide
    have hsigned : signed? (u :: us) = some x := by
      simp only [signed?, sign, if_neg hminus, if_neg hplus, if_neg hinf, hread]
    rw [htext, Text.toDouble, Text.trim_of_numeric hnumeric,
      read?_of_numeric (List.cons_ne_nil _ _) hnumeric, hsigned]
    rfl

end Numeral

/-! ## Decimals -/

namespace Decimal

open Text (isDigit isNumeric)

theorem isDigit_of_mem_digits {n : Nat} {u : UInt16} (hu : u ∈ (Nat.toDigits 10 n).map Text.unit) :
    isDigit u = true := by
  obtain ⟨c, hc, rfl⟩ := List.mem_map.1 hu
  exact Text.isDigit_unit (Nat.isDigit_of_mem_toDigits (by decide) (by decide) hc)

theorem natOfDigits_toDigits (n : Nat) :
    Text.natOfDigits ((Nat.toDigits 10 n).map Text.unit) = n := by
  rw [Text.natOfDigits_map_unit fun c hc => Nat.isDigit_of_mem_toDigits (by decide) (by decide) hc]
  exact Nat.ofDigitChars_ten_toDigits

theorem natOfDigits_zeros_append (k : Nat) (us : List UInt16) :
    Text.natOfDigits (List.replicate k (Text.unit '0') ++ us) = Text.natOfDigits us := by
  have hzero : ∀ vs, Text.natOfDigits (Text.unit '0' :: vs) = Text.natOfDigits vs := fun _ => rfl
  induction k with
  | zero => rfl
  | succ k ih => rw [List.replicate_succ, List.cons_append, hzero, ih]

theorem natOfDigits_append_zeros (us : List UInt16) (k : Nat) :
    Text.natOfDigits (us ++ List.replicate k (Text.unit '0')) =
      Text.natOfDigits us * Nat.pow 10 k := by
  have hzero : (Text.unit '0').toNat - 48 = 0 := rfl
  induction k with
  | zero => simp
  | succ k ih =>
    have hstep : Text.natOfDigits us * Nat.pow 10 (k + 1) =
        Text.natOfDigits us * Nat.pow 10 k * 10 := (Nat.mul_assoc _ _ _).symm
    rw [List.replicate_succ', ← List.append_assoc, hstep, ← ih]
    simp only [Text.natOfDigits, List.foldl_append, List.foldl_cons, List.foldl_nil, hzero]
    omega

theorem exponent?_digits (neg : Bool) (n : Nat) :
    Numeral.exponent? (Text.unit 'e' :: (if neg then Text.unit '-' else Text.unit '+') ::
      (Nat.toDigits 10 n).map Text.unit) = some (if neg then -(n : Int) else n) := by
  have hall : ((Nat.toDigits 10 n).map Text.unit).all isDigit = true :=
    List.all_eq_true.2 fun u hu => isDigit_of_mem_digits hu
  have hsign : Text.unit '+' ≠ Text.unit '-' := by decide
  cases neg <;> simp [Numeral.exponent?, Numeral.sign, hsign, hall, natOfDigits_toDigits]

theorem units_exponent (e : Int) :
    (exponent 1 e).units = Text.unit 'e' ::
      (if decide (e < 0) then Text.unit '-' else Text.unit '+') ::
        (Nat.toDigits 10 e.natAbs).map Text.unit := by
  have hlen : 1 - ((Nat.toDigits 10 e.natAbs).map Text.unit).length = 0 := by
    have := Nat.length_toDigits_pos (b := 10) (n := e.natAbs)
    rw [List.length_map]
    omega
  simp only [exponent, hlen]
  by_cases he : e < 0
  · rw [if_pos he, decide_eq_true he]
    rfl
  · rw [if_neg he, decide_eq_false he]
    rfl

/-- The exponent that is written is the one that is read. -/
theorem exponent?_exponent (e : Int) : Numeral.exponent? (exponent 1 e).units = some e := by
  rw [units_exponent, exponent?_digits]
  by_cases he : e < 0
  · rw [decide_eq_true he, if_pos rfl]
    congr 1
    omega
  · rw [decide_eq_false he, if_neg Bool.false_ne_true]
    congr 1
    omega

theorem digits_ne_nil (d : Decimal) : d.digits.map Text.unit ≠ [] := by
  simp [digits]

theorem isDigit_of_mem_zeros {k : Nat} {u : UInt16} (hu : u ∈ List.replicate k (Text.unit '0')) :
    isDigit u = true := by
  rw [(List.mem_replicate.1 hu).2]
  decide

/-- Positional text is read as the decimal. -/
theorem decimal?_positional (neg : Bool) {d : Decimal} (hc : d.coeff ≠ 0) :
    Numeral.decimal? neg d.positional.units = some (Double.ofDecimal neg d.coeff d.exp) := by
  have hds : ∀ u ∈ d.digits.map Text.unit, isDigit u = true := fun u hu => isDigit_of_mem_digits hu
  have hvalue : Text.natOfDigits (d.digits.map Text.unit) = d.coeff := natOfDigits_toDigits d.coeff
  have hlen : d.point = (d.digits.map Text.unit).length + d.exp := by simp [point]
  have hpos : 0 < (d.digits.map Text.unit).length := List.length_pos_iff.2 d.digits_ne_nil
  have hnil : Numeral.Stops [] := by simp [Numeral.Stops]
  unfold positional
  dsimp only
  generalize d.digits.map Text.unit = ds at hds hvalue hlen hpos ⊢
  split
  · -- A whole number, with the zeros of the exponent behind its digits.
    have hread := Numeral.decimal?_whole neg (ds ++ List.replicate d.exp.toNat (Text.unit '0')) []
      (by rw [← List.length_pos_iff, List.length_append]; omega)
      (fun u hu => (List.mem_append.1 hu).elim (hds u) isDigit_of_mem_zeros) hnil (by simp)
    rw [List.append_nil] at hread
    rw [hread, natOfDigits_append_zeros, hvalue]
    simp only [Numeral.exponent?, Option.map_some, Double.ofDecimal_mul_pow neg hc]
    congr 2
    omega
  · split
    · -- The point stands among the digits.
      have hread := Numeral.decimal?_fraction neg (ds.take d.point.toNat)
        (ds.drop d.point.toNat) []
        (by rw [← List.length_pos_iff, List.length_take]; omega)
        (fun u hu => hds u (List.mem_of_mem_take hu))
        (fun u hu => hds u (List.mem_of_mem_drop hu)) hnil
      rw [List.append_nil] at hread
      rw [hread, List.take_append_drop, hvalue, List.length_drop]
      simp only [Numeral.exponent?, Option.map_some]
      congr 2
      omega
    · -- Zeros stand between the point and the digits.
      have hread := Numeral.decimal?_fraction neg (List.replicate 1 (Text.unit '0'))
        (List.replicate (-d.point).toNat (Text.unit '0') ++ ds) []
        (List.cons_ne_nil _ _) (fun u hu => isDigit_of_mem_zeros hu)
        (fun u hu => (List.mem_append.1 hu).elim isDigit_of_mem_zeros (hds u)) hnil
      rw [List.append_nil, natOfDigits_zeros_append, natOfDigits_zeros_append, hvalue] at hread
      rw [List.append_assoc]
      refine hread.trans ?_
      simp only [Numeral.exponent?, Option.map_some, List.length_append, List.length_replicate]
      congr 2
      omega

/-- Text with an exponent is read as the decimal. -/
theorem decimal?_pointed (neg : Bool) (d : Decimal) :
    Numeral.decimal? neg (pointed d.digits ++ exponent 1 (d.point - 1)).units =
      some (Double.ofDecimal neg d.coeff d.exp) := by
  have hds : ∀ u ∈ d.digits.map Text.unit, isDigit u = true := fun u hu => isDigit_of_mem_digits hu
  have hvalue : Text.natOfDigits (d.digits.map Text.unit) = d.coeff := natOfDigits_toDigits d.coeff
  have hhead : ∀ u ∈ (exponent 1 (d.point - 1)).units.head?, u = Text.unit 'e' := by
    rw [units_exponent]
    intro u hu
    exact (Option.some.inj hu).symm
  have hstops : Numeral.Stops (exponent 1 (d.point - 1)).units := by
    intro u hu
    rw [hhead u hu]
    decide
  have hlen : d.point = d.digits.length + d.exp := rfl
  rw [Text.units_append]
  cases hcs : d.digits with
  | nil => exact absurd hcs (by simp [digits])
  | cons c cs =>
    rw [hcs] at hds hvalue hlen
    cases cs with
    | nil =>
      have hread := Numeral.decimal?_whole neg [Text.unit c] _ (List.cons_ne_nil _ _) hds hstops
        (by intro u hu; rw [hhead u hu]; decide)
      refine hread.trans ?_
      rw [exponent?_exponent, show Text.natOfDigits [Text.unit c] = d.coeff from hvalue]
      simp only [Option.map_some, hlen, List.length_cons, List.length_nil]
      congr 2
      omega
    | cons c' cs =>
      have hread := Numeral.decimal?_fraction neg [Text.unit c] ((c' :: cs).map Text.unit) _
        (List.cons_ne_nil _ _)
        (fun u hu => hds u (by simp_all)) (fun u hu => hds u (List.mem_cons_of_mem _ hu)) hstops
      refine hread.trans ?_
      rw [exponent?_exponent, show Text.natOfDigits ([Text.unit c] ++ (c' :: cs).map Text.unit) =
        d.coeff from hvalue]
      simp only [Option.map_some, hlen, List.length_cons, List.length_map]
      congr 2
      omega

/-- Decimal text starts with a digit and goes on with numeric units. -/
def Written (us : List UInt16) : Prop :=
  ∃ u rest, us = u :: rest ∧ isDigit u = true ∧ ∀ v ∈ rest, isNumeric v = true

theorem written_append {ds rest : List UInt16} (hne : ds ≠ []) (hds : ∀ u ∈ ds, isDigit u = true)
    (hrest : ∀ u ∈ rest, isNumeric u = true) : Written (ds ++ rest) := by
  cases ds with
  | nil => exact absurd rfl hne
  | cons u us =>
    refine ⟨u, us ++ rest, rfl, hds u List.mem_cons_self, ?_⟩
    intro v hv
    rcases List.mem_append.1 hv with hv | hv
    · exact Text.isNumeric_of_isDigit (hds v (List.mem_cons_of_mem u hv))
    · exact hrest v hv

theorem written_positional (d : Decimal) : Written d.positional.units := by
  have hds : ∀ u ∈ d.digits.map Text.unit, isDigit u = true := fun u hu => isDigit_of_mem_digits hu
  have hlen : d.point = (d.digits.map Text.unit).length + d.exp := by simp [point]
  have hpos : 0 < (d.digits.map Text.unit).length := List.length_pos_iff.2 d.digits_ne_nil
  unfold positional
  dsimp only
  generalize d.digits.map Text.unit = ds at hds hlen hpos ⊢
  split
  · exact written_append (List.length_pos_iff.1 hpos) hds
      fun u hu => Text.isNumeric_of_isDigit (isDigit_of_mem_zeros hu)
  · split
    · apply written_append
      · rw [← List.length_pos_iff, List.length_take]
        omega
      · exact fun u hu => hds u (List.mem_of_mem_take hu)
      · exact List.forall_mem_cons.2 ⟨by decide,
          fun u hu => Text.isNumeric_of_isDigit (hds u (List.mem_of_mem_drop hu))⟩
    · rw [List.append_assoc]
      refine ⟨Text.unit '0',
        Text.unit '.' :: (List.replicate (-d.point).toNat (Text.unit '0') ++ ds), rfl, by decide,
        List.forall_mem_cons.2 ⟨by decide, ?_⟩⟩
      intro u hu
      exact Text.isNumeric_of_isDigit ((List.mem_append.1 hu).elim isDigit_of_mem_zeros (hds u))

theorem isNumeric_exponent {e : Int} {u : UInt16} (hu : u ∈ (exponent 1 e).units) :
    isNumeric u = true := by
  rw [units_exponent] at hu
  rcases List.mem_cons.1 hu with rfl | hu
  · decide
  · rcases List.mem_cons.1 hu with rfl | hu
    · split <;> decide
    · exact Text.isNumeric_of_isDigit (isDigit_of_mem_digits hu)

theorem written_pointed (d : Decimal) (e : Int) :
    Written (pointed d.digits ++ exponent 1 e).units := by
  have hds : ∀ u ∈ d.digits.map Text.unit, isDigit u = true := fun u hu => isDigit_of_mem_digits hu
  rw [Text.units_append]
  cases hcs : d.digits with
  | nil => exact absurd hcs (by simp [digits])
  | cons c cs =>
    rw [hcs] at hds
    cases cs with
    | nil => exact written_append (List.cons_ne_nil _ _) hds fun u hu => isNumeric_exponent hu
    | cons c' cs =>
      refine ⟨Text.unit c, _, rfl, hds _ List.mem_cons_self, List.forall_mem_cons.2 ⟨by decide, ?_⟩⟩
      intro u hu
      rcases List.mem_append.1 hu with hu | hu
      · exact Text.isNumeric_of_isDigit (hds u (List.mem_cons_of_mem _ hu))
      · exact isNumeric_exponent hu

/-- Decimal text, with a sign, is read as what its digits and its exponent denote. -/
theorem toDouble_written (neg : Bool) {t : Text} {x : Double} (ht : Written t.units)
    (hread : Numeral.decimal? neg t.units = some x) :
    (Double.signText neg ++ t : Text).toDouble = x := by
  obtain ⟨u, us, hunits, hu, hus⟩ := ht
  obtain rfl : t = ⟨u :: us⟩ := congrArg Text.mk hunits
  exact Numeral.toDouble_signed neg hu hus hread

/-- The plain text of a decimal, with a sign, is read as the decimal. -/
theorem toDouble_text (neg : Bool) {d : Decimal} (hc : d.coeff ≠ 0) :
    (Double.signText neg ++ d.text plain : Text).toDouble = Double.ofDecimal neg d.coeff d.exp := by
  unfold text
  split
  · exact toDouble_written neg (written_positional d) (decimal?_positional neg hc)
  · exact toDouble_written neg (written_pointed d _) (decimal?_pointed neg d)

theorem ofDecimal_normalize (neg : Bool) (d : Decimal) :
    Double.ofDecimal neg d.normalize.coeff d.normalize.exp = Double.ofDecimal neg d.coeff d.exp := by
  fun_induction normalize d with
  | case1 d h ih =>
    have hc : d.coeff / 10 ≠ 0 := by omega
    have hmul : d.coeff / 10 * 10 = d.coeff := by omega
    rw [ih, ← Double.ofDecimal_mul_ten neg hc, hmul]
  | case2 d h => rfl

theorem coeff_normalize_ne_zero {d : Decimal} (hc : d.coeff ≠ 0) : d.normalize.coeff ≠ 0 := by
  fun_induction normalize d with
  | case1 d h ih => exact ih (by simp; omega)
  | case2 d h => exact hc

end Decimal

/-! ## Numbers -/

namespace Double

theorem readsAs_of_shortestOn? {r : Nat} {e : Int} {d : Decimal} (h : shortestOn? r e = some d) :
    readsAs r d = true := by
  unfold shortestOn? at h
  dsimp only at h
  split at h
  · rename_i hnearest
    exact Option.some.inj h ▸ hnearest
  · split at h
    · rename_i hbelow
      exact Option.some.inj h ▸ hbelow
    · split at h
      · rename_i habove
        exact Option.some.inj h ▸ habove
      · exact absurd h (Option.some_ne_none d).symm

theorem ofDecimal_of_readsAs {r : Nat} {d : Decimal} (hr : r < topRank) (neg : Bool)
    (h : readsAs r d = true) : ofDecimal neg d.coeff d.exp = .finite neg r hr := by
  unfold readsAs at h
  split at h
  · rename_i s r' hr' hread
    obtain rfl : r' = r := of_decide_eq_true h
    exact ofDecimal_of_rank neg hread
  · cases h

theorem ofDecimal_zero (neg : Bool) (e : Int) : ofDecimal neg 0 e = zero neg := by
  unfold ofDecimal
  exact if_pos rfl

/-- The shortest decimal of a positive magnitude is not zero and is read as it. -/
theorem ofDecimal_shortest {r : Nat} (hpos : 0 < r) (hr : r < topRank) (neg : Bool) :
    (shortest r).coeff ≠ 0 ∧
      ofDecimal neg (shortest r).coeff (shortest r).exp = .finite neg r hr := by
  have key : ∀ d : Decimal, readsAs r d = true → d.normalize.coeff ≠ 0 ∧
      ofDecimal neg d.normalize.coeff d.normalize.exp = .finite neg r hr := by
    intro d hd
    have hread := ofDecimal_of_readsAs hr neg hd
    refine ⟨Decimal.coeff_normalize_ne_zero ?_, (Decimal.ofDecimal_normalize neg d).trans hread⟩
    intro hzero
    rw [hzero, ofDecimal_zero] at hread
    have hrank : 0 = r := (Double.finite.inj hread).2
    omega
  apply key
  cases hfound : (List.range 17).findSome? fun (k : Nat) =>
      shortestOn? r (decimalExponent (unitsOfRank r) - k) with
  | none => exact readsAs_exactDecimal hpos hr
  | some d =>
    obtain ⟨k, -, hk⟩ := List.exists_of_findSome?_eq_some hfound
    exact readsAs_of_shortestOn? hk

/-- The text of a number as a constant is read as the number: the sign of zero is
    kept, and what is not a number is read as such. -/
theorem toDouble_constantText (x : Double) : x.constantText.toDouble = x := by
  unfold constantText
  split
  · rename_i hx
    rw [hx]
    rfl
  · rename_i hx
    cases x with
    | nan => rfl
    | infinite neg => cases neg <;> rfl
    | finite neg r hr =>
      unfold text
      dsimp only
      split
      · rename_i hzero
        subst hzero
        cases neg with
        | true => exact absurd rfl hx
        | false => rfl
      · rename_i hzero
        obtain ⟨hc, hread⟩ := ofDecimal_shortest (Nat.pos_of_ne_zero hzero) hr neg
        rw [Decimal.toDouble_text neg hc, hread]

theorem constantText_inj {x y : Double} (h : x.constantText = y.constantText) : x = y := by
  rw [← toDouble_constantText x, h, toDouble_constantText]

end Double

end Reckon
