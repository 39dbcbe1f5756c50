-- SUMMARY: The general format writes a number rounded to its significant digits, in fixed or exponent notation as the rounded value asks.
import Mathlib.Data.List.DropRight
import Reckon.Proofs.Significant

/-!
# The general format

What the general format writes is a decimal numeral. The numeral's value is the
number rounded to the significant digits that are asked for, its notation
depends on the first digit of the rounded value alone, and no zero ends its
fraction. The exponent comes from one rounding and the digits in fixed notation
from another; both give the same decimal, also if the first carries.
-/

namespace Reckon

/-! ## Numerals as they are written -/

/-- One digit or more. -/
@[ext] structure Digits where
  units : List UInt16
  ne_nil : units ≠ []
  isDigit : ∀ u ∈ units, Text.isDigit u = true

/-- A decimal numeral: a sign, digits, digits behind a point and an exponent. A plus sign is
    written in front of an exponent only. -/
@[ext] structure Figure where
  neg : Bool
  whole : Digits
  fraction : Option Digits
  exponent : Option (Bool × Digits)

namespace Figure

/-- The digits behind the point. -/
def places (f : Figure) : List UInt16 := f.fraction.elim [] Digits.units

def fractionUnits (f : Figure) : List UInt16 :=
  f.fraction.elim [] fun ds => Text.unit '.' :: ds.units

def exponentUnits (f : Figure) : List UInt16 :=
  f.exponent.elim [] fun e =>
    Text.unit 'e' :: (if e.1 then Text.unit '-' else Text.unit '+') :: e.2.units

def text (f : Figure) : Text :=
  Double.signText f.neg ++ ⟨f.whole.units ++ f.fractionUnits ++ f.exponentUnits⟩

def exponentValue (f : Figure) : ℤ :=
  f.exponent.elim 0 fun e =>
    if e.1 then -(Text.natOfDigits e.2.units : ℤ) else Text.natOfDigits e.2.units

/-- The magnitude that is written. -/
def decimal (f : Figure) : Decimal :=
  ⟨Text.natOfDigits (f.whole.units ++ f.places), f.exponentValue - f.places.length⟩

def value (f : Figure) : ℚ := withSign f.neg f.decimal.value

/-! ## Reading -/

variable (f : Figure)

theorem head?_exponentUnits {u : UInt16} (hu : u ∈ f.exponentUnits.head?) : u = Text.unit 'e' := by
  unfold exponentUnits at hu
  cases hexp : f.exponent with
  | none => simp [hexp] at hu
  | some e => simpa [hexp] using hu.symm

theorem stops_exponentUnits : Numeral.Stops f.exponentUnits := by
  intro u hu
  rw [f.head?_exponentUnits hu]
  decide

theorem exponent?_exponentUnits : Numeral.exponent? f.exponentUnits = some f.exponentValue := by
  unfold exponentUnits exponentValue
  cases f.exponent with
  | none => rfl
  | some e =>
    obtain ⟨neg, ds⟩ := e
    have hall : ds.units.all Text.isDigit = true := List.all_eq_true.2 ds.isDigit
    have hsign : Text.unit '+' ≠ Text.unit '-' := by decide
    cases neg <;> simp [Numeral.exponent?, Numeral.sign, hsign, hall, ds.ne_nil]

theorem decimal?_units (neg : Bool) :
    Numeral.decimal? neg (f.whole.units ++ f.fractionUnits ++ f.exponentUnits) =
      some (Double.ofDecimal neg f.decimal.coeff f.decimal.exp) := by
  unfold decimal fractionUnits places
  cases f.fraction with
  | none =>
    have hread := Numeral.decimal?_whole neg f.whole.units f.exponentUnits f.whole.ne_nil
      f.whole.isDigit f.stops_exponentUnits
      (fun u hu => by rw [f.head?_exponentUnits hu]; decide)
    rw [Option.elim, List.append_nil, hread, f.exponent?_exponentUnits]
    simp
  | some ds =>
    have hread := Numeral.decimal?_fraction neg f.whole.units ds.units f.exponentUnits
      f.whole.ne_nil f.whole.isDigit ds.isDigit f.stops_exponentUnits
    rw [Option.elim, List.append_assoc, List.cons_append, hread, f.exponent?_exponentUnits]
    rfl

theorem isNumeric_exponentUnits {u : UInt16} (hu : u ∈ f.exponentUnits) :
    Text.isNumeric u = true := by
  unfold exponentUnits at hu
  cases hexp : f.exponent with
  | none => simp [hexp] at hu
  | some e =>
    rw [hexp, Option.elim] at hu
    rcases List.mem_cons.1 hu with rfl | hu
    · decide
    · rcases List.mem_cons.1 hu with rfl | hu
      · split <;> decide
      · exact Text.isNumeric_of_isDigit (e.2.isDigit u hu)

theorem isNumeric_fractionUnits {u : UInt16} (hu : u ∈ f.fractionUnits) :
    Text.isNumeric u = true := by
  unfold fractionUnits at hu
  cases hfrac : f.fraction with
  | none => simp [hfrac] at hu
  | some ds =>
    rw [hfrac, Option.elim] at hu
    rcases List.mem_cons.1 hu with rfl | hu
    · decide
    · exact Text.isNumeric_of_isDigit (ds.isDigit u hu)

/-- A numeral is read as the number nearest to its value. -/
theorem isRounded_toDouble : Double.IsRounded f.neg f.decimal f.text.toDouble := by
  have hwritten : Decimal.Written (f.whole.units ++ (f.fractionUnits ++ f.exponentUnits)) :=
    Decimal.written_append f.whole.ne_nil f.whole.isDigit fun u hu =>
      (List.mem_append.1 hu).elim f.isNumeric_fractionUnits f.isNumeric_exponentUnits
  rw [← List.append_assoc] at hwritten
  refine ⟨f.decimal.rank, ?_, f.decimal.isNearest_rank⟩
  rw [text, Decimal.toDouble_written f.neg hwritten (f.decimal?_units f.neg),
    Double.ofDecimal_eq_ofRank]

/-! ## A text is that of one numeral only -/

theorem append_digits_inj {ds ds' rest rest' : List UInt16}
    (hds : ∀ u ∈ ds, Text.isDigit u = true) (hds' : ∀ u ∈ ds', Text.isDigit u = true)
    (hrest : Numeral.Stops rest) (hrest' : Numeral.Stops rest') (h : ds ++ rest = ds' ++ rest') :
    ds = ds' ∧ rest = rest' := by
  obtain ⟨htake, hdrop⟩ := Numeral.span_digits hds hrest
  obtain ⟨htake', hdrop'⟩ := Numeral.span_digits hds' hrest'
  rw [← h] at htake' hdrop'
  exact ⟨htake.symm.trans htake', hdrop.symm.trans hdrop'⟩

theorem stops_fractionUnits : Numeral.Stops (f.fractionUnits ++ f.exponentUnits) := by
  unfold fractionUnits
  cases f.fraction with
  | none => exact f.stops_exponentUnits
  | some ds =>
    intro u hu
    cases hu
    decide

theorem exponent_inj {f g : Figure} (h : f.exponentUnits = g.exponentUnits) :
    f.exponent = g.exponent := by
  unfold exponentUnits at h
  have hsign : ∀ neg neg' : Bool, (if neg then Text.unit '-' else Text.unit '+') =
      (if neg' then Text.unit '-' else Text.unit '+') → neg = neg' := by decide
  cases hf : f.exponent with
  | none =>
    cases hg : g.exponent with
    | none => rfl
    | some e' =>
      rw [hf, hg] at h
      cases h
  | some e =>
    cases hg : g.exponent with
    | none =>
      rw [hf, hg] at h
      cases h
    | some e' =>
      rw [hf, hg] at h
      obtain ⟨hneg, hds⟩ := List.cons.inj (List.cons.inj h).2
      exact congrArg some (Prod.ext (hsign _ _ hneg) (Digits.ext hds))

theorem fraction_inj {f g : Figure}
    (h : f.fractionUnits ++ f.exponentUnits = g.fractionUnits ++ g.exponentUnits) :
    f.fraction = g.fraction ∧ f.exponent = g.exponent := by
  have hpoint : ∀ (f : Figure) (us : List UInt16), f.exponentUnits ≠ Text.unit '.' :: us := by
    intro f us h
    have hu := f.head?_exponentUnits (u := Text.unit '.') (by rw [h]; rfl)
    revert hu
    decide
  unfold fractionUnits at h
  cases hf : f.fraction with
  | none =>
    cases hg : g.fraction with
    | none =>
      rw [hf, hg] at h
      exact ⟨rfl, exponent_inj h⟩
    | some ds' =>
      rw [hf, hg] at h
      exact absurd h (hpoint f _)
  | some ds =>
    cases hg : g.fraction with
    | none =>
      rw [hf, hg] at h
      exact absurd h.symm (hpoint g _)
    | some ds' =>
      rw [hf, hg] at h
      obtain ⟨hds, hexp⟩ := append_digits_inj ds.isDigit ds'.isDigit f.stops_exponentUnits
        g.stops_exponentUnits (List.cons.inj h).2
      exact ⟨congrArg some (Digits.ext hds), exponent_inj hexp⟩

theorem sign_text : Numeral.sign f.text.units =
    (f.neg, f.whole.units ++ (f.fractionUnits ++ f.exponentUnits)) := by
  rw [text, List.append_assoc]
  cases f.neg with
  | true => rfl
  | false =>
    cases hunits : f.whole.units with
    | nil => exact absurd hunits f.whole.ne_nil
    | cons u us =>
      have hu : Text.isDigit u = true := f.whole.isDigit u (by simp [hunits])
      have hminus : u ≠ Text.unit '-' := by rintro rfl; revert hu; decide
      have hplus : u ≠ Text.unit '+' := by rintro rfl; revert hu; decide
      exact (if_neg hminus).trans (if_neg hplus)

theorem text_inj {f g : Figure} (h : f.text = g.text) : f = g := by
  have hsign := f.sign_text
  rw [h, g.sign_text] at hsign
  obtain ⟨hneg, hunits⟩ := Prod.mk.inj hsign
  obtain ⟨hwhole, hrest⟩ := append_digits_inj g.whole.isDigit f.whole.isDigit
    g.stops_fractionUnits f.stops_fractionUnits hunits
  obtain ⟨hfrac, hexp⟩ := fraction_inj hrest
  exact Figure.ext hneg.symm (Digits.ext hwhole.symm) hfrac.symm hexp.symm

end Figure

/-! ## Digits of whole numbers -/

namespace Digits

/-- The digits of `n`, filled up to `width` with zeros. -/
def ofNat (width n : ℕ) : Digits where
  units := List.replicate (width - (Nat.toDigits 10 n).length) (Text.unit '0') ++
    (Nat.toDigits 10 n).map Text.unit
  ne_nil := by simp
  isDigit := fun _ hu =>
    (List.mem_append.1 hu).elim Decimal.isDigit_of_mem_zeros Decimal.isDigit_of_mem_digits

theorem natOfDigits_ofNat (width n : ℕ) : Text.natOfDigits (ofNat width n).units = n :=
  (Decimal.natOfDigits_zeros_append _ _).trans (Decimal.natOfDigits_toDigits n)

theorem length_ofNat (width n : ℕ) :
    (ofNat width n).units.length = max width (Nat.toDigits 10 n).length := by
  simp only [ofNat, List.length_append, List.length_replicate, List.length_map]
  omega

theorem lt_length_ofNat (places n : ℕ) : places < (ofNat (places + 1) n).units.length := by
  rw [length_ofNat]
  omega

theorem units_ofNat_of_le {width n : ℕ} (h : width ≤ (Nat.toDigits 10 n).length) :
    (ofNat width n).units = (Nat.toDigits 10 n).map Text.unit := by
  simp only [ofNat, Nat.sub_eq_zero_of_le h, List.replicate_zero, List.nil_append]

/-- All digits but the last `k`. -/
def front (ds : Digits) (k : ℕ) (h : k < ds.units.length) : Digits where
  units := ds.units.take (ds.units.length - k)
  ne_nil := by
    rw [← List.length_pos_iff, List.length_take]
    omega
  isDigit := fun u hu => ds.isDigit u (List.mem_of_mem_take hu)

/-- The last `k` digits. -/
def back (ds : Digits) (k : ℕ) : List UInt16 := ds.units.drop (ds.units.length - k)

theorem isDigit_of_mem_back {ds : Digits} {k : ℕ} {u : UInt16} (hu : u ∈ ds.back k) :
    Text.isDigit u = true :=
  ds.isDigit u (List.mem_of_mem_drop hu)

theorem front_append_back (ds : Digits) (k : ℕ) (h : k < ds.units.length) :
    (ds.front k h).units ++ ds.back k = ds.units :=
  List.take_append_drop _ _

theorem length_back (ds : Digits) {k : ℕ} (h : k < ds.units.length) : (ds.back k).length = k := by
  rw [back, List.length_drop]
  omega

/-! ## Zeros at the end -/

/-- The digits without the zeros at their end, if any are left. -/
def trimmed (us : List UInt16) (h : ∀ u ∈ us, Text.isDigit u = true) : Option Digits :=
  if hne : us.rdropWhile (· = Text.unit '0') = [] then none
  else some ⟨_, hne, fun u hu => h u ((List.rdropWhile_prefix _ us).subset hu)⟩

theorem getLast_of_mem_trimmed {us : List UInt16} {h : ∀ u ∈ us, Text.isDigit u = true}
    {ds : Digits} (hds : ds ∈ trimmed us h) : ds.units.getLast ds.ne_nil ≠ Text.unit '0' := by
  unfold trimmed at hds
  split at hds
  · cases hds
  · next hne =>
    cases hds
    simpa using List.rdropWhile_last_not _ _ hne

/-- What is left, and the zeros. -/
theorem exists_zeros (us : List UInt16) (h : ∀ u ∈ us, Text.isDigit u = true) :
    ∃ k, us = (trimmed us h).elim [] units ++ List.replicate k (Text.unit '0') := by
  have hunits : (trimmed us h).elim [] units = us.rdropWhile (· = Text.unit '0') := by
    unfold trimmed
    split
    · next hnil => exact hnil.symm
    · rfl
  have hzeros : us.rtakeWhile (· = Text.unit '0') =
      List.replicate (us.rtakeWhile (· = Text.unit '0')).length (Text.unit '0') :=
    List.eq_replicate_of_mem fun u hu => by simpa using List.mem_rtakeWhile_imp hu
  refine ⟨(us.rtakeWhile (· = Text.unit '0')).length, ?_⟩
  rw [hunits, ← hzeros, List.rdropWhile_append_rtakeWhile]

end Digits

/-- Digits with a point in front of the places, if there are any. -/
def withPlaces (whole : List UInt16) : List UInt16 → Text
  | [] => ⟨whole⟩
  | u :: us => ⟨whole ++ Text.unit '.' :: u :: us⟩

theorem withPlaces_of_ne_nil (whole : List UInt16) {us : List UInt16} (h : us ≠ []) :
    withPlaces whole us = ⟨whole ++ Text.unit '.' :: us⟩ := by
  cases us with
  | nil => exact absurd rfl h
  | cons u us => rfl

/-- The digits of a whole number with a point in front of the last `places`. -/
def placed (n places : ℕ) : Text :=
  withPlaces
    ((Digits.ofNat (places + 1) n).units.take ((Digits.ofNat (places + 1) n).units.length - places))
    ((Digits.ofNat (places + 1) n).back places)

theorem pointed_digits (d : Decimal) :
    Decimal.pointed d.digits = placed d.coeff (d.digits.length - 1) := by
  have hpos : 0 < d.digits.length := Nat.length_toDigits_pos
  have hunits : (Digits.ofNat (d.digits.length - 1 + 1) d.coeff).units = d.digits.map Text.unit :=
    Digits.units_ofNat_of_le (Nat.le_of_eq (Nat.sub_add_cancel hpos))
  rw [placed, Digits.back, hunits, List.length_map]
  cases hcs : d.digits with
  | nil => exact absurd hcs (by simp [Decimal.digits])
  | cons c cs =>
    rw [show (c :: cs).length - ((c :: cs).length - 1) = 1 from by simp]
    cases cs <;> rfl

theorem exponent_eq (width : ℕ) (e : ℤ) :
    Decimal.exponent width e = ⟨Text.unit 'e' ::
      (if decide (e < 0) then Text.unit '-' else Text.unit '+') ::
        (Digits.ofNat width e.natAbs).units⟩ := by
  unfold Decimal.exponent Digits.ofNat
  by_cases he : e < 0
  · simp only [if_pos he, decide_eq_true he, List.length_map]
    rfl
  · simp only [if_neg he, decide_eq_false he, List.length_map]
    rfl

theorem fixedText_eq {r : ℕ} (places : ℕ)
    (h : ¬ Double.fixedLimit * Double.unitsPerOne ≤ Double.unitsOfRank r) :
    Double.fixedText r places = placed (Double.fixed (Double.unitsOfRank r) places).coeff places := by
  unfold Double.fixedText
  dsimp only
  rw [if_neg h]
  generalize Double.fixed (Double.unitsOfRank r) places = d
  have hpos : 0 < d.digits.length := Nat.length_toDigits_pos
  split
  next hzero =>
    subst hzero
    have hunits : (Digits.ofNat (0 + 1) d.coeff).units = d.digits.map Text.unit :=
      Digits.units_ofNat_of_le hpos
    rw [placed, Digits.back, hunits, Nat.sub_zero, List.take_length, List.drop_length]
    rfl
  next hplaces =>
    have hback : (Digits.ofNat (places + 1) d.coeff).back places ≠ [] := by
      rw [← List.length_pos_iff, Digits.length_back _ (Digits.lt_length_ofNat _ _)]
      omega
    rw [placed, withPlaces_of_ne_nil _ hback, List.length_map]
    rfl

namespace Double

/-- Behind the last point, the zeros at the end are dropped, and the point if nothing is left. -/
theorem dropFractionZeros_point (whole : List UInt16) {us : List UInt16}
    (hus : Text.unit '.' ∉ us) :
    dropFractionZeros ⟨whole ++ Text.unit '.' :: us⟩ =
      if us.rdropWhile (· = Text.unit '0') = [] then ⟨whole⟩
      else ⟨whole ++ Text.unit '.' :: us.rdropWhile (· = Text.unit '0')⟩ := by
  have hmem : Text.unit '.' ∈ whole ++ Text.unit '.' :: us := by simp
  have hstay : (Text.unit '.' :: whole.reverse).dropWhile (· = Text.unit '0') =
      Text.unit '.' :: whole.reverse := List.dropWhile_cons_of_neg (by decide)
  have hreverse : (whole ++ Text.unit '.' :: us).reverse =
      us.reverse ++ Text.unit '.' :: whole.reverse := by simp
  unfold dropFractionZeros List.rdropWhile
  rw [if_pos hmem, hreverse, List.dropWhile_append, hstay]
  cases hdrop : us.reverse.dropWhile (· = Text.unit '0') with
  | nil => simp
  | cons v vs =>
    have hv : v ≠ Text.unit '.' := by
      rintro rfl
      have hsub := (List.dropWhile_sublist (l := us.reverse) (· = Text.unit '0')).subset
      exact hus (List.mem_reverse.1 (hsub (by rw [hdrop]; exact List.mem_cons_self)))
    simp [hv]

theorem point_not_mem {us : List UInt16} (h : ∀ u ∈ us, Text.isDigit u = true) :
    Text.unit '.' ∉ us := by
  intro hmem
  have hdigit := h _ hmem
  revert hdigit
  decide

/-- Of digits before and behind the point, only zeros at the end of the latter are dropped. -/
theorem dropFractionZeros_withPlaces {whole places : List UInt16}
    (hwhole : ∀ u ∈ whole, Text.isDigit u = true) (hplaces : ∀ u ∈ places, Text.isDigit u = true) :
    dropFractionZeros (withPlaces whole places) =
      ⟨whole ++ (Digits.trimmed places hplaces).elim [] fun ds => Text.unit '.' :: ds.units⟩ := by
  cases places with
  | nil => simp [withPlaces, dropFractionZeros, point_not_mem hwhole, Digits.trimmed]
  | cons u us =>
    rw [withPlaces, dropFractionZeros_point whole (point_not_mem hplaces), Digits.trimmed]
    split
    · simp
    · rfl

end Double

namespace Figure

/-- The numeral of the decimal `coeff * 10 ^ -places` and an exponent, without the zeros at the
    end of a fraction. -/
def ofCoeff (neg : Bool) (coeff places : ℕ) (exponent : Option (Bool × Digits)) : Figure where
  neg := neg
  whole := (Digits.ofNat (places + 1) coeff).front places (Digits.lt_length_ofNat _ _)
  fraction := Digits.trimmed ((Digits.ofNat (places + 1) coeff).back places)
    fun _ hu => Digits.isDigit_of_mem_back hu
  exponent := exponent

section

variable (neg : Bool) (coeff places : ℕ) (exponent : Option (Bool × Digits))

theorem text_ofCoeff :
    (ofCoeff neg coeff places exponent).text =
      Double.signText neg ++ Double.dropFractionZeros (placed coeff places) ++
        ⟨(ofCoeff neg coeff places exponent).exponentUnits⟩ := by
  rw [placed, Double.dropFractionZeros_withPlaces
    (fun u hu => Digits.isDigit _ u (List.mem_of_mem_take hu))
    (fun _ hu => Digits.isDigit_of_mem_back hu)]
  exact congrArg Text.mk (List.append_assoc _ _ _).symm

/-- Dropping the zeros does not change the value. -/
theorem value_ofCoeff : (ofCoeff neg coeff places exponent).decimal.value =
    Decimal.value ⟨coeff, (ofCoeff neg coeff places exponent).exponentValue - places⟩ := by
  have hlen := Digits.lt_length_ofNat places coeff
  obtain ⟨k, hback⟩ := Digits.exists_zeros ((Digits.ofNat (places + 1) coeff).back places)
    fun _ hu => Digits.isDigit_of_mem_back hu
  have hplaces := Digits.length_back _ hlen
  have hcoeff := Digits.natOfDigits_ofNat (places + 1) coeff
  rw [← Digits.front_append_back _ places hlen, hback, ← List.append_assoc,
    Decimal.natOfDigits_append_zeros] at hcoeff
  rw [hback, List.length_append, List.length_replicate] at hplaces
  change Text.natOfDigits ((ofCoeff neg coeff places exponent).whole.units ++
    (ofCoeff neg coeff places exponent).places) * 10 ^ k = coeff at hcoeff
  change (ofCoeff neg coeff places exponent).places.length + k = places at hplaces
  generalize ofCoeff neg coeff places exponent = f at hcoeff hplaces ⊢
  rw [← hcoeff, Decimal.value_zeros, ← hplaces, decimal]
  congr 2
  omega

theorem fraction_ofCoeff {ds : Digits} (hds : ds ∈ (ofCoeff neg coeff places exponent).fraction) :
    ds.units.getLast ds.ne_nil ≠ Text.unit '0' :=
  Digits.getLast_of_mem_trimmed (h := fun _ hu => Digits.isDigit_of_mem_back hu) hds

end

/-- How the general format with `p` significant digits writes a value that has no more digits. -/
structure IsGeneral (p : ℕ) (q : ℚ) (f : Figure) : Prop where
  value_eq : f.value = q
  exponent_eq_none_iff : f.exponent = none ↔ -4 ≤ Int.log 10 |q| ∧ Int.log 10 |q| < p
  /-- An exponent is that of the first digit, which stands alone before the point. -/
  exponent_eq_some : ∀ e ∈ f.exponent, f.exponentValue = Int.log 10 |q| ∧
    f.whole.units.length = 1 ∧ 2 ≤ e.2.units.length
  fraction_getLast : ∀ ds ∈ f.fraction, ds.units.getLast ds.ne_nil ≠ Text.unit '0'

end Figure

/-! ## The format -/

namespace Double

theorem not_digits_error {p : ℕ} (hp : 1 ≤ p) (hp' : p ≤ 101) :
    ¬ ((p : ℤ) < 1 || maxPlaces < p - 1) = true := by
  rw [Bool.or_eq_true, decide_eq_true_eq, decide_eq_true_eq, maxPlaces]
  omega

section

variable {neg : Bool} {r : ℕ} {h : r < topRank} {p : ℕ} {d : Decimal} (hr : r ≠ 0) (hp : 1 ≤ p)
  (hp' : p ≤ 101) (hd : significant (unitsOfRank r) p = d)

include hr hp hp' hd

theorem general_scientific (he : d.point - 1 < -4 ∨ p ≤ d.point - 1) :
    general p (.finite neg r h) = .ok (signText neg ++
      dropFractionZeros (Decimal.pointed d.digits) ++
        Decimal.exponent generalExponentWidth (d.point - 1)) := by
  have hdigits := not_digits_error hp hp'
  unfold general
  dsimp only
  rw [if_neg hr, if_neg hdigits, Int.toNat_natCast, hd, if_pos (by simpa using he)]

theorem general_fixed (hlow : -4 ≤ d.point - 1) (hhigh : d.point - 1 < p)
    (hplaces : p - d.point ≤ maxPlaces) :
    general p (.finite neg r h) = .ok (signText neg ++
      dropFractionZeros (fixedText r (p - d.point).toNat)) := by
  have hdigits := not_digits_error hp hp'
  have hexp : ¬ (d.point - 1 < -4 || p ≤ d.point - 1) = true := by
    rw [Bool.or_eq_true, decide_eq_true_eq, decide_eq_true_eq]
    omega
  unfold general
  dsimp only
  rw [if_neg hr, if_neg hdigits, Int.toNat_natCast, hd, if_neg hexp,
    show (p : ℤ) - 1 - (d.point - 1) = p - d.point from by omega, if_neg (Int.not_lt.2 hplaces)]

end

/-- The numeral in exponent notation. -/
def scientific (neg : Bool) (d : Decimal) : Figure :=
  .ofCoeff neg d.coeff (d.digits.length - 1)
    (some (decide (d.point - 1 < 0), Digits.ofNat generalExponentWidth (d.point - 1).natAbs))

theorem text_scientific (neg : Bool) (d : Decimal) :
    (scientific neg d).text = signText neg ++ dropFractionZeros (Decimal.pointed d.digits) ++
      Decimal.exponent generalExponentWidth (d.point - 1) := by
  rw [pointed_digits, exponent_eq]
  exact Figure.text_ofCoeff ..

theorem exponentValue_scientific (neg : Bool) (d : Decimal) :
    (scientific neg d).exponentValue = d.point - 1 := by
  change (if decide (d.point - 1 < 0) then
    -(Text.natOfDigits (Digits.ofNat generalExponentWidth (d.point - 1).natAbs).units : ℤ)
    else Text.natOfDigits (Digits.ofNat generalExponentWidth (d.point - 1).natAbs).units) = _
  rw [Digits.natOfDigits_ofNat]
  split
  · next hneg =>
    have := of_decide_eq_true hneg
    omega
  · next hneg =>
    have := of_decide_eq_false (Bool.eq_false_iff.2 hneg)
    omega

theorem value_scientific (neg : Bool) (d : Decimal) :
    (scientific neg d).decimal.value = d.value := by
  have hpos : 0 < d.digits.length := Nat.length_toDigits_pos
  have hvalue := Figure.value_ofCoeff neg d.coeff (d.digits.length - 1)
    (some (decide (d.point - 1 < 0), Digits.ofNat generalExponentWidth (d.point - 1).natAbs))
  rw [← scientific, exponentValue_scientific] at hvalue
  rw [hvalue]
  congr 2
  unfold Decimal.point
  omega

theorem length_whole_scientific (neg : Bool) (d : Decimal) :
    (scientific neg d).whole.units.length = 1 := by
  have hpos : 0 < d.digits.length := Nat.length_toDigits_pos
  have hlen : (Digits.ofNat (d.digits.length - 1 + 1) d.coeff).units.length = d.digits.length := by
    rw [Digits.length_ofNat, Nat.sub_add_cancel hpos]
    exact Nat.max_self _
  change (List.take _ _).length = 1
  rw [List.length_take, hlen]
  omega

section

variable (neg : Bool) {d : Decimal} {p : ℕ} (hpos : 0 < d.value)
  (hlog : Int.log 10 d.value = d.point - 1)

include hpos hlog

theorem log_withSign : Int.log 10 |withSign neg d.value| = d.point - 1 := by
  rw [abs_withSign, abs_of_pos hpos, hlog]

theorem isGeneral_scientific (he : ¬ (-4 ≤ d.point - 1 ∧ d.point - 1 < p)) :
    (scientific neg d).IsGeneral p (withSign neg d.value) := by
  have hq := log_withSign neg hpos hlog
  refine ⟨?_, ?_, ?_, fun ds hds => Figure.fraction_ofCoeff _ _ _ _ hds⟩
  · rw [Figure.value, value_scientific]
    rfl
  · rw [hq]
    exact iff_of_false (Option.some_ne_none _) he
  · intro e he'
    cases he'
    refine ⟨hq ▸ exponentValue_scientific neg d, length_whole_scientific neg d, ?_⟩
    rw [Digits.length_ofNat]
    exact Nat.le_max_left _ _

theorem isGeneral_fixed {places : ℕ} (hexp : d.exp = -(places : ℤ))
    (he : -4 ≤ d.point - 1 ∧ d.point - 1 < p) :
    (Figure.ofCoeff neg d.coeff places none).IsGeneral p (withSign neg d.value) := by
  have hq := log_withSign neg hpos hlog
  refine ⟨?_, ?_, ?_, fun ds hds => Figure.fraction_ofCoeff _ _ _ _ hds⟩
  · have hdecimal : (⟨d.coeff, (Figure.ofCoeff neg d.coeff places none).exponentValue - places⟩ :
        Decimal) = d := by
      rw [show (Figure.ofCoeff neg d.coeff places none).exponentValue = 0 from rfl, zero_sub, ← hexp]
    rw [Figure.value, Figure.value_ofCoeff, hdecimal]
    rfl
  · rw [hq]
    exact iff_of_true rfl he
  · intro e he'
    cases he'

end

/-- With `p` significant digits, a number is written exactly as its value rounded to so many
    digits, in fixed notation if the first digit of the rounded value asks for it. -/
theorem general_rounds {x : Double} {q : ℚ} (hx : x.value? = some q) (hq : q ≠ 0) {p : ℕ}
    (hp : 1 ≤ p) (hp' : p ≤ 21) :
    ∃ f : Figure, x.general p = .ok f.text ∧ (∀ g : Figure, g.text = f.text → g = f) ∧
      IsRounded f.neg f.decimal f.text.toDouble ∧ f.IsGeneral p (roundSignificant p q) := by
  obtain ⟨neg, r, h, rfl, rfl⟩ : ∃ neg r h, x = .finite neg r h ∧
      q = withSign neg (magnitude (unitsOfRank r)) := by
    cases x with
    | nan => cases hx
    | infinite neg => cases hx
    | finite neg r h => exact ⟨neg, r, h, rfl, (Option.some.inj hx).symm⟩
  have hr : r ≠ 0 := by
    rintro rfl
    apply hq
    cases neg <;> simp [withSign, magnitude_unitsOfRank_zero]
  have hu := unitsOfRank_pos (Nat.pos_of_ne_zero hr)
  obtain ⟨d, hsig⟩ : ∃ d, significant (unitsOfRank r) p = d := ⟨_, rfl⟩
  have hd := isSignificant_significant hu hp
  rw [hsig] at hd
  have hpoint := hd.point_eq hp
  have hpos := hd.value_pos
  have hlog := hd.log_value hp
  rw [roundSignificant_withSign p neg (magnitude_pos hu), ← hd.value_eq]
  by_cases he : -4 ≤ d.point - 1 ∧ d.point - 1 < p
  · have hexp : d.exp = -((p - d.point).toNat : ℤ) := by omega
    have hplaces : p - d.point ≤ maxPlaces := by
      rw [maxPlaces]
      omega
    refine ⟨.ofCoeff neg d.coeff (p - d.point).toNat none, ?_, fun g hg => Figure.text_inj hg,
      Figure.isRounded_toDouble _, isGeneral_fixed neg hpos hlog hexp he⟩
    rw [general_fixed hr hp (by omega) hsig he.1 he.2 hplaces,
      fixedText_eq _ (hd.lt_fixedLimit hu hp (by omega)), hd.fixed_eq hexp, Figure.text_ofCoeff]
    exact congrArg (fun us => Except.ok (Text.mk us)) (List.append_nil _).symm
  · refine ⟨scientific neg d, ?_, fun g hg => Figure.text_inj hg, Figure.isRounded_toDouble _,
      isGeneral_scientific neg hpos hlog he⟩
    rw [general_scientific hr hp (by omega) hsig (by omega), text_scientific]

/-- `999.5`, half way between numbers of three digits. -/
def nearlyThousand : Double := .finite false 4652002910794678272 (by decide)

theorem value?_nearlyThousand : nearlyThousand.value? = some (1999 / 2) := by
  have hunits : unitsOfRank 4652002910794678272 * 2 = 1999 * unitsPerOne := by decide +kernel
  have hone : (unitsPerOne : ℚ) ≠ 0 := Nat.cast_ne_zero.2 (Nat.ne_of_gt unitsPerOne_pos)
  refine congrArg some ?_
  rw [withSign, if_neg Bool.false_ne_true, magnitude, div_eq_div_iff hone (by norm_num)]
  exact_mod_cast hunits

/-- The half goes up and carries, and the new exponent asks for the other notation. -/
theorem general_nearlyThousand :
    nearlyThousand.value? = some (1999 / 2) ∧ nearlyThousand.general (3 : ℕ) = .ok "1e+03" ∧
      ∃ f : Figure, nearlyThousand.general (3 : ℕ) = .ok f.text ∧
        (∀ g : Figure, g.text = f.text → g = f) ∧
        IsRounded f.neg f.decimal f.text.toDouble ∧ f.IsGeneral 3 (roundSignificant 3 (1999 / 2)) :=
  ⟨value?_nearlyThousand, by decide +kernel,
    general_rounds value?_nearlyThousand (by norm_num) (by decide) (by decide)⟩

end Double

end Reckon
