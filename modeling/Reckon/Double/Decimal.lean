-- SUMMARY: Decimal digits of a binary64 magnitude: the shortest that read back, a given number of significant digits, a given number of places.
import Reckon.Double

/-!
# Decimal digits

A positive magnitude is `units / 2^1074`. Its digits on a decimal grid are the
quotient of its exact value and the grid's step, rounded as the caller asks.
The shortest digits are those on the coarsest grid on which some decimal is
rounded to the magnitude itself.
-/

namespace Reckon

/-- The decimal `coeff * 10 ^ exp`. -/
structure Decimal where
  coeff : Nat
  exp : Int
deriving DecidableEq, Inhabited

namespace Decimal

/-- The digits of the coefficient. -/
def digits (d : Decimal) : List Char := Nat.toDigits 10 d.coeff

/-- How many digits stand before the point; not positive for a decimal below one
    tenth. -/
def point (d : Decimal) : Int := d.digits.length + d.exp

/-- The same decimal, with a coefficient that does not end in a zero. -/
def normalize (d : Decimal) : Decimal :=
  if h : d.coeff ≠ 0 ∧ d.coeff % 10 = 0 then normalize ⟨d.coeff / 10, d.exp + 1⟩ else d
termination_by d.coeff
decreasing_by omega

end Decimal

namespace Double

/-- The decimal exponent of a positive magnitude: `10 ^ e ≤ units / 2^1074` with the
    greatest such `e`. The least magnitude exceeds `10 ^ -324`. -/
def decimalExponent (units : Nat) : Int :=
  ((Nat.toDigits 10 (units * Nat.pow 10 324 / unitsPerOne)).length : Int) - 325

/-- The numerator of the magnitude over the step `10 ^ e`. -/
def gridNum (units : Nat) (e : Int) : Nat := units * Nat.pow 10 (-e).toNat

/-- The denominator of the magnitude over the step `10 ^ e`. -/
def gridDen (e : Int) : Nat := unitsPerOne * Nat.pow 10 e.toNat

/-- Whether the decimal is read as the magnitude of rank `rank`. -/
def readsAs (rank : Nat) (d : Decimal) : Bool :=
  match ofDecimal false d.coeff d.exp with
  | .finite _ r _ => r = rank
  | _ => false

/-- On the grid with step `10 ^ e`, the decimal nearest to the magnitude among those
    that are read as it. -/
def shortestOn? (rank : Nat) (e : Int) : Option Decimal :=
  let num := gridNum (unitsOfRank rank) e
  let den := gridDen e
  let below : Decimal := ⟨num / den, e⟩
  let above : Decimal := ⟨num / den + 1, e⟩
  let nearest : Decimal := ⟨roundDiv .even num den, e⟩
  if readsAs rank nearest then some nearest
  else if readsAs rank below then some below
  else if readsAs rank above then some above
  else none

/-- The decimal of the exact value of a magnitude. -/
def exactDecimal (units : Nat) : Decimal := ⟨units * Nat.pow 5 1074, -1074⟩

/-- The decimal with the fewest digits that is read as the positive magnitude of
    rank `rank`, and of those the nearest to it. -/
def shortest (rank : Nat) : Decimal :=
  let top := decimalExponent (unitsOfRank rank)
  let found := (List.range 17).findSome? fun (k : Nat) => shortestOn? rank (top - k)
  (found.getD (exactDecimal (unitsOfRank rank))).normalize

/-- The decimal with `digits` significant digits nearest to a positive magnitude; a
    tie goes up. -/
def significant (units digits : Nat) : Decimal :=
  let e := decimalExponent units - (digits - 1 : Nat)
  let coeff := roundDiv .up (gridNum units e) (gridDen e)
  if coeff = Nat.pow 10 digits then ⟨Nat.pow 10 (digits - 1), e + 1⟩ else ⟨coeff, e⟩

/-- The decimal with `places` digits after the point nearest to a magnitude; a tie
    goes up. -/
def fixed (units places : Nat) : Decimal :=
  ⟨roundDiv .up (gridNum units (-(places : Int))) (gridDen (-(places : Int))), -(places : Int)⟩

end Double

end Reckon
