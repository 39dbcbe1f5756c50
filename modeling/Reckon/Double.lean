-- SUMMARY: Binary64 floating-point numbers: exact magnitudes, rounding to nearest even, arithmetic and comparison.

/-!
# Floating-point numbers

A finite number of the IEEE 754 binary64 format is a sign and a magnitude. The
magnitudes are numbered from zero upward without gaps: rank `0` is zero, rank
`1` the least positive number, and the rank after the greatest finite one is
that of infinity. The order of magnitudes is the order of their ranks.

Every magnitude is a whole multiple of `2^-1074`, here called a unit, so exact
values are natural numbers. Arithmetic computes the exact result as a ratio of
units and rounds it once: to the nearest number, and to the even rank if two
are equally near.
-/

namespace Reckon

-- ---------------------------------------------------------------------------
-- Rounding quotients
-- ---------------------------------------------------------------------------

/-- Which of two equally near whole numbers a quotient is rounded to. -/
inductive Tie where
  | even
  | up
deriving DecidableEq

/-- The whole number nearest to `num / den`. -/
def roundDiv (tie : Tie) (num den : Nat) : Nat :=
  let q := num / den
  match compare (2 * (num % den)) den with
  | .lt => q
  | .gt => q + 1
  | .eq => match tie with
    | .even => q + q % 2
    | .up => q + 1

-- ---------------------------------------------------------------------------
-- The numbers
-- ---------------------------------------------------------------------------

/-- How many ranks share an exponent: `2^52`. -/
def Double.binade : Nat := 4503599627370496

/-- The rank of infinity: `2047 * 2^52`. -/
def Double.topRank : Nat := 9218868437227405312

/-- A binary64 number. All not-a-numbers are one. -/
inductive Double where
  | nan
  | infinite (neg : Bool)
  | finite (neg : Bool) (rank : Nat) (rank_lt : rank < Double.topRank)
deriving DecidableEq

namespace Double

/-- How many units make the number one. -/
def unitsPerOne : Nat := Nat.pow 2 1074

/-- The magnitude of rank `r`, in units. -/
def unitsOfRank (r : Nat) : Nat :=
  if r < binade then r else (binade + r % binade) * Nat.pow 2 (r / binade - 1)

/-- The rank of the magnitude nearest to `num / den` units, as if ranks had no
    end. -/
def nearestRank (num den : Nat) : Nat :=
  let shift := (num / den).log2 - 52
  binade * shift + roundDiv .even num (den * Nat.pow 2 shift)

/-- The number nearest to `num / den` units; infinite from halfway beyond the
    greatest finite one. -/
def ofUnits (neg : Bool) (num den : Nat) : Double :=
  if h : nearestRank num den < topRank then .finite neg (nearestRank num den) h
  else .infinite neg

/-- The number nearest to `num / den`. -/
def ofRatio (neg : Bool) (num den : Nat) : Double :=
  ofUnits neg (num * unitsPerOne) den

def zero (neg : Bool) : Double := .finite neg 0 (by decide)

instance : Inhabited Double := ⟨zero false⟩

def ofNat (n : Nat) : Double := ofRatio false n 1

/-- The number nearest to `n`; zero is positive. -/
def ofInt (n : Int) : Double := ofRatio (n < 0) n.natAbs 1

/-- The number nearest to `± coeff * 10 ^ exp`. A decimal beyond the range is not
    written out in full before it is rounded. -/
def ofDecimal (neg : Bool) (coeff : Nat) (exp : Int) : Double :=
  let magnitude := exp + (Nat.toDigits 10 coeff).length
  if coeff = 0 || magnitude < -400 then zero neg
  else if 400 < magnitude then .infinite neg
  else ofRatio neg (coeff * Nat.pow 10 exp.toNat) (Nat.pow 10 (-exp).toNat)

-- ---------------------------------------------------------------------------
-- Classes and exact values
-- ---------------------------------------------------------------------------

def isZero : Double → Bool
  | .finite _ 0 _ => true
  | _ => false

def isFinite : Double → Bool
  | .finite .. => true
  | _ => false

/-- The value in units, of a finite number. -/
def signedUnits (neg : Bool) (rank : Nat) : Int :=
  if neg then -(unitsOfRank rank : Int) else unitsOfRank rank

/-- The whole part of a finite number, toward zero. -/
def trunc? : Double → Option Int
  | .finite neg r _ =>
    let n : Int := unitsOfRank r / unitsPerOne
    some (if neg then -n else n)
  | _ => none

/-- The value of a number that is whole. -/
def toInt? : Double → Option Int
  | .finite neg r h =>
    if unitsOfRank r % unitsPerOne = 0 then trunc? (.finite neg r h) else none
  | _ => none

/-- The value of a number that is whole and not negative; zero of either sign is
    `0`. -/
def toNat? (x : Double) : Option Nat :=
  x.toInt?.bind fun n => if 0 ≤ n then some n.toNat else none

/-- The greatest whole number that no other one is rounded to: `2^53 - 1`. -/
def maxSafe : Nat := 9007199254740991

/-- The value of a whole number that no rounding can have produced. -/
def toSafeInt? (x : Double) : Option Int :=
  x.toInt?.bind fun n => if n.natAbs ≤ maxSafe then some n else none

-- ---------------------------------------------------------------------------
-- Arithmetic
-- ---------------------------------------------------------------------------

def neg : Double → Double
  | .nan => .nan
  | .infinite s => .infinite !s
  | .finite s r h => .finite (!s) r h

/-- The sum. An exact zero is negative only if both operands are. -/
def add : Double → Double → Double
  | .nan, _ | _, .nan => .nan
  | .infinite s, .infinite t => if s = t then .infinite s else .nan
  | .infinite s, .finite .. => .infinite s
  | .finite .., .infinite t => .infinite t
  | .finite s q _, .finite t r _ =>
    let sum := signedUnits s q + signedUnits t r
    if sum = 0 then zero (s && t) else ofUnits (sum < 0) sum.natAbs 1

def sub (x y : Double) : Double := add x (neg y)

def mul : Double → Double → Double
  | .nan, _ | _, .nan => .nan
  | .infinite s, .infinite t => .infinite (s ^^ t)
  | .infinite s, .finite t r _ => if r = 0 then .nan else .infinite (s ^^ t)
  | .finite s q _, .infinite t => if q = 0 then .nan else .infinite (s ^^ t)
  | .finite s q _, .finite t r _ => ofUnits (s ^^ t) (unitsOfRank q * unitsOfRank r) unitsPerOne

def div : Double → Double → Double
  | .nan, _ | _, .nan => .nan
  | .infinite _, .infinite _ => .nan
  | .infinite s, .finite t _ _ => .infinite (s ^^ t)
  | .finite s _ _, .infinite t => zero (s ^^ t)
  | .finite s q _, .finite t r _ =>
    if r = 0 then if q = 0 then .nan else .infinite (s ^^ t)
    else ofUnits (s ^^ t) (unitsOfRank q * unitsPerOne) (unitsOfRank r)

/-- The exact remainder of the division with a quotient rounded toward zero; it has
    the sign of the dividend. -/
def rem : Double → Double → Double
  | .nan, _ | _, .nan => .nan
  | .infinite _, _ => .nan
  | .finite s q h, .infinite _ => .finite s q h
  | .finite s q _, .finite _ r _ =>
    if r = 0 then .nan else ofUnits s (unitsOfRank q % unitsOfRank r) 1

-- ---------------------------------------------------------------------------
-- Comparison
-- ---------------------------------------------------------------------------

/-- The rank with the sign of the number. Both zeros have `0`. -/
def signedRank? : Double → Option Int
  | .nan => none
  | .infinite neg => some (if neg then -(topRank : Int) else topRank)
  | .finite neg r _ => some (if neg then -(r : Int) else r)

/-- The order of two numbers; a not-a-number has none. -/
def compare? (x y : Double) : Option Ordering :=
  match x.signedRank?, y.signedRank? with
  | some a, some b => some (compare a b)
  | _, _ => none

/-- Numeric equality: the zeros are equal, and a not-a-number differs from
    itself. -/
def eq (x y : Double) : Bool := x.compare? y = some .eq

def lt (x y : Double) : Bool := x.compare? y = some .lt

end Double

end Reckon
