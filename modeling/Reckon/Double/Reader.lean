-- SUMMARY: Numerals: the number that a text denotes, correctly rounded.
import Reckon.Text.Blank
import Reckon.Double

/-!
# Numerals

A numeral is a decimal with an optional sign, fraction and exponent, the word
for infinity, or a whole number in base 16, 8 or 2 after the mark of its base.
White space around a numeral is passed over and nothing else: an empty text
denotes zero, and any other text no number at all.
-/

namespace Reckon

namespace Numeral

/-- The value of a digit in bases up to 36. -/
def digitValue? (u : UInt16) : Option Nat :=
  let n := u.toNat
  if 48 ≤ n && n ≤ 57 then some (n - 48)
  else if 97 ≤ n && n ≤ 122 then some (n - 87)
  else if 65 ≤ n && n ≤ 90 then some (n - 55)
  else none

/-- The whole number that the digits `us` denote in base `base`. -/
def natInBase? (base : Nat) (us : List UInt16) : Option Nat :=
  if us.isEmpty then none
  else us.foldl (fun acc u => do
    let n ← acc
    let d ← digitValue? u
    if d < base then some (base * n + d) else none) (some 0)

/-- The base that the letter after a leading zero marks. -/
def markedBase? (u : UInt16) : Option Nat :=
  if u = Text.unit 'x' || u = Text.unit 'X' then some 16
  else if u = Text.unit 'o' || u = Text.unit 'O' then some 8
  else if u = Text.unit 'b' || u = Text.unit 'B' then some 2
  else none

/-- A sign, and the rest; a missing sign is positive. -/
def sign : List UInt16 → Bool × List UInt16
  | [] => (false, [])
  | u :: us =>
    if u = Text.unit '-' then (true, us)
    else if u = Text.unit '+' then (false, us)
    else (false, u :: us)

/-- The exponent that the text behind the digits states: none at all, or a mark, an
    optional sign and digits. -/
def exponent? : List UInt16 → Option Int
  | [] => some 0
  | u :: us =>
    if u = Text.unit 'e' || u = Text.unit 'E' then
      let (neg, ds) := sign us
      if ds.isEmpty || !ds.all Text.isDigit then none
      else
        let n : Int := Text.natOfDigits ds
        some (if neg then -n else n)
    else none

/-- Reads digits, an optional fraction and an optional exponent. -/
def decimal? (neg : Bool) (us : List UInt16) : Option Double :=
  let whole := us.takeWhile Text.isDigit
  let rest := us.dropWhile Text.isDigit
  let (fraction, rest) := match rest with
    | [] => ([], [])
    | u :: vs =>
      if u = Text.unit '.' then (vs.takeWhile Text.isDigit, vs.dropWhile Text.isDigit)
      else ([], u :: vs)
  if whole.isEmpty && fraction.isEmpty then none
  else (exponent? rest).map fun e =>
    Double.ofDecimal neg (Text.natOfDigits (whole ++ fraction)) (e - fraction.length)

/-- Reads an optional sign and then the word for infinity or a decimal. -/
def signed? (us : List UInt16) : Option Double :=
  let (neg, rest) := sign us
  if rest = (Text.ofString "Infinity").units then some (.infinite neg) else decimal? neg rest

/-- The number that a text without surrounding white space denotes. -/
def read? : List UInt16 → Option Double
  | [] => some (Double.zero false)
  | u :: v :: rest =>
    match if u = Text.unit '0' then markedBase? v else none with
    | some base => (natInBase? base rest).map Double.ofNat
    | none => signed? (u :: v :: rest)
  | us => signed? us

end Numeral

/-- The number that the text denotes, not-a-number if it denotes none. -/
def Text.toDouble (t : Text) : Double :=
  (Numeral.read? t.trim.units).getD .nan

end Reckon
