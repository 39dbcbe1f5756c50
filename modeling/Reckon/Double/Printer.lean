-- SUMMARY: Number texts: the shortest text that reads back, and the general format with a number of significant digits.
import Reckon.Text
import Reckon.Double.Decimal

/-!
# Number texts

The plain text of a number has the fewest digits that read back. It is
positional for moderate magnitudes and has an exponent otherwise. The general
format rounds to a number of significant digits, a half upward, and drops the
zeros at the end of a fraction.
-/

namespace Reckon

namespace Decimal

/-- Digits with a point behind the first, if there are more. -/
def pointed : List Char → Text
  | [] => Text.empty
  | [d] => ⟨[Text.unit d]⟩
  | d :: rest => ⟨Text.unit d :: Text.unit '.' :: rest.map Text.unit⟩

/-- Positional text: the digits with a point among them, or with zeros before or
    behind them. -/
def positional (d : Decimal) : Text :=
  let ds := d.digits.map Text.unit
  let zeros (n : Nat) := List.replicate n (Text.unit '0')
  if 0 ≤ d.exp then ⟨ds ++ zeros d.exp.toNat⟩
  else if 0 < d.point then ⟨ds.take d.point.toNat ++ Text.unit '.' :: ds.drop d.point.toNat⟩
  else ⟨[Text.unit '0', Text.unit '.'] ++ zeros (-d.point).toNat ++ ds⟩

/-- The mark of an exponent, its sign, and its digits, filled up to `width` with
    zeros. -/
def exponent (width : Nat) (e : Int) : Text :=
  let ds := (Nat.toDigits 10 e.natAbs).map Text.unit
  (if e < 0 then "e-" else "e+" : Text) ++ ⟨List.replicate (width - ds.length) (Text.unit '0') ++ ds⟩

/-- The rule for the plain text of a number. -/
structure Layout where
  /-- With more digits than this before the point, the text has an exponent. -/
  most : Int
  /-- With this many zeros or more behind the point, the text has an exponent. -/
  zeros : Int
  /-- Least number of digits of an exponent. -/
  width : Nat

/-- Positional from `1e-6` up to `1e21`. -/
def plain : Layout := ⟨21, 6, 1⟩

/-- The text of a positive decimal in the layout `l`. -/
def text (l : Layout) (d : Decimal) : Text :=
  if -l.zeros < d.point ∧ d.point ≤ l.most then d.positional
  else pointed d.digits ++ exponent l.width (d.point - 1)

end Decimal

namespace Double

def signText (neg : Bool) : Text := if neg then "-" else Text.empty

/-- The plain text of a number. The sign of zero is not written. -/
def text : Double → Text
  | .nan => "NaN"
  | .infinite neg => signText neg ++ "Infinity"
  | .finite neg rank _ =>
    if rank = 0 then "0" else signText neg ++ (shortest rank).text Decimal.plain

/-- The text of a number as a constant: its plain text, with the sign of zero. -/
def constantText (x : Double) : Text :=
  if x = zero true then "-0" else x.text

-- ---------------------------------------------------------------------------
-- General format
-- ---------------------------------------------------------------------------

/-- In a text with a point, drops the zeros at the end and a point that then stands
    last. -/
def dropFractionZeros (t : Text) : Text :=
  if Text.unit '.' ∈ t.units then
    match t.units.reverse.dropWhile (· = Text.unit '0') with
    | [] => Text.empty
    | u :: rest => if u = Text.unit '.' then ⟨rest.reverse⟩ else ⟨(u :: rest).reverse⟩
  else t

/-- From this value on, a text with fixed places is the plain text. -/
def fixedLimit : Nat := Nat.pow 10 21

/-- Positional text with `places` digits after the point. -/
def fixedText (rank places : Nat) : Text :=
  let units := unitsOfRank rank
  if fixedLimit * unitsPerOne ≤ units then (shortest rank).text Decimal.plain
  else
    let d := fixed units places
    if places = 0 then ⟨d.digits.map Text.unit⟩
    else
      let ds := d.digits.map Text.unit
      let ds := List.replicate (places + 1 - ds.length) (Text.unit '0') ++ ds
      ⟨ds.take (ds.length - places) ++ Text.unit '.' :: ds.drop (ds.length - places)⟩

/-- Why a number has no text in the general format. -/
inductive FormatError where
  /-- More digits are asked for than the format has. -/
  | digits
deriving DecidableEq

/-- Exponents in the general format have two digits at least. -/
def generalExponentWidth : Nat := 2

/-- The most digits that a text may have after the point. -/
def maxPlaces : Int := 100

/-- The general format with `precision` significant digits: an exponent is written
    if it is below `-4` or not below the precision. -/
def general (precision : Int) : Double → Except FormatError Text
  | .nan => .ok "nan"
  | .infinite neg => .ok (signText neg ++ "inf")
  | .finite neg rank _ =>
    if rank = 0 then .ok (signText neg ++ "0")
    else if precision < 1 || maxPlaces < precision - 1 then .error .digits
    else
      let d := significant (unitsOfRank rank) precision.toNat
      let e := d.point - 1
      if e < -4 || precision ≤ e then
        .ok (signText neg ++ dropFractionZeros (Decimal.pointed d.digits) ++
          Decimal.exponent generalExponentWidth e)
      else if maxPlaces < precision - 1 - e then .error .digits
      else .ok (signText neg ++ dropFractionZeros (fixedText rank (precision - 1 - e).toNat))

/-- The number of significant digits of a number inside other text. -/
def shownDigits : Int := 6

/-- The text of a number inside other text. -/
def shown (x : Double) : Text :=
  match x.general shownDigits with
  | .ok t => t
  | .error _ => x.text

end Double

end Reckon
