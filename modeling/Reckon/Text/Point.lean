-- SUMMARY: Code points of a text: surrogate pairs joined, lone surrogates kept as points of their own.
import Reckon.Text

/-!
# Code points

A high surrogate directly followed by a low one stands for one code point above
`0xFFFF`. Every other unit is a code point of its own, also a surrogate that
stands alone, so that no text is lost.
-/

namespace Reckon.Text

def isHighSurrogate (u : UInt16) : Bool := 0xD800 ≤ u && u ≤ 0xDBFF

def isLowSurrogate (u : UInt16) : Bool := 0xDC00 ≤ u && u ≤ 0xDFFF

/-- The code point of a surrogate pair. -/
def pairPoint (high low : UInt16) : Nat :=
  0x10000 + (high.toNat - 0xD800) * 0x400 + (low.toNat - 0xDC00)

/-- The code points of a sequence of units. -/
def pointsOfUnits : List UInt16 → List Nat
  | [] => []
  | [u] => [u.toNat]
  | u :: v :: rest =>
    if isHighSurrogate u && isLowSurrogate v then pairPoint u v :: pointsOfUnits rest
    else u.toNat :: pointsOfUnits (v :: rest)

def points (t : Text) : List Nat := pointsOfUnits t.units

def ofPoints (ps : List Nat) : Text := ⟨ps.flatMap unitsOfPoint⟩

def isSurrogate (p : Nat) : Bool := 0xD800 ≤ p && p ≤ 0xDFFF

/-- The text as an ordinary string, if no surrogate stands alone in it. -/
def toString? (t : Text) : Option String :=
  if t.points.any isSurrogate then none
  else some (String.ofList (t.points.map Char.ofNat))

end Reckon.Text
