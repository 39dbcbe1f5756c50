-- SUMMARY: The quoted form of a text: double quotes around it, with quotes, backslashes, controls and lone surrogates escaped.
import Reckon.Text.Point

/-!
# Quoted text

A quoted text stands between double quotes. Inside, a quote and a backslash are
preceded by a backslash, the controls with a short escape use it, and the other
controls and every surrogate that stands alone are written as four lower-case
hexadecimal digits.
-/

namespace Reckon.Text

def hexDigit (d : Nat) : UInt16 :=
  if d < 10 then (48 + d).toUInt16 else (87 + d).toUInt16

/-- `\uXXXX` for a code point below `0x10000`. -/
def hexEscape (p : Nat) : List UInt16 :=
  [unit '\\', unit 'u', hexDigit (p / 0x1000 % 16), hexDigit (p / 0x100 % 16), hexDigit (p / 16 % 16),
    hexDigit (p % 16)]

/-- The units that stand for the code point `p` between quotes. -/
def quotePoint (p : Nat) : List UInt16 :=
  if p = 0x22 then [unit '\\', unit '"']
  else if p = 0x5C then [unit '\\', unit '\\']
  else if p = 8 then [unit '\\', unit 'b']
  else if p = 9 then [unit '\\', unit 't']
  else if p = 10 then [unit '\\', unit 'n']
  else if p = 12 then [unit '\\', unit 'f']
  else if p = 13 then [unit '\\', unit 'r']
  else if p < 0x20 || isSurrogate p then hexEscape p
  else unitsOfPoint p

def quoted (t : Text) : Text :=
  ⟨unit '"' :: t.points.flatMap quotePoint ++ [unit '"']⟩

end Reckon.Text
