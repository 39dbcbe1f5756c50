-- SUMMARY: White space: the Unicode class and the four characters that the `trim` method knows.
import Reckon.Text

/-!
# White space

Two classes are in use. Numerals, style declarations and listings use the
Unicode class: all white space and line ends of Unicode, with the byte order
mark and without the next-line control. The `trim` method of string values
knows only four characters.
-/

namespace Reckon.Text

/-- White space and line ends: the characters of general category Zs, the controls
    from tab to carriage return, the two separators and the byte order mark. -/
def isBlank (u : UInt16) : Bool :=
  (9 ≤ u && u ≤ 13) || u = 0x20 || u = 0xA0 || u = 0x1680 || (0x2000 ≤ u && u ≤ 0x200A) ||
    u = 0x2028 || u = 0x2029 || u = 0x202F || u = 0x205F || u = 0x3000 || u = 0xFEFF

/-- Space, tab, line feed and carriage return. -/
def isPlainBlank (u : UInt16) : Bool :=
  u = 0x20 || u = 9 || u = 10 || u = 13

/-- The text without surrounding white space. -/
def trim (t : Text) : Text := t.trimWhere isBlank

/-- The text without trailing white space. -/
def trimEnd (t : Text) : Text := t.trimEndWhere isBlank

end Reckon.Text
