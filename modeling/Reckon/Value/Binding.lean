-- SUMMARY: The shapes in which bound properties consume a value: text, visibility, number, style declarations.
import Reckon.Double.Reader
import Reckon.Value.Operators

/-!
# Bindings

A bound property consumes a result in its own shape: text content wants text,
conditional display a truth value, a numeric attribute a number, and a style
binding a map of declarations.
-/

namespace Reckon

inductive BindingKind where
  | text
  | visibility
  | number
  | style
deriving DecidableEq

/-- A value in the shape of a binding. -/
inductive Bound where
  | text (t : Text)
  | visibility (b : Bool)
  | number (x : Double)
  | style (declarations : Entries Text)

namespace Value

/-- The text of a value on its own; null is empty. -/
def toText : Value → Text
  | .null => Text.empty
  | v => v.text

/-- The number of a value, and the fallback if it has none. A string has the finite
    number that it denotes, unless it is blank. -/
def toNumber (fallback : Double) : Value → Double
  | .int n => .ofInt n
  | .float x => x
  | .bool b => .ofNat (if b then 1 else 0)
  | .string s =>
    let t := s.trim
    if !t.isEmpty && t.toDouble.isFinite then t.toDouble else fallback
  | _ => fallback

-- ---------------------------------------------------------------------------
-- Styles
-- ---------------------------------------------------------------------------

/-- The one property name that a style map cannot hold. -/
def reservedProperty : Text := "__proto__"

/-- The style map of declarations in order: the last one of a property counts. -/
def styleOf (declarations : List (Text × Text)) : Entries Text :=
  Entries.ofHost (declarations.filter fun (property, _) => property ≠ reservedProperty)

/-- One declaration of inline style text: what stands before the first colon and
    what stands behind it. Without a colon or without a property there is none. -/
def declaration? (segment : Text) : Option (Text × Text) :=
  let notColon (u : UInt16) : Bool := u ≠ Text.unit ':'
  match segment.units.dropWhile notColon with
  | [] => none
  | _ :: rest =>
    let property := (Text.mk (segment.units.takeWhile notColon)).trim
    if property.isEmpty then none else some (property, (Text.mk rest).trim)

/-- The declarations of inline style text, which semicolons separate. -/
def inlineDeclarations (s : Text) : List (Text × Text) :=
  (s.split (Text.unit ';')).filterMap declaration?

/-- The style declarations of an object, without its null entries, or of inline
    text. -/
def toStyle : Value → Entries Text
  | .object entries =>
    styleOf (entries.filterMap fun (k, v) =>
      match v with
      | .null => none
      | v => some (k, v.text))
  | .string s => styleOf (inlineDeclarations s)
  | _ => []

/-- The value in the shape that the binding consumes. -/
def bindAs (kind : BindingKind) (v : Value) : Bound :=
  match kind with
  | .text => .text v.toText
  | .visibility => .visibility v.isTruthy
  | .number => .number (v.toNumber (.zero false))
  | .style => .style v.toStyle

end Value

end Reckon
