-- SUMMARY: Dynamic values: kinds, truth, equality, text, and integers of 64 bits.
import Reckon.Double.Printer
import Reckon.Entries

/-!
# Values

A value is null, an integer, a floating-point number, a truth value, a string,
an array or an object. A string, array or object may lack its data: it then has
its kind and nothing else. Integers are meant to lie in the range of 64 bits,
and the keys of an object to be distinct; every operation of the library keeps
both (`Value.WellFormed`).
-/

namespace Reckon

/-- The kinds of value that may lack their data. -/
inductive Backing where
  | string
  | array
  | object
deriving DecidableEq

def Backing.name : Backing → Text
  | .string => "string"
  | .array => "array"
  | .object => "object"

/-- A dynamic value. -/
inductive Value where
  | null
  | int (n : Int)
  | float (x : Double)
  | bool (b : Bool)
  | string (s : Text)
  | array (items : List Value)
  | object (entries : List (Text × Value))
  /-- A string, array or object without data. -/
  | absent (kind : Backing)
deriving Inhabited

/-- The integer in `[-2^63, 2^63)` that differs from `n` by a multiple of `2^64`. -/
def wrap64 (n : Int) : Int := n.bmod 18446744073709551616

theorem wrap64_wrap64 (n : Int) : wrap64 (wrap64 n) = wrap64 n :=
  Int.bmod_bmod

theorem wrap64_of_range {n : Int} (h : -9223372036854775808 ≤ n ∧ n < 9223372036854775808) :
    wrap64 n = n :=
  Int.bmod_eq_of_le (by omega) (by omega)

namespace Value

/-- The integer value of `n`, wrapped to 64 bits. -/
def ofInt (n : Int) : Value := .int (wrap64 n)

def ofNat (n : Nat) : Value := ofInt n

/-- The object whose properties are set in the given order. -/
def ofEntries (pairs : List (Text × Value)) : Value := .object (Entries.ofList pairs)

-- ---------------------------------------------------------------------------
-- Kind, truth and text
-- ---------------------------------------------------------------------------

def typeName : Value → Text
  | .null => "null"
  | .int _ => "int"
  | .float _ => "float"
  | .bool _ => "bool"
  | .string _ => "string"
  | .array _ => "array"
  | .object _ => "object"
  | .absent kind => kind.name

/-- Null, zero, false and everything empty or without data are false; a
    not-a-number is true. -/
def isTruthy : Value → Bool
  | .null => false
  | .int n => n ≠ 0
  | .float x => !x.isZero
  | .bool b => b
  | .string s => !s.isEmpty
  | .array items => !items.isEmpty
  | .object entries => !entries.isEmpty
  | .absent _ => false

def boolText (b : Bool) : Text := if b then "true" else "false"

def arrayText (n : Nat) : Text := "[array with " ++ Text.ofNat n ++ " items]"

def objectText (n : Nat) : Text := "[object with " ++ Text.ofNat n ++ " entries]"

/-- The text of a value inside other text. Containers only tell their size. -/
def text : Value → Text
  | .null => "null"
  | .int n => Text.ofInt n
  | .float x => x.shown
  | .bool b => boolText b
  | .string s => s
  | .array items => arrayText items.length
  | .object entries => objectText entries.length
  | .absent .string => Text.empty
  | .absent .array => arrayText 0
  | .absent .object => objectText 0

-- ---------------------------------------------------------------------------
-- Equality
-- ---------------------------------------------------------------------------

mutual

/-- Equality of values of one kind: numbers by value, arrays item by item, objects
    by key whatever the order. A value without data equals only one of its own
    kind without data. -/
def equal : Value → Value → Bool
  | .null, .null => true
  | .int m, .int n => m = n
  | .float x, .float y => x.eq y
  | .bool a, .bool b => a = b
  | .string s, .string t => s = t
  | .array xs, .array ys => equalItems xs ys
  | .object xs, .object ys => xs.length = ys.length && equalEntries xs ys
  | .absent j, .absent k => j = k
  | _, _ => false

def equalItems : List Value → List Value → Bool
  | [], [] => true
  | x :: xs, y :: ys => equal x y && equalItems xs ys
  | _, _ => false

/-- Every entry of the first map has an equal one in the second. -/
def equalEntries : List (Text × Value) → List (Text × Value) → Bool
  | [], _ => true
  | (k, x) :: xs, ys =>
    (match Entries.get? ys k with
      | some y => equal x y
      | none => false) && equalEntries xs ys

end

-- ---------------------------------------------------------------------------
-- Well-formed values
-- ---------------------------------------------------------------------------

mutual

/-- Every integer lies in the range of 64 bits and every object has distinct keys,
    at any depth. -/
def WellFormed : Value → Prop
  | .int n => -9223372036854775808 ≤ n ∧ n < 9223372036854775808
  | .array items => WellFormedItems items
  | .object entries => (Entries.keys entries).Nodup ∧ WellFormedEntries entries
  | _ => True

def WellFormedItems : List Value → Prop
  | [] => True
  | v :: vs => WellFormed v ∧ WellFormedItems vs

def WellFormedEntries : List (Text × Value) → Prop
  | [] => True
  | (_, v) :: es => WellFormed v ∧ WellFormedEntries es

end

end Value

end Reckon
