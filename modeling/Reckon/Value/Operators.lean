-- SUMMARY: Binary and unary operators on values. Operands of the wrong kind give null, never an error.
import Reckon.Value

/-!
# Operators

Arithmetic on two integers is exact and then wrapped to 64 bits; if one operand
is a floating-point number, both are. Division and remainder by zero give null,
as does every operand of the wrong kind. The order of two values exists for two
numbers, of which none is a not-a-number, and for two strings.
-/

namespace Reckon

inductive BinaryOp where
  | add
  | sub
  | mul
  | div
  | mod
  | concat
  | eq
  | ne
  | lt
  | le
  | gt
  | ge
  | and
  | or
deriving DecidableEq, Repr

inductive UnaryOp where
  | negate
  | not
  | typeOf
deriving DecidableEq, Repr

namespace BinaryOp

def all : List BinaryOp :=
  [.add, .sub, .mul, .div, .mod, .concat, .eq, .ne, .lt, .le, .gt, .ge, .and, .or]

/-- How the operator is written. -/
def symbol : BinaryOp → Text
  | .add => "+"
  | .sub => "-"
  | .mul => "*"
  | .div => "/"
  | .mod => "%"
  | .concat => ".."
  | .eq => "=="
  | .ne => "!="
  | .lt => "<"
  | .le => "<="
  | .gt => ">"
  | .ge => ">="
  | .and => "&&"
  | .or => "||"

def ofSymbol? (s : Text) : Option BinaryOp := all.find? (·.symbol = s)

end BinaryOp

namespace UnaryOp

def all : List UnaryOp := [.negate, .not, .typeOf]

/-- How the operator is written. -/
def symbol : UnaryOp → Text
  | .negate => "-"
  | .not => "!"
  | .typeOf => "typeof"

def ofSymbol? (s : Text) : Option UnaryOp := all.find? (·.symbol = s)

end UnaryOp

namespace Value

-- ---------------------------------------------------------------------------
-- Arithmetic
-- ---------------------------------------------------------------------------

/-- The number that a numeric value stands for. -/
def toDouble? : Value → Option Double
  | .int n => some (.ofInt n)
  | .float x => some x
  | _ => none

/-- Arithmetic by an operation on integers, and one on floating-point numbers as
    soon as one operand is such. Where the operation is undefined the result is
    null. -/
def arithmetic (onInts : Int → Int → Option Int) (onFloats : Double → Double → Option Double) :
    Value → Value → Value
  | .int m, .int n => (onInts m n).elim .null ofInt
  | a, b =>
    match a.toDouble?, b.toDouble? with
    | some x, some y => (onFloats x y).elim .null .float
    | _, _ => .null

/-- An operation that is undefined where the divisor is zero. -/
def unlessZeroInt (f : Int → Int → Int) (m n : Int) : Option Int :=
  if n = 0 then none else some (f m n)

/-- An operation that is undefined where the divisor is zero of either sign. -/
def unlessZeroDouble (f : Double → Double → Double) (x y : Double) : Option Double :=
  if y.isZero then none else some (f x y)

/-- The texts of both values in one string. -/
def concat (a b : Value) : Value := .string (a.text ++ b.text)

def isString : Value → Bool
  | .string _ => true
  | .absent .string => true
  | _ => false

/-- Concatenation if one operand is a string, with data or without; addition
    otherwise. -/
def add (a b : Value) : Value :=
  if a.isString || b.isString then concat a b
  else arithmetic (fun m n => some (m + n)) (fun x y => some (x.add y)) a b

-- ---------------------------------------------------------------------------
-- Order
-- ---------------------------------------------------------------------------

/-- The order of two values, if they have one: two integers exactly, two numbers as
    floating-point numbers, two strings by code units. -/
def compare? : Value → Value → Option Ordering
  | .int m, .int n => some (compare m n)
  | .string s, .string t => some (compare s t)
  | a, b =>
    match a.toDouble?, b.toDouble? with
    | some x, some y => x.compare? y
    | _, _ => none

/-- Whether the values have an order and it passes the test. -/
def ordered (test : Ordering → Bool) (a b : Value) : Value := .bool ((a.compare? b).any test)

end Value

-- ---------------------------------------------------------------------------
-- Application
-- ---------------------------------------------------------------------------

/-- The result of a binary operator. -/
def BinaryOp.apply : BinaryOp → Value → Value → Value
  | .add, a, b => Value.add a b
  | .sub, a, b => Value.arithmetic (fun m n => some (m - n)) (fun x y => some (x.sub y)) a b
  | .mul, a, b => Value.arithmetic (fun m n => some (m * n)) (fun x y => some (x.mul y)) a b
  | .div, a, b =>
    Value.arithmetic (Value.unlessZeroInt Int.tdiv) (Value.unlessZeroDouble Double.div) a b
  | .mod, a, b =>
    Value.arithmetic (Value.unlessZeroInt Int.tmod) (Value.unlessZeroDouble Double.rem) a b
  | .concat, a, b => Value.concat a b
  | .eq, a, b => .bool (a.equal b)
  | .ne, a, b => .bool (!a.equal b)
  | .lt, a, b => Value.ordered Ordering.isLT a b
  | .le, a, b => Value.ordered Ordering.isLE a b
  | .gt, a, b => Value.ordered Ordering.isGT a b
  | .ge, a, b => Value.ordered Ordering.isGE a b
  | .and, a, b => .bool (a.isTruthy && b.isTruthy)
  | .or, a, b => .bool (a.isTruthy || b.isTruthy)

/-- The result of a unary operator. -/
def UnaryOp.apply : UnaryOp → Value → Value
  | .negate, .int n => .ofInt (-n)
  | .negate, .float x => .float x.neg
  | .negate, _ => .null
  | .not, v => .bool (!v.isTruthy)
  | .typeOf, v => .string v.typeName

end Reckon
