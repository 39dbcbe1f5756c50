-- SUMMARY: The operations of the machine, their numbers and their names.
import Reckon.Value.Operators

/-!
# Opcodes

Every operation has a number that fits a byte; numbers without an operation may
stand in code that was written by hand.
-/

namespace Reckon

/-- An operation of the machine. -/
inductive Opcode where
  | nop
  | pushInt
  | pushFloat
  | pushString
  | pushBool
  | pushNull
  | dup
  | pop
  | swap
  | loadVar
  | getProp
  | getComputed
  | getIndex
  | callMethod
  | callBuiltin
  | callFunction
  | binary (op : BinaryOp)
  | unary (op : UnaryOp)
  | jump
  | jumpIfFalse
  | jumpIfTrue
  | buildArray
  | buildObject
  | halt
deriving DecidableEq, Repr

namespace Opcode

/-- All operations in the order of their numbers, which start at zero. -/
def all : List Opcode :=
  [.nop, .pushInt, .pushFloat, .pushString, .pushBool, .pushNull, .dup, .pop, .swap, .loadVar,
    .getProp, .getComputed, .getIndex, .callMethod, .callBuiltin, .callFunction,
    .binary .add, .binary .sub, .binary .mul, .binary .div, .binary .mod, .binary .concat,
    .binary .eq, .binary .ne, .binary .lt, .binary .le, .binary .gt, .binary .ge,
    .binary .and, .binary .or, .unary .not, .unary .negate, .unary .typeOf,
    .jump, .jumpIfFalse, .jumpIfTrue, .buildArray, .buildObject, .halt]

/-- The number of an operation. -/
def toByte : Opcode → UInt8
  | .nop => 0
  | .pushInt => 1
  | .pushFloat => 2
  | .pushString => 3
  | .pushBool => 4
  | .pushNull => 5
  | .dup => 6
  | .pop => 7
  | .swap => 8
  | .loadVar => 9
  | .getProp => 10
  | .getComputed => 11
  | .getIndex => 12
  | .callMethod => 13
  | .callBuiltin => 14
  | .callFunction => 15
  | .binary .add => 16
  | .binary .sub => 17
  | .binary .mul => 18
  | .binary .div => 19
  | .binary .mod => 20
  | .binary .concat => 21
  | .binary .eq => 22
  | .binary .ne => 23
  | .binary .lt => 24
  | .binary .le => 25
  | .binary .gt => 26
  | .binary .ge => 27
  | .binary .and => 28
  | .binary .or => 29
  | .unary .not => 30
  | .unary .negate => 31
  | .unary .typeOf => 32
  | .jump => 33
  | .jumpIfFalse => 34
  | .jumpIfTrue => 35
  | .buildArray => 36
  | .buildObject => 37
  | .halt => 38

/-- The operation with a number. -/
def ofByte? (b : UInt8) : Option Opcode := all[b.toNat]?

theorem ofByte?_toByte (op : Opcode) : ofByte? op.toByte = some op := by
  cases op with
  | binary op => cases op <;> rfl
  | unary op => cases op <;> rfl
  | _ => rfl

def name : Opcode → Text
  | .nop => "NOP"
  | .pushInt => "PUSH_INT"
  | .pushFloat => "PUSH_FLOAT"
  | .pushString => "PUSH_STRING"
  | .pushBool => "PUSH_BOOL"
  | .pushNull => "PUSH_NULL"
  | .dup => "DUP"
  | .pop => "POP"
  | .swap => "SWAP"
  | .loadVar => "LOAD_VAR"
  | .getProp => "GET_PROP"
  | .getComputed => "GET_PROP_COMPUTED"
  | .getIndex => "GET_INDEX"
  | .callMethod => "CALL_METHOD"
  | .callBuiltin => "CALL_BUILTIN"
  | .callFunction => "CALL_FUNCTION"
  | .binary .add => "ADD"
  | .binary .sub => "SUB"
  | .binary .mul => "MUL"
  | .binary .div => "DIV"
  | .binary .mod => "MOD"
  | .binary .concat => "CONCAT"
  | .binary .eq => "EQ"
  | .binary .ne => "NEQ"
  | .binary .lt => "LT"
  | .binary .le => "LTE"
  | .binary .gt => "GT"
  | .binary .ge => "GTE"
  | .binary .and => "AND"
  | .binary .or => "OR"
  | .unary .not => "NOT"
  | .unary .negate => "NEGATE"
  | .unary .typeOf => "TYPEOF"
  | .jump => "JUMP"
  | .jumpIfFalse => "JUMP_IF_FALSE"
  | .jumpIfTrue => "JUMP_IF_TRUE"
  | .buildArray => "BUILD_ARRAY"
  | .buildObject => "BUILD_OBJECT"
  | .halt => "HALT"

/-- The operation with a name. -/
def ofName? (name : Text) : Option Opcode := all.find? (·.name = name)

/-- The name of the operation with a number, which need not fit a byte. -/
def nameOfNumber (n : Int) : Text :=
  if 0 ≤ n then (all[n.toNat]?).elim "UNKNOWN" Opcode.name else "UNKNOWN"

end Opcode

end Reckon
