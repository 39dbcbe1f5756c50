-- SUMMARY: Instructions and their packing into two words of 32 bits.
import Reckon.Code.Opcode

/-!
# Instructions

An instruction has an opcode, a flag, a pool index and an immediate. It is
packed into two words: the first holds opcode, flag and index in its low byte,
its next byte and its high half, and the second the immediate.
-/

namespace Reckon

/-- An instruction. The opcode need not be the number of an operation. -/
structure Instruction where
  op : UInt8
  flag : UInt8
  index : UInt16
  imm : Int32
deriving DecidableEq, Inhabited

namespace Instruction

/-- The instruction with fields of any size: opcode, flag and index lose their high
    bits, and the immediate wraps. -/
def ofInts (op flag index imm : Int) : Instruction :=
  ⟨.ofInt op, .ofInt flag, .ofInt index, .ofInt imm⟩

/-- The operation, if the opcode is the number of one. -/
def opcode? (i : Instruction) : Option Opcode := Opcode.ofByte? i.op

/-- The first word. -/
def head (i : Instruction) : Int32 :=
  (UInt32.ofNat (i.op.toNat + 256 * i.flag.toNat + 65536 * i.index.toNat)).toInt32

/-- The instruction of two words. -/
def ofWords (head imm : Int32) : Instruction :=
  let n := head.toUInt32.toNat
  ⟨.ofNat (n % 256), .ofNat (n / 256 % 256), .ofNat (n / 65536), imm⟩

end Instruction

/-- Packed instructions, two words each. Words need not be `Paired`, but a single one that is
    left over at the end stands for no instruction. -/
abbrev Words := Array Int32

namespace Words

/-- No word is left over: every first word of an instruction has its second. -/
def Paired (words : Words) : Prop := words.size % 2 = 0

instance (words : Words) : Decidable words.Paired := inferInstanceAs (Decidable (_ = _))

/-- Packs instructions. -/
def assemble (is : Array Instruction) : Words := is.flatMap fun i => #[i.head, i.imm]

/-- The instruction in slot `pc`. Behind the end, where both words are missing, they count as
    zero. If only the second is missing, there is no immediate to be read, and the zero that
    stands in for it here says nothing about a machine: slots like that are kept out by taking
    words to be `Paired`. -/
def decode (words : Words) (pc : Nat) : Instruction :=
  .ofWords (words[2 * pc]?.getD 0) (words[2 * pc + 1]?.getD 0)

end Words

end Reckon
