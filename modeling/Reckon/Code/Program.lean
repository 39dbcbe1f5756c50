-- SUMMARY: Programs: packed instructions with their constants, and why a compilation failed.
import Reckon.Code.Instruction

/-!
# Programs

A program is what the machine runs: packed instructions and the constants that
they refer to. A program whose compilation failed is a program all the same; it
says why, and its owner decides whether to run it.
-/

namespace Reckon

/-- Why a compilation failed. -/
inductive CompileError where
  /-- The program needs more instructions than the limit. -/
  | instructionLimit (limit : Int)
  | stringPool
  | integerPool
  /-- A flag or index does not fit its field. -/
  | operandRange (op : Opcode)
  /-- The code of a node does not leave exactly one value. -/
  | stackImbalance (kind : Text)
deriving DecidableEq

def CompileError.message : CompileError → Text
  | .instructionLimit limit => "instruction limit of " ++ Text.ofInt limit ++ " exceeded"
  | .stringPool => "string pool overflow"
  | .integerPool => "integer pool overflow"
  | .operandRange op => "operand out of range for opcode " ++ Text.ofNat op.toByte.toNat
  | .stackImbalance kind => "stack imbalance after " ++ kind

/-- What is wrong with a program: the cause that its compilation met, or what the
    author of a handmade program noted, if anything. -/
inductive Failure where
  | compile (e : CompileError)
  | noted (text : Option Text)
deriving DecidableEq

/-- The text of a failure, if it has one. -/
def Failure.message? : Failure → Option Text
  | .compile e => some e.message
  | .noted text => text

/-- A program of the machine. -/
structure Program where
  words : Words
  /-- How many slots the machine may enter. -/
  count : Int
  strings : List Text := []
  ints : List Int := []
  /-- The greatest number of values on the stack at any point. -/
  stackNeed : Nat := 0
  /-- Source text, for diagnostics. -/
  source : Option Text := none
  failure : Option Failure := none
  /-- How many instructions were cleared because nothing reaches them. -/
  eliminated : Nat := 0
deriving Inhabited

namespace Program

def hasFailed (p : Program) : Bool := p.failure.isSome

/-- The text of what is wrong with the program. -/
def message? (p : Program) : Option Text := p.failure.bind Failure.message?

/-- The instruction in slot `pc`, as the machine cuts it out of the words by shifts and
    masks. Slots behind the end of the words are read as zeros. The words of programs are taken
    to be `Words.Paired`, as those of all that are compiled or assembled: the zero that is read
    for a missing second word alone is not what the machine would find there. -/
def fetch (p : Program) (pc : Nat) : Instruction :=
  let head := (p.words[2 * pc]?.getD 0).toUInt32
  { op := (head &&& 0xFF).toUInt8
    flag := (head >>> 8 &&& 0xFF).toUInt8
    index := (head >>> 16 &&& 0xFFFF).toUInt16
    imm := p.words[2 * pc + 1]?.getD 0 }

/-- The machine reads the words as they are decoded elsewhere. -/
theorem fetch_eq_decode (p : Program) (pc : Nat) : p.fetch pc = p.words.decode pc := by
  have hbyte : ∀ w : UInt32, (w &&& 0xFF).toNat = w.toNat % 256 :=
    fun w => (UInt32.toNat_and w 0xFF).trans (Nat.and_two_pow_sub_one_eq_mod _ 8)
  have hhalf : ∀ w : UInt32, (w &&& 0xFFFF).toNat = w.toNat % 65536 :=
    fun w => (UInt32.toNat_and w 0xFFFF).trans (Nat.and_two_pow_sub_one_eq_mod _ 16)
  have hflag : ∀ w : UInt32, (w >>> 8).toNat = w.toNat / 256 :=
    fun w => (UInt32.toNat_shiftRight w 8).trans (Nat.shiftRight_eq_div_pow _ 8)
  have hindex : ∀ w : UInt32, (w >>> 16).toNat = w.toNat / 65536 :=
    fun w => (UInt32.toNat_shiftRight w 16).trans (Nat.shiftRight_eq_div_pow _ 16)
  rw [fetch, Words.decode, Instruction.ofWords, Instruction.mk.injEq]
  refine ⟨?_, ?_, ?_, rfl⟩
  · apply UInt8.toNat_inj.1
    rw [UInt8.toNat_ofNat', UInt32.toNat_toUInt8, hbyte]
  · apply UInt8.toNat_inj.1
    rw [UInt8.toNat_ofNat', UInt32.toNat_toUInt8, hbyte, hflag]
  · apply UInt16.toNat_inj.1
    rw [UInt16.toNat_ofNat', UInt32.toNat_toUInt16, hhalf, hindex, Nat.mod_mod]

end Program

end Reckon
