-- SUMMARY: Packing keeps the low bits of every field, and words and instructions determine each other.
import Reckon.Proofs.Encoding

/-!
# Packing

The fields that an instruction is made from may be of any size. Packing keeps the
low bits of each, and from an index of 32768 on the first word is negative; still
nothing that was kept is lost. Decoding gives the instructions back, and packing
what words are decoded to gives the words back, unless a single word is left over
at the end. The machine cuts instructions out of the words in a way of its own,
and its runs are those of the decoded instructions.
-/

namespace Reckon

/-! ## What an instruction keeps -/

/-- The fields that an instruction is made from. -/
structure Fields where
  op : Int
  flag : Int
  index : Int
  imm : Int

def Fields.instruction (f : Fields) : Instruction := .ofInts f.op f.flag f.index f.imm

/-- The instruction has the low bits of all fields: 8 of the opcode and of the flag, 16 of the
    index, and 32 of the immediate, which wraps to a signed number. -/
structure Instruction.Keeps (i : Instruction) (f : Fields) : Prop where
  op : (i.op.toNat : Int) = f.op % 256
  flag : (i.flag.toNat : Int) = f.flag % 256
  index : (i.index.toNat : Int) = f.index % 65536
  imm : i.imm.toInt = f.imm.bmod 4294967296

theorem Fields.keeps_instruction (f : Fields) : f.instruction.Keeps f := by
  have hbyte : ∀ n : Int, ((UInt8.ofInt n).toNat : Int) = n % 256 := by
    intro n
    rw [UInt8.ofInt, UInt8.toNat_ofNat']
    omega
  have hhalf : ((UInt16.ofInt f.index).toNat : Int) = f.index % 65536 := by
    rw [UInt16.ofInt, UInt16.toNat_ofNat']
    omega
  exact ⟨hbyte f.op, hbyte f.flag, hhalf, Int32.toInt_ofInt⟩

/-! ## The first word -/

namespace Instruction

/-- The opcode stands in bits 0 to 7, the flag in bits 8 to 15 and the index in bits 16 to 31. -/
theorem head_eq_or (i : Instruction) :
    i.head.toUInt32 = i.op.toUInt32 ||| i.flag.toUInt32 <<< 8 ||| i.index.toUInt32 <<< 16 := by
  have hop := i.op.toNat_lt
  have hflag : (i.flag.toUInt32 <<< 8).toNat = i.flag.toNat <<< 8 := by
    have hlt : i.flag.toNat <<< 8 < 2 ^ 32 := by
      have := i.flag.toNat_lt
      rw [Nat.shiftLeft_eq]
      omega
    rw [UInt32.toNat_shiftLeft, UInt8.toNat_toUInt32]
    exact Nat.mod_eq_of_lt hlt
  have hindex : (i.index.toUInt32 <<< 16).toNat = i.index.toNat <<< 16 := by
    have hlt : i.index.toNat <<< 16 < 2 ^ 32 := by
      have := i.index.toNat_lt
      rw [Nat.shiftLeft_eq]
      omega
    rw [UInt32.toNat_shiftLeft, UInt16.toNat_toUInt32]
    exact Nat.mod_eq_of_lt hlt
  -- The fields do not overlap, so that their bits are put together by adding.
  have hlow : i.op.toNat ||| i.flag.toNat <<< 8 = i.flag.toNat <<< 8 + i.op.toNat := by
    rw [Nat.or_comm, Nat.shiftLeft_add_eq_or_of_lt hop]
  have hlow_lt : i.flag.toNat <<< 8 + i.op.toNat < 2 ^ 16 := by
    have hlt := i.flag.toNat_lt
    rw [Nat.shiftLeft_eq]
    omega
  apply UInt32.toNat_inj.1
  rw [toNat_head, UInt32.toNat_or, UInt32.toNat_or, UInt8.toNat_toUInt32, hflag, hindex, hlow,
    Nat.or_comm, ← Nat.shiftLeft_add_eq_or_of_lt hlow_lt, Nat.shiftLeft_eq, Nat.shiftLeft_eq]
  omega

theorem imm_ofWords (head imm : Int32) : (ofWords head imm).imm = imm := rfl

/-- Two words are those of the instruction that they are decoded to. -/
theorem head_ofWords (head imm : Int32) : (ofWords head imm).head = head := by
  have hlt := head.toUInt32.toNat_lt
  have hword : (ofWords head imm).head.toUInt32 = head.toUInt32 := by
    apply UInt32.toNat_inj.1
    rw [toNat_head]
    simp only [ofWords, UInt8.toNat_ofNat', UInt16.toNat_ofNat']
    omega
  rw [← (ofWords head imm).head.toInt32_toUInt32, hword, Int32.toInt32_toUInt32]

end Instruction

/-! ## Words and instructions -/

namespace Words

/-- The instructions that words are decoded to, two words each. -/
def instructions (words : Words) : Array Instruction :=
  (Array.range (words.size / 2)).map words.decode

theorem size_instructions (words : Words) : words.instructions.size = words.size / 2 := by
  rw [instructions, Array.size_map, Array.size_range]

theorem getElem?_instructions (words : Words) (pc : Nat) :
    words.instructions[pc]? = if pc < words.size / 2 then some (words.decode pc) else none := by
  rw [instructions, Array.getElem?_map, Array.getElem?_range]
  split <;> rfl

theorem instructions_assemble (is : Array Instruction) : (assemble is).instructions = is := by
  have hsize : (assemble is).size / 2 = is.size := by
    rw [size_assemble]
    omega
  apply Array.ext_getElem?
  intro pc
  rw [getElem?_instructions, hsize]
  split
  next hpc =>
    have hi := Array.getElem?_eq_getElem hpc
    rw [decode_assemble hi, hi]
  next hpc => rw [Array.getElem?_eq_none (Nat.le_of_not_lt hpc)]

/-- Packing undoes decoding exactly if no word is left over. -/
theorem assemble_instructions_iff (words : Words) :
    assemble words.instructions = words ↔ words.size % 2 = 0 := by
  constructor
  · intro h
    have hsize := congrArg Array.size h
    rw [size_assemble, size_instructions] at hsize
    omega
  · intro heven
    apply Array.ext_getElem?
    intro k
    obtain ⟨pc, rfl | rfl⟩ : ∃ pc, k = 2 * pc ∨ k = 2 * pc + 1 := ⟨k / 2, by omega⟩
    · rw [(getElem?_assemble _ pc).1, getElem?_instructions]
      split
      next hpc =>
        have hlt : 2 * pc < words.size := by omega
        rw [Option.map_some, decode, Instruction.head_ofWords, Array.getElem?_eq_getElem hlt,
          Option.getD_some]
      next hpc => rw [Option.map_none, Array.getElem?_eq_none (by omega)]
    · rw [(getElem?_assemble _ pc).2, getElem?_instructions]
      split
      next hpc =>
        have hlt : 2 * pc + 1 < words.size := by omega
        rw [Option.map_some, decode, Instruction.imm_ofWords, Array.getElem?_eq_getElem hlt,
          Option.getD_some]
      next hpc => rw [Option.map_none, Array.getElem?_eq_none (by omega)]

end Words

/-! ## Runs -/

/-- How a run ends that has come to `flow` in slot `pc`, where `rest` tells how it ends from
    the slot that control goes to. -/
def Flow.followedBy (flow : Flow) (pc : Nat) (rest : Nat → Context → Option Text × Context) :
    Option Text × Context :=
  match flow with
  | .next skip c => rest (pc + 1 + skip) c
  | .stop c => (none, c)
  | .raise message c => (some message, c)

/-- A run does in each slot what the decoded instruction says. -/
theorem Machine.runFrom_decode (env : Environment) (p : Program) (pc : Nat) (c : Context) :
    runFrom env p pc c =
      if (pc : Int) < p.count then
        (exec env p pc (p.words.decode pc) c).followedBy pc (runFrom env p)
      else (none, c) := by
  rw [runFrom, p.fetch_eq_decode]
  cases exec env p pc (p.words.decode pc) c <;> rfl

/-- Packing keeps the low bits of fields of any size and puts them side by side into the first
    word. It loses nothing else: instructions can be decoded again, and any even number of words
    are the words of what they are decoded to. The machine, which has a decoder of its own,
    takes every instruction for the same. -/
theorem Words.packing_bijective :
    (∀ (fs : Array Fields) (pc : Fin fs.size),
      ((assemble (fs.map Fields.instruction)).decode pc).Keeps fs[pc]) ∧
    (∀ i : Instruction,
      i.head.toUInt32 = i.op.toUInt32 ||| i.flag.toUInt32 <<< 8 ||| i.index.toUInt32 <<< 16) ∧
    (∀ is : Array Instruction, (assemble is).instructions = is) ∧
    (∀ words : Words, assemble words.instructions = words ↔ words.size % 2 = 0) ∧
    (∀ (p : Program) (pc : Nat), p.fetch pc = p.words.decode pc) ∧
    ∀ (env : Environment) (p : Program) (pc : Nat) (c : Context),
      Machine.runFrom env p pc c =
        if (pc : Int) < p.count then
          (Machine.exec env p pc (p.words.decode pc) c).followedBy pc (Machine.runFrom env p)
        else (none, c) := by
  refine ⟨?_, Instruction.head_eq_or, instructions_assemble, assemble_instructions_iff,
    Program.fetch_eq_decode, Machine.runFrom_decode⟩
  intro fs pc
  have hslot : (fs.map Fields.instruction)[pc.val]? = some fs[pc].instruction := by
    rw [Array.getElem?_map, Array.getElem?_eq_getElem pc.isLt]
    rfl
  rw [decode_assemble hslot]
  exact fs[pc].keeps_instruction

/-- An index whose highest bit is set makes the first word negative. -/
example : (Instruction.ofInts 259 0 32768 0).head = -2147483645 := by decide

end Reckon
