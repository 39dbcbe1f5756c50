-- SUMMARY: Lines as packed instructions: where their constants lie, and that the machine does what the lines say.
import Reckon.Proofs.Assembly
import Reckon.Proofs.NumberText

/-!
# Encoding of lines

A line is packed into an instruction by replacing its constant by the place of
that constant in a pool. The machine gets the constant back from the pool, so
executing the instruction does what the line says; for a floating-point
constant this is the text of the number, read again. A program that holds the
instructions of a list of lines, closed by a halt, therefore runs the lines.
-/

namespace Reckon

/-! ## Packing -/

theorem Instruction.toNat_head (i : Instruction) :
    i.head.toUInt32.toNat = i.op.toNat + 256 * i.flag.toNat + 65536 * i.index.toNat := by
  have hop := i.op.toNat_lt
  have hflag := i.flag.toNat_lt
  have hindex := i.index.toNat_lt
  rw [head, UInt32.toUInt32_toInt32, UInt32.toNat_ofNat']
  omega

theorem Instruction.ofWords_head (i : Instruction) : ofWords i.head i.imm = i := by
  obtain ⟨op, flag, index, imm⟩ := i
  have hop := op.toNat_lt
  have hflag := flag.toNat_lt
  have hindex := index.toNat_lt
  simp only [ofWords, toNat_head, mk.injEq, and_true]
  refine ⟨?_, ?_, ?_⟩
  · apply UInt8.toNat_inj.1
    rw [UInt8.toNat_ofNat']
    omega
  · apply UInt8.toNat_inj.1
    rw [UInt8.toNat_ofNat']
    omega
  · apply UInt16.toNat_inj.1
    rw [UInt16.toNat_ofNat']
    omega

theorem Words.size_assemble (is : Array Instruction) : (assemble is).size = 2 * is.size := by
  rw [← Array.length_toList, ← Array.length_toList, assemble, Array.toList_flatMap]
  induction is.toList with
  | nil => rfl
  | cons i is ih =>
    rw [List.flatMap_cons, List.length_append, ih, List.length_cons]
    simp only [List.length_cons, List.length_nil]
    omega

theorem Words.getElem?_assemble (is : Array Instruction) (pc : Nat) :
    (assemble is)[2 * pc]? = is[pc]?.map Instruction.head ∧
      (assemble is)[2 * pc + 1]? = is[pc]?.map Instruction.imm := by
  rw [← Array.getElem?_toList, ← Array.getElem?_toList, ← Array.getElem?_toList, assemble,
    Array.toList_flatMap]
  induction is.toList generalizing pc with
  | nil => simp
  | cons i is ih =>
    cases pc with
    | zero => simp
    | succ pc => simpa [Nat.mul_add] using ih pc

/-- Packed instructions are unpacked as they were. -/
theorem Words.decode_assemble {is : Array Instruction} {pc : Nat} {i : Instruction}
    (h : is[pc]? = some i) : (assemble is).decode pc = i := by
  obtain ⟨hhead, himm⟩ := getElem?_assemble is pc
  rw [decode, hhead, himm, h]
  exact Instruction.ofWords_head i

namespace Draft

theorem opcode?_instruction (d : Draft) : d.instruction.opcode? = some d.op := by
  have hbyte : UInt8.ofInt (d.op.toByte.toNat : Int) = d.op.toByte := by
    apply UInt8.toNat_inj.1
    have := d.op.toByte.toNat_lt
    simp only [UInt8.ofInt, UInt8.toNat_ofNat']
    omega
  have hop : d.instruction.op = d.op.toByte := hbyte
  rw [Instruction.opcode?, hop, Opcode.ofByte?_toByte]

theorem toNat_index {d : Draft} (h : d.index < 65536) :
    d.instruction.index.toNat = d.index := by
  show (UInt16.ofInt d.index).toNat = d.index
  simp only [UInt16.ofInt, UInt16.toNat_ofNat']
  omega

theorem toInt_imm {d : Draft} (hlow : -2147483648 ≤ d.imm) (hhigh : d.imm ≤ 2147483647) :
    d.instruction.imm.toInt = d.imm :=
  Int32.toInt_ofInt_of_le (by omega) (by omega)

end Draft

/-! ## Constants -/

/-- A constant that lies in a pool. -/
inductive Constant where
  | text (t : Text)
  | int (n : Int)
deriving DecidableEq

/-- The constants of a program, or of one under construction. -/
structure Constants where
  strings : List Text
  ints : List Int

namespace Constants

/-- Where a constant lies. -/
def position (k : Constants) : Constant → Nat
  | .text t => k.strings.idxOf t
  | .int n => k.ints.idxOf n

def Has (k : Constants) : Constant → Prop
  | .text t => t ∈ k.strings
  | .int n => n ∈ k.ints

/-- Positions in the pools fit the field of an instruction. -/
structure Bounded (k : Constants) : Prop where
  strings : k.strings.length ≤ Pool.capacity
  ints : k.ints.length ≤ Pool.capacity

theorem position_lt {k : Constants} (hb : k.Bounded) {a : Constant} (h : k.Has a) :
    k.position a < 65536 := by
  cases a with
  | text t => exact Nat.lt_of_lt_of_le (List.idxOf_lt_length_of_mem h) hb.strings
  | int n => exact Nat.lt_of_lt_of_le (List.idxOf_lt_length_of_mem h) hb.ints

end Constants

def Program.constants (p : Program) : Constants := ⟨p.strings, p.ints⟩

namespace Line

/-- The constant of a line that has to lie in a pool. -/
def constant? : Line → Option Constant
  | .push (.int n) => if Emitter.fitsImmediate n then none else some (.int (wrap64 n))
  | .push (.float x) => some (.text x.constantText)
  | .push (.string s) => some (.text s)
  | .load name | .property name => some (.text name)
  | .callBuiltin name _ | .callFunction name _ | .callMethod name _ => some (.text name)
  | _ => none

/-- The line as an instruction whose constant lies at `index`. -/
def draft (index : Nat) : Line → Draft
  | .push (.int n) =>
    if Emitter.fitsImmediate n then { op := .pushInt, imm := n }
    else { op := .pushInt, flag := 1, index }
  | .push (.float _) => { op := .pushFloat, index }
  | .push (.string _) => { op := .pushString, index }
  | .push (.bool b) => { op := .pushBool, flag := if b then 1 else 0 }
  | .push .null => { op := .pushNull }
  | .load _ => { op := .loadVar, index }
  | .property _ => { op := .getProp, index }
  | .computed => { op := .getComputed }
  | .index => { op := .getIndex }
  | .binary op => { op := .binary op }
  | .unary op => { op := .unary op }
  | .jumpIfFalse skip => { op := .jumpIfFalse, imm := skip + 1 }
  | .jump skip => { op := .jump, imm := skip + 1 }
  | .callBuiltin _ argc => { op := .callBuiltin, index, imm := argc }
  | .callFunction _ argc => { op := .callFunction, index, imm := argc }
  | .callMethod _ argc => { op := .callMethod, index, imm := argc }
  | .buildArray count => { op := .buildArray, imm := count }
  | .buildObject count => { op := .buildObject, imm := count }

/-- The packed line. -/
def instruction (k : Constants) (l : Line) : Instruction :=
  (l.draft (l.constant?.elim 0 k.position)).instruction

/-- The number of lines or values that a line states. -/
def operand : Line → Nat
  | .jumpIfFalse skip | .jump skip => skip + 1
  | .callBuiltin _ argc | .callFunction _ argc | .callMethod _ argc => argc
  | .buildArray count | .buildObject count => count
  | _ => 0

/-- The line can be packed without loss: its constant lies in a pool, and the number
    that it states fits an immediate. -/
structure Placed (k : Constants) (l : Line) : Prop where
  has : ∀ a ∈ l.constant?, k.Has a
  operand_lt : l.operand < 2147483648

end Line

/-! ## Execution -/

namespace Line

theorem index_draft {l : Line} {a : Constant} (h : l.constant? = some a) (index : Nat) :
    (l.draft index).index = index := by
  cases l with
  | push lit =>
    cases lit with
    | int n =>
      simp only [constant?, draft] at h ⊢
      split at h
      · cases h
      · rename_i hn
        rw [if_neg hn]
    | float x => rfl
    | string s => rfl
    | bool b => cases h
    | null => cases h
  | load name => rfl
  | property name => rfl
  | callBuiltin name argc => rfl
  | callFunction name argc => rfl
  | callMethod name argc => rfl
  | _ => cases h

variable {k : Constants} {l : Line}

theorem toNat_index_of_has (hb : k.Bounded) {a : Constant} (h : l.constant? = some a)
    (ha : k.Has a) : (l.instruction k).index.toNat = k.position a := by
  have hindex : (l.draft (l.constant?.elim 0 k.position)).index = k.position a := by
    rw [index_draft h, h]
    rfl
  exact (Draft.toNat_index (hindex ▸ Constants.position_lt hb ha)).trans hindex

theorem toNat_index_instruction (hb : k.Bounded) (hl : l.Placed k) {a : Constant}
    (h : l.constant? = some a) : (l.instruction k).index.toNat = k.position a :=
  toNat_index_of_has hb h (hl.has a h)

theorem getElem?_strings_of_has (hb : k.Bounded) {t : Text} (h : l.constant? = some (.text t))
    (ht : k.Has (.text t)) : k.strings[(l.instruction k).index.toNat]? = some t := by
  have hlt := List.idxOf_lt_length_of_mem ht
  rw [toNat_index_of_has hb h ht, Constants.position, List.getElem?_eq_getElem hlt,
    List.getElem_idxOf hlt]

theorem getElem?_ints_of_has (hb : k.Bounded) {n : Int} (h : l.constant? = some (.int n))
    (hn : k.Has (.int n)) : k.ints[(l.instruction k).index.toNat]? = some n := by
  have hlt := List.idxOf_lt_length_of_mem hn
  rw [toNat_index_of_has hb h hn, Constants.position, List.getElem?_eq_getElem hlt,
    List.getElem_idxOf hlt]

/-- The machine finds the text of a line in the pool. -/
theorem getElem?_strings (hb : k.Bounded) (hl : l.Placed k) {t : Text}
    (h : l.constant? = some (.text t)) : k.strings[(l.instruction k).index.toNat]? = some t :=
  getElem?_strings_of_has hb h (hl.has _ h)

/-- The machine finds the integer of a line in the pool. -/
theorem getElem?_ints (hb : k.Bounded) (hl : l.Placed k) {n : Int}
    (h : l.constant? = some (.int n)) : k.ints[(l.instruction k).index.toNat]? = some n :=
  getElem?_ints_of_has hb h (hl.has _ h)

theorem instruction_pushInt {n : Int} (hn : Emitter.fitsImmediate n) :
    (push (.int n)).instruction k = Draft.instruction { op := .pushInt, imm := n } := by
  simp only [instruction, draft, if_pos hn]

theorem opcode?_pushInt {n : Int} :
    ((push (.int n)).instruction k).opcode? = some .pushInt := by
  rw [instruction, Draft.opcode?_instruction, draft]
  split <;> rfl

theorem toInt_imm_instruction (hl : l.Placed k)
    (h : (l.draft (l.constant?.elim 0 k.position)).imm = l.operand) :
    (l.instruction k).imm.toInt = l.operand := by
  have := hl.operand_lt
  exact (Draft.toInt_imm (by omega) (by omega)).trans h

end Line

namespace Machine

theorem exec_pushInt (env : Environment) {p : Program} (pc : Nat) {n : Int} (c : Context)
    (hb : p.constants.Bounded) (hl : (Line.push (.int n)).Placed p.constants) :
    exec env p pc ((Line.push (.int n)).instruction p.constants) c =
      .next 0 (c.push env (.ofInt n)) := by
  by_cases hn : Emitter.fitsImmediate n
  · have hrange : -2147483648 ≤ n ∧ n ≤ 2147483647 := by
      simpa [Emitter.fitsImmediate] using hn
    have himm := Draft.toInt_imm (d := { op := .pushInt, imm := n }) hrange.1 hrange.2
    have hop := Draft.opcode?_instruction { op := .pushInt, imm := n }
    have hflag : (Draft.instruction { op := .pushInt, imm := n }).flag = 0 := rfl
    rw [Line.instruction_pushInt hn]
    simp only [exec, hop, hflag, himm, if_true, Option.elim]
  · have hconst : (Line.push (.int n)).constant? = some (.int (wrap64 n)) := if_neg hn
    have hint : p.ints[_]? = some (wrap64 n) := Line.getElem?_ints hb hl hconst
    have hdraft : (Line.push (.int n)).draft (p.constants.position (.int (wrap64 n))) =
        { op := .pushInt, flag := 1, index := p.constants.position (.int (wrap64 n)) } := if_neg hn
    have hflag : ((Line.push (.int n)).instruction p.constants).flag ≠ 0 := by
      rw [Line.instruction, hconst, Option.elim, hdraft]
      show UInt8.ofInt 1 ≠ 0
      decide
    simp only [exec, Line.opcode?_pushInt, if_neg hflag, hint, Option.elim, Value.ofInt,
      wrap64_wrap64]

theorem jump_succ (pc skip : Nat) (c : Context) (taken : Context → Bool × Context) :
    jump pc ((skip + 1 : Nat) : Int) c taken =
      .next (if (taken c).1 then skip else 0) (taken c).2 := by
  have hskip : ((skip + 1 : Nat) : Int).toNat - 1 = skip := by omega
  rw [jump, if_neg (by omega), hskip]

/-- The machine does with a packed line what the line says. -/
theorem exec_instruction (env : Environment) {p : Program} (pc : Nat) {l : Line} (c : Context)
    (hb : p.constants.Bounded) (hl : l.Placed p.constants) :
    exec env p pc (l.instruction p.constants) c = l.perform env c := by
  have hop : (l.instruction p.constants).opcode? = some _ := Draft.opcode?_instruction _
  have hstring : ∀ t, l.constant? = some (.text t) →
      p.strings[(l.instruction p.constants).index.toNat]? = some t :=
    fun t ht => Line.getElem?_strings hb hl ht
  have himm := Line.toInt_imm_instruction hl
  cases l with
  | push lit =>
    cases lit with
    | int n => exact exec_pushInt env pc c hb hl
    | float x =>
      simp only [exec, hop, hstring _ rfl, Line.draft, Line.perform, Option.elim, Literal.value,
        Double.toDouble_constantText]
    | string s =>
      simp only [exec, hop, hstring _ rfl, Line.draft, Line.perform, Option.elim, Literal.value]
    | bool b =>
      have hflag : (decide (((Line.push (.bool b)).instruction p.constants).flag ≠ 0)) = b := by
        cases b <;> rfl
      simp only [exec, hop, hflag, Line.draft, Line.perform, Literal.value]
    | null => simp only [exec, hop, Line.draft, Line.perform, Literal.value]
  | load name => simp only [exec, hop, hstring _ rfl, Line.draft, Line.perform, Option.elim]
  | property name => simp only [exec, hop, hstring _ rfl, Line.draft, Line.perform, Option.elim]
  | computed => simp only [exec, hop, Line.draft, Line.perform]
  | index => simp only [exec, hop, Line.draft, Line.perform]
  | binary op => simp only [exec, hop, Line.draft, Line.perform]
  | unary op => simp only [exec, hop, Line.draft, Line.perform]
  | jumpIfFalse skip =>
    simp only [exec, hop, himm rfl, Line.draft, Line.perform, Line.operand, jump_succ]
    cases c.pop.1.isTruthy <;> rfl
  | jump skip =>
    simp only [exec, hop, himm rfl, Line.draft, Line.perform, Line.operand, jump_succ, if_true]
  | callBuiltin name argc =>
    simp only [exec, hop, hstring _ rfl, himm rfl, Line.draft, Line.perform, Line.operand,
      Int.toNat_natCast]
  | callFunction name argc =>
    simp only [exec, hop, himm rfl, Line.draft, Line.perform, Line.operand, Int.toNat_natCast]
  | callMethod name argc =>
    simp only [exec, hop, hstring _ rfl, himm rfl, Line.draft, Line.perform, Line.operand,
      Int.toNat_natCast, Option.elim]
  | buildArray count =>
    simp only [exec, hop, himm rfl, Line.draft, Line.perform, Line.operand, Int.toNat_natCast]
  | buildObject count =>
    simp only [exec, hop, himm rfl, Line.draft, Line.perform, Line.operand, Int.toNat_natCast]

end Machine

/-! ## Runs -/

/-- The program consists of the lines, and of a halt behind them if it goes on. -/
structure Program.Holds (p : Program) (ls : List Line) : Prop where
  bounded : p.constants.Bounded
  placed : ∀ l ∈ ls, l.Placed p.constants
  fetch : ∀ pc l, ls[pc]? = some l → p.fetch pc = l.instruction p.constants
  le_count : (ls.length : Int) ≤ p.count
  count_le : p.count ≤ ls.length + 1
  halt : (ls.length : Int) < p.count → (p.fetch ls.length).opcode? = some .halt

namespace Machine

theorem exec_halt (env : Environment) (p : Program) (pc : Nat) {i : Instruction} (c : Context)
    (h : i.opcode? = some .halt) : exec env p pc i c = .stop c := by
  simp only [exec, h]

/-- A program runs the lines that it consists of. -/
theorem runFrom_eq_runLines (env : Environment) {p : Program} {ls : List Line} (h : p.Holds ls)
    (pc : Nat) (c : Context) : runFrom env p pc c = runLines env (ls.drop pc) c := by
  -- Inside the lines the machine does what the line says, and behind them it halts.
  have hexec : ∀ pc c, (hpc : pc < ls.length) →
      exec env p pc (p.fetch pc) c = (ls.get ⟨pc, hpc⟩).perform env c := by
    intro pc c hpc
    have hline : ls[pc]? = some (ls.get ⟨pc, hpc⟩) := List.getElem?_eq_getElem hpc
    rw [h.fetch pc _ hline]
    exact exec_instruction env pc c h.bounded (h.placed _ (List.get_mem ls ⟨pc, hpc⟩))
  have hcons : ∀ pc, (hpc : pc < ls.length) →
      ls.drop pc = ls.get ⟨pc, hpc⟩ :: ls.drop (pc + 1) :=
    fun pc hpc => List.drop_eq_getElem_cons hpc
  have hend : ∀ pc c, ls.length ≤ pc → (pc : Int) < p.count →
      exec env p pc (p.fetch pc) c = .stop c := by
    intro pc c hle hlt
    have hcount := h.count_le
    obtain rfl : pc = ls.length := by omega
    exact exec_halt env p _ c (h.halt hlt)
  have hcount := h.le_count
  fun_induction runFrom env p pc c with
  | case1 pc c hlt skip c' hnext ih =>
    by_cases hpc : pc < ls.length
    · rw [hexec pc c hpc] at hnext
      rw [hcons pc hpc, runLines_next _ hnext, ih, List.drop_drop]
    · rw [hend pc c (Nat.le_of_not_lt hpc) hlt] at hnext
      cases hnext
  | case2 pc c hlt c' hstop =>
    by_cases hpc : pc < ls.length
    · rw [hexec pc c hpc] at hstop
      rw [hcons pc hpc, runLines_stop _ hstop]
    · rw [hend pc c (Nat.le_of_not_lt hpc) hlt] at hstop
      cases hstop
      rw [List.drop_eq_nil_of_le (Nat.le_of_not_lt hpc), runLines]
  | case3 pc c hlt message c' hraise =>
    by_cases hpc : pc < ls.length
    · rw [hexec pc c hpc] at hraise
      rw [hcons pc hpc, runLines_raise _ hraise]
    · rw [hend pc c (Nat.le_of_not_lt hpc) hlt] at hraise
      cases hraise
  | case4 pc c hge =>
    rw [List.drop_eq_nil_of_le (by omega), runLines]

end Machine

end Reckon
