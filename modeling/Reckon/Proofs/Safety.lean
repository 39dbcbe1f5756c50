-- SUMMARY: Compiled programs are safe to run, whether or not their compilation failed.
import Reckon.Proofs.Compilation

/-!
# Safety of compiled programs

Every slot of a compiled program holds a known operation that finds its constant
in the pools and jumps, if it does, forward. The stack never runs short of
values. So the only fault of a run is an overflow, and there is none if the
stack has the room that the program needs. This is so for a program that was cut
off at a limit, too, and for one whose unreachable slots were cleared.
-/

namespace Reckon

/-! ## Sound instructions -/

/-- The instruction is one of the operations, the pools have the constant that it reads,
    and if it jumps, it jumps forward. -/
def Instruction.Sound (k : Constants) (i : Instruction) : Prop :=
  match i.opcode? with
  | some .pushInt => i.flag ≠ 0 → i.index.toNat < k.ints.length
  | some .pushFloat | some .pushString | some .loadVar | some .getProp
  | some .callMethod | some .callBuiltin | some .callFunction => i.index.toNat < k.strings.length
  | some .jump | some .jumpIfFalse | some .jumpIfTrue => 0 < i.imm.toInt
  | some _ => True
  | none => False

/-- Every slot that the machine may enter holds a sound instruction. -/
def Program.Sound (p : Program) : Prop :=
  ∀ pc : Nat, (pc : Int) < p.count → (p.fetch pc).Sound p.constants

namespace Line

variable {k : Constants}

theorem sound_pushInt (hb : k.Bounded) {n : Int} (hl : (push (.int n)).Placed k) :
    ((push (.int n)).instruction k).Sound k := by
  simp only [Instruction.Sound, opcode?_pushInt]
  intro hflag
  by_cases hn : Emitter.fitsImmediate n
  · rw [instruction_pushInt hn] at hflag
    exact absurd rfl hflag
  · have hconst : (push (.int n)).constant? = some (.int (wrap64 n)) := if_neg hn
    exact (List.getElem?_eq_some_iff.1 (getElem?_ints hb hl hconst)).1

/-- A line that can be packed becomes a sound instruction. -/
theorem sound_instruction (hb : k.Bounded) {l : Line} (hl : l.Placed k) :
    (l.instruction k).Sound k := by
  have hop : (l.instruction k).opcode? = some _ := Draft.opcode?_instruction _
  have hstring : ∀ t, l.constant? = some (.text t) →
      (l.instruction k).index.toNat < k.strings.length :=
    fun t ht => (List.getElem?_eq_some_iff.1 (getElem?_strings hb hl ht)).1
  have himm := toInt_imm_instruction hl
  have hforward : ∀ skip : Nat, 0 < ((skip + 1 : Nat) : Int) := fun skip => by omega
  cases l with
  | push lit =>
    cases lit with
    | int n => exact sound_pushInt hb hl
    | float x => simp only [Instruction.Sound, hop, draft, hstring _ rfl]
    | string s => simp only [Instruction.Sound, hop, draft, hstring _ rfl]
    | bool b => simp only [Instruction.Sound, hop, draft]
    | null => simp only [Instruction.Sound, hop, draft]
  | load name => simp only [Instruction.Sound, hop, draft, hstring _ rfl]
  | property name => simp only [Instruction.Sound, hop, draft, hstring _ rfl]
  | callBuiltin name argc => simp only [Instruction.Sound, hop, draft, hstring _ rfl]
  | callFunction name argc => simp only [Instruction.Sound, hop, draft, hstring _ rfl]
  | callMethod name argc => simp only [Instruction.Sound, hop, draft, hstring _ rfl]
  | jumpIfFalse skip => simp only [Instruction.Sound, hop, draft, himm rfl, operand, hforward]
  | jump skip => simp only [Instruction.Sound, hop, draft, himm rfl, operand, hforward]
  | _ => simp only [Instruction.Sound, hop, draft]

end Line

/-! ## Sound programs -/

namespace Program

theorem Holds.sound {p : Program} {ls : List Line} (h : p.Holds ls) : p.Sound := by
  intro pc hpc
  by_cases hline : pc < ls.length
  · have hget : ls[pc]? = some (ls.get ⟨pc, hline⟩) := List.getElem?_eq_getElem hline
    rw [h.fetch pc _ hget]
    exact Line.sound_instruction h.bounded (h.placed _ (List.get_mem ls ⟨pc, hline⟩))
  · have hcount := h.count_le
    obtain rfl : pc = ls.length := by omega
    simp only [Instruction.Sound, h.halt hpc]

/-- Clearing slots leaves a program sound, for a cleared slot does nothing. -/
theorem Sound.eliminate {p : Program} (h : p.Sound) (count : Nat) : (p.eliminate count).Sound := by
  intro pc hpc
  by_cases hcleared : (p.words.reachable count)[pc]? = some false
  · rw [fetch_eliminate_cleared hcleared]
    trivial
  · rw [fetch_eliminate hcleared]
    exact h pc hpc

end Program

namespace Expr

variable {o : CompileOptions} {x : Expr}

theorem sound_compile (h : x.extent o < 2147483648) : (x.compile o).Sound := by
  cases hclear : o.eliminateDeadCode with
  | false => exact (holds_compile h hclear).sound
  | true =>
    have hholds : (x.compile { o with eliminateDeadCode := false }).Holds
        (Line.cut (x.extent o) (x.code o)) := holds_compile h rfl
    rw [compile_eq_eliminate hclear]
    exact hholds.sound.eliminate _

/-! ## Runs -/

/-- Whether or not the compilation failed, all instructions of a program are sound. A run
    yields a value and meets no fault but an overflow of the stack, and none at all if the
    stack has the room that the program needs. -/
theorem run_compile_safe (o : CompileOptions) (x : Expr) (env : Environment)
    (locals : Entries Value) (hlimit : o.maxInstructions < 2147483648) (hq : env.Quiet) :
    (x.compile o).Sound ∧
    ∃ v c, Context.run { locals } env (x.compile o) = (.ok v, c) ∧
      (c.fault = none ∨ c.fault = some (.stackOverflow env.maxStack)) ∧
      (((x.compile o).stackNeed : Int) ≤ env.maxStack → c.fault = none) := by
  have hextent : x.extent o < 2147483648 := by
    have hlt := x.extent_lt o
    omega
  have hstart : Context.At 0 { locals, used := true } := ⟨rfl, rfl⟩
  obtain ⟨c, hlines, hfault⟩ :=
    Machine.runLines_typed hq hstart ((typed_code (o := o) (x := x)).cut (x.extent o))
  have hrun : Context.run { locals } env (x.compile o) =
      (.ok c.result, { c with stack := .empty, locals := [] }) := by
    rw [← runFrom_compile hextent] at hlines
    simp only [Context.run, Bool.false_eq_true, if_false, hlines]
  refine ⟨sound_compile hextent, _, _, hrun, ?_, fun hstack => ?_⟩
  · exact hfault.imp_right And.right
  · refine hfault.resolve_right fun ⟨hpeak, _⟩ => ?_
    have hneed := peak_le_stackNeed (o := o) (x := x)
    rw [Environment.room] at hpeak
    omega

/-- `n ? ["some", n] : "none"` -/
def branching : Expr :=
  .cond (.var "n") (.array [.lit (.string "some"), .var "n"]) (.lit (.string "none"))

/-- The pool takes the name but not the strings, so that the jump leads to the halt. -/
theorem run_branching :
    (branching.compile { maxPoolEntries := 1, eliminateDeadCode := true }).failure =
      some (.compile .stringPool) ∧
    (branching.compile { maxPoolEntries := 1, eliminateDeadCode := true }).Sound ∧
    ∃ v c, Context.run { locals := [("n", .int 1)] } { maxStack := 1 }
      (branching.compile { maxPoolEntries := 1, eliminateDeadCode := true }) = (.ok v, c) ∧
      c.fault = none := by
  have hquiet : Environment.Quiet { maxStack := 1 } := nofun
  obtain ⟨hsound, v, c, hrun, -, hfault⟩ :=
    run_compile_safe { maxPoolEntries := 1, eliminateDeadCode := true } branching { maxStack := 1 }
      [("n", .int 1)] (by decide) hquiet
  exact ⟨by decide, hsound, v, c, hrun, hfault (by decide)⟩

end Expr

end Reckon
