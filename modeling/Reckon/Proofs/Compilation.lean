-- SUMMARY: The program of a tree: it runs the lines of the tree, cut off where a limit was met.
import Reckon.Proofs.Elimination
import Reckon.Proofs.Emission

/-!
# Compiled programs

A compiled program consists of the lines of the tree, cut off where a limit was
met, and of a halt; only if no instruction at all is allowed, it is empty.
Running the program is running these lines, also after unreachable slots were
cleared. A compilation fails exactly if there is no room for all the lines and
a halt, or if the constants do not fit the pools.
-/

namespace Reckon

/-! ## The closing halt -/

def Instruction.halt : Instruction := Draft.instruction { op := .halt }

namespace Emitter

/-- A halt is appended even after an error, if any instruction is allowed at all. -/
theorem append_halt (e : Emitter) :
    e.append 0 { op := .halt } =
      if e.maxInstructions ≤ e.code.size then e.fail (.instructionLimit e.maxInstructions)
      else { e with code := e.code.push .halt, maxDepth := max e.maxDepth e.depth.toNat } := by
  have hslots : e.slots .halt = e.maxInstructions := if_pos rfl
  simp only [append, emit, ne_eq, not_true_eq_false, decide_false, Bool.and_false,
    Bool.false_eq_true, if_false, hslots, Int.add_zero]
  split
  · rfl
  · rfl

end Emitter

namespace Expr

/-! ## What is compiled -/

/-- The tree that is compiled. -/
def target (o : CompileOptions) (x : Expr) : Expr := if o.optimize then x.fold else x

/-- The lines of the tree that is compiled. -/
def code (o : CompileOptions) (x : Expr) : List Line := (x.target o).lines o.prefixes

/-- An emitter that has written these lines one by one. -/
def written (o : CompileOptions) (x : Expr) : Emitter := o.emitter.putAll (x.code o)

/-- How many of the lines the program has. -/
def extent (o : CompileOptions) (x : Expr) : Nat := (x.written o).code.size

variable (o : CompileOptions) (x : Expr)

theorem capped_emitter : o.emitter.Capped := by
  have hlimit : min o.maxPoolEntries Pool.capacity ≤ (Pool.capacity : Int) := Int.min_le_right _ _
  exact ⟨hlimit, hlimit, Nat.zero_le _, Nat.zero_le _⟩

theorem emits_code : o.emitter.Emits (x.code o) ((x.target o).emit o.emitter) :=
  emits_lines (x.target o) rfl

theorem emitProgram_eq :
    x.emitProgram o = ((x.target o).emit o.emitter).append 0 { op := .halt } := by
  have hbalanced := balanced_eq (x.emits_code o)
  rw [emitProgram]
  exact congrArg (Emitter.append · 0 { op := .halt }) hbalanced

theorem size_emit : ((x.target o).emit o.emitter).code.size = x.extent o :=
  (x.emits_code o).agrees.size

theorem extent_lt : x.extent o = 0 ∨ (x.extent o : Int) < o.maxInstructions :=
  o.emitter.size_putAll_lt (x.code o)

theorem constants_emitProgram : (x.emitProgram o).constants = (x.written o).constants := by
  rw [emitProgram_eq, Emitter.append_halt]
  split
  · obtain ⟨y, hfail, -⟩ := Emitter.fail_eq ((x.target o).emit o.emitter) (.instructionLimit _)
    rw [hfail]
    exact (x.emits_code o).agrees.constants
  · exact (x.emits_code o).agrees.constants

theorem maxInstructions_emit :
    ((x.target o).emit o.emitter).maxInstructions = o.maxInstructions :=
  (x.emits_code o).agrees.maxInstructions.trans (o.emitter.maxInstructions_putAll _)

theorem toList_emit :
    ((x.target o).emit o.emitter).code.toList =
      (Line.cut (x.extent o) (x.code o)).map (·.instruction (x.written o).constants) := by
  have hemits := x.emits_code o
  have hcode := hemits.appends.code _ (.refl _)
  rwa [size_emit, hemits.agrees.constants] at hcode

/-- The instructions of the program. -/
theorem toList_emitProgram :
    (x.emitProgram o).code.toList =
      (Line.cut (x.extent o) (x.code o)).map (·.instruction (x.written o).constants) ++
        if 0 < o.maxInstructions then [.halt] else [] := by
  have hextent := x.extent_lt o
  rw [emitProgram_eq, Emitter.append_halt, maxInstructions_emit, size_emit, ← toList_emit]
  split
  next hfull =>
    obtain ⟨y, hfail, -⟩ := Emitter.fail_eq ((x.target o).emit o.emitter) (.instructionLimit _)
    rw [hfail, if_neg (by omega), List.append_nil]
  next hroom =>
    rw [if_pos (by omega)]
    exact Array.toList_push

theorem error_written_eq_none_iff :
    (x.written o).error = none ↔ ((x.code o).length : Int) < o.maxInstructions ∧
      ∀ l ∈ x.code o, ∀ a ∈ l.constant?, (x.written o).constants.Has a := by
  have hne : x.code o ≠ [] := List.length_pos_iff.1 (length_lines_pos o.prefixes (x.target o))
  have hiff : (x.written o).error = none ↔ _ :=
    Emitter.error_putAll_eq_none_iff (capped_emitter o)
  have hroom : (o.emitter.code.size : Int) + (x.code o).length = (x.code o).length :=
    Int.zero_add _
  rw [hroom, or_iff_right hne] at hiff
  exact hiff.trans (and_iff_right rfl)

/-- The halt adds no error, for the lines before it have kept a slot for it. -/
theorem error_emitProgram_eq_none_iff :
    (x.emitProgram o).error = none ↔ (x.written o).error = none := by
  have herror : ((x.target o).emit o.emitter).error = (x.written o).error :=
    (x.emits_code o).agrees.error
  rw [emitProgram_eq, Emitter.append_halt, maxInstructions_emit, size_emit]
  split
  next hfull =>
    obtain ⟨y, hfail, -⟩ := Emitter.fail_eq ((x.target o).emit o.emitter) (.instructionLimit _)
    rw [hfail]
    refine ⟨nofun, fun hnone => ?_⟩
    have hsize : x.extent o = 0 + (x.code o).length := (Emitter.putAll_of_none hnone).2.1
    have hlength := ((x.error_written_eq_none_iff o).1 hnone).1
    omega
  next hroom => rw [← herror]

/-- A compilation succeeds exactly if there is room for the lines and a halt, and the
    pools hold the constants. -/
theorem failure_compile_eq_none_iff :
    (x.compile o).failure = none ↔ ((x.code o).length : Int) < o.maxInstructions ∧
      ∀ l ∈ x.code o, ∀ a ∈ l.constant?, (x.written o).constants.Has a := by
  rw [← error_written_eq_none_iff, ← error_emitProgram_eq_none_iff]
  exact Option.map_eq_none_iff

variable {o x} in
/-- If the pools have room for as many constants as there may be instructions, only the
    number of lines counts. -/
theorem failure_compile_eq_none_iff_of_le
    (hlimits : o.maxInstructions ≤ min o.maxPoolEntries Pool.capacity) :
    (x.compile o).failure = none ↔ ((x.code o).length : Int) < o.maxInstructions := by
  rw [failure_compile_eq_none_iff, and_iff_left_of_imp]
  intro hlength l hl a ha
  have hroom : (0 + (x.code o).length : Nat) ≤ min o.maxPoolEntries Pool.capacity := by omega
  exact Emitter.has_putAll_of_le (e := o.emitter) hroom hroom hl ha

end Expr

/-! ## The numbers that lines state -/

namespace Line

theorem operand_clip_le (most : Nat) (l : Line) : (l.clip most).operand ≤ l.pops + most := by
  cases l <;> simp only [clip, operand, pops] <;> omega

/-- The numbers that lines state are bounded by how many lines there are. -/
theorem Typed.operand_le {h : Int} {ls : List Line} (ht : Typed h ls) {k : Nat} {l : Line}
    (hl : l ∈ Line.cut k ls) : (l.operand : Int) ≤ h + k := by
  fun_induction Line.cut k ls generalizing h with
  | case1 => cases hl
  | case2 => cases hl
  | case3 k l' ls ih =>
    rcases List.mem_cons.1 hl with rfl | hl
    · have hclip := operand_clip_le k l'
      have hpops := ht.1
      omega
    · have hrest := ih ht.2.2 hl
      have hshift := l'.shift_le_one
      omega

end Line

namespace Expr

variable {o : CompileOptions} {x : Expr}

theorem typed_code : Line.Typed 0 (x.code o) := by
  have htyped : Line.Typed 0 (x.code o ++ []) :=
    typed_lines o.prefixes (x.target o) (Int.le_refl 0) trivial
  rwa [List.append_nil] at htyped

/-- The lines of a program can be packed, if there are not too many. -/
theorem placed_code (h : x.extent o < 2147483648) {l : Line}
    (hl : l ∈ Line.cut (x.extent o) (x.code o)) : l.Placed (x.written o).constants := by
  have hemits := x.emits_code o
  have hhas := hemits.appends.has
  rw [size_emit, hemits.agrees.constants] at hhas
  have hoperand := typed_code.operand_le hl
  exact ⟨hhas l hl, by omega⟩

theorem extent_le : x.extent o ≤ (x.code o).length :=
  Nat.zero_add (x.code o).length ▸ (o.emitter.size_putAll_le (x.code o)).2

theorem error_written_of_ok (h : (x.compile o).failure = none) :
    (x.written o).error = none :=
  (x.error_written_eq_none_iff o).2 ((x.failure_compile_eq_none_iff o).1 h)

theorem extent_of_ok (h : (x.compile o).failure = none) :
    x.extent o = (x.code o).length := by
  have hextent : x.extent o = 0 + (x.code o).length :=
    (Emitter.putAll_of_none (error_written_of_ok h)).2.1
  rw [hextent, Nat.zero_add]

/-- If the compilation succeeds, no line is cut off. -/
theorem cut_code (h : (x.compile o).failure = none) :
    Line.cut (x.extent o) (x.code o) = x.code o := by
  rw [extent_of_ok h]
  exact Line.cut_length (x.emits_code o).closed

/-- The stack need that a program states is enough for its lines. -/
theorem peak_le_stackNeed :
    Line.peak 0 (Line.cut (x.extent o) (x.code o)) ≤ (x.compile o).stackNeed := by
  have hpeak : (x.written o).maxDepth = max 0 (Line.peak 0 ((x.code o).take (x.extent o))) :=
    o.emitter.maxDepth_putAll (x.code o)
  have hmax : (x.written o).maxDepth ≤ (x.emitProgram o).maxDepth := by
    have hsame : ((x.target o).emit o.emitter).maxDepth = (x.written o).maxDepth :=
      (x.emits_code o).agrees.maxDepth
    rw [← hsame, emitProgram_eq, Emitter.append_halt]
    split
    · obtain ⟨y, hfail, -⟩ := Emitter.fail_eq ((x.target o).emit o.emitter) (.instructionLimit _)
      exact Nat.le_of_eq (by rw [hfail])
    · exact Nat.le_max_left _ _
  rw [Line.peak_cut]
  exact Nat.le_trans (Nat.le_trans (Nat.le_max_right 0 _) (Nat.le_of_eq hpeak.symm)) hmax

theorem size_words_compile : (x.compile o).words.size = 2 * (x.emitProgram o).code.size := by
  rw [compile, ← Words.size_assemble]
  cases o.eliminateDeadCode with
  | false => rfl
  | true => exact Array.size_mapIdx

theorem extent_le_size : 2 * x.extent o ≤ (x.compile o).words.size := by
  have hlength := congrArg List.length (x.toList_emitProgram o)
  have hle := extent_le (o := o) (x := x)
  rw [List.length_append, List.length_map, Line.length_cut, Array.length_toList] at hlength
  rw [size_words_compile]
  omega

theorem extent_lt_of_size (h : (x.compile o).words.size < 4294967296) :
    x.extent o < 2147483648 := by
  have hle := extent_le_size (o := o) (x := x)
  omega

/-! ## Running the program -/

theorem fetch_compile (hkept : o.eliminateDeadCode = false) {pc : Nat} {i : Instruction}
    (hi : (x.emitProgram o).code.toList[pc]? = some i) : (x.compile o).fetch pc = i := by
  rw [Program.fetch_eq_decode, compile, hkept]
  exact Words.decode_assemble (Array.getElem?_toList.symm.trans hi)

theorem holds_compile (h : x.extent o < 2147483648) (hkept : o.eliminateDeadCode = false) :
    (x.compile o).Holds (Line.cut (x.extent o) (x.code o)) := by
  have hconst : (x.compile o).constants = (x.written o).constants := x.constants_emitProgram o
  have hcode := x.toList_emitProgram o
  have hlength := congrArg List.length hcode
  rw [List.length_append, List.length_map, Array.length_toList] at hlength
  have hcount : (x.compile o).count = (x.emitProgram o).code.size := rfl
  refine ⟨?_, ?_, ?_, ?_, ?_, ?_⟩
  · rw [hconst]
    exact ((capped_emitter o).putAll (x.code o)).bounded
  · intro l hl
    rw [hconst]
    exact placed_code h hl
  · intro pc l hl
    refine fetch_compile hkept ?_
    rw [hcode, List.getElem?_append_left, List.getElem?_map, hl, hconst]
    · rfl
    · rw [List.length_map]
      exact (List.getElem?_eq_some_iff.1 hl).1
  · omega
  · split at hlength <;> simp only [List.length_singleton, List.length_nil] at hlength <;> omega
  · intro hlt
    split at hlength
    next hallowed =>
      have hhalt : (x.compile o).fetch (Line.cut (x.extent o) (x.code o)).length = .halt := by
        refine fetch_compile hkept ?_
        rw [hcode, if_pos hallowed, List.getElem?_append_right (by simp), List.length_map,
          Nat.sub_self]
        rfl
      rw [hhalt]
      exact Draft.opcode?_instruction _
    next =>
      rw [List.length_nil] at hlength
      omega

theorem compile_eq_eliminate (h : o.eliminateDeadCode = true) :
    x.compile o = (x.compile { o with eliminateDeadCode := false }).eliminate
      (x.emitProgram o).code.size := by
  rw [compile, h]
  rfl

/-- A compiled program runs the lines of the tree, cut off where a limit was met. -/
theorem runFrom_compile (h : x.extent o < 2147483648) (env : Environment) (c : Context) :
    Machine.runFrom env (x.compile o) 0 c =
      Machine.runLines env (Line.cut (x.extent o) (x.code o)) c := by
  cases hclear : o.eliminateDeadCode with
  | false => exact Machine.runFrom_eq_runLines env (holds_compile h hclear) 0 c
  | true =>
    have hholds : (x.compile { o with eliminateDeadCode := false }).Holds
        (Line.cut (x.extent o) (x.code o)) := holds_compile h rfl
    rw [compile_eq_eliminate hclear,
      Machine.runFrom_eliminate env _ _ 0 c (Words.reachable_zero _)]
    exact Machine.runFrom_eq_runLines env hholds 0 c

end Expr

end Reckon
