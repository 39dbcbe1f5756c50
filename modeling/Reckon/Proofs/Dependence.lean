-- SUMMARY: A compiled program loads only the variables that its tree names, so its run depends on no others.
import Reckon.Proofs.Agreement
import Reckon.Proofs.Correctness
import Reckon.Proofs.Reachability

/-!
# What a result depends on

The lines of a tree load exactly the variables that the tree names, and folding
drops some of them at most. The program loads what the lines do. So two runs of
a compiled program in environments that agree on the variables of the tree agree
in all that they yield.
-/

namespace Reckon

namespace Expr

/-! ## Variables of lines -/

section

variable (prefixes : List Text) (name : Text)

theorem load_not_mem_call (callee : Text) (argc : Nat) :
    Line.load name ≠ Line.call prefixes callee argc := by
  unfold Line.call
  split <;> exact Line.noConfusion

mutual

/-- The lines of a tree load the variables that it names. -/
theorem load_mem_lines (x : Expr) : Line.load name ∈ x.lines prefixes ↔ name ∈ x.reads := by
  cases x with
  | lit l => simp [lines, reads]
  | var name' => simp [lines, reads]
  | field owner property => simp [lines, reads]
  | member target property => simp [lines, reads, load_mem_lines target]
  | computed target key => simp [lines, reads, load_mem_lines target, load_mem_lines key]
  | index target position => simp [lines, reads, load_mem_lines target, load_mem_lines position]
  | binary op left right => simp [lines, reads, load_mem_lines left, load_mem_lines right]
  | unary op operand => simp [lines, reads, load_mem_lines operand]
  | cond test consequent alternate =>
    simp [lines, reads, load_mem_lines test, load_mem_lines consequent, load_mem_lines alternate]
  | call callee args =>
    simp [lines, reads, load_mem_linesArgs args, load_not_mem_call]
  | method receiver property args =>
    simp [lines, reads, load_mem_lines receiver, load_mem_linesArgs args]
  | group inner => simp [lines, reads, load_mem_lines inner]
  | array elements => simp [lines, reads, load_mem_linesAll elements]
  | object properties => simp [lines, reads, load_mem_linesProperties properties]
  | unknown kind => simp [lines, reads]

theorem load_mem_linesArgs (xs : List Expr) :
    Line.load name ∈ linesArgs prefixes xs ↔ name ∈ readsAll xs := by
  cases xs with
  | nil => simp [linesArgs, readsAll]
  | cons x xs => simp [linesArgs, readsAll, load_mem_lines x, load_mem_linesArgs xs, or_comm]

theorem load_mem_linesAll (xs : List Expr) :
    Line.load name ∈ linesAll prefixes xs ↔ name ∈ readsAll xs := by
  cases xs with
  | nil => simp [linesAll, readsAll]
  | cons x xs => simp [linesAll, readsAll, load_mem_lines x, load_mem_linesAll xs]

theorem load_mem_linesProperties (xs : List (Text × Expr)) :
    Line.load name ∈ linesProperties prefixes xs ↔ name ∈ readsProperties xs := by
  cases xs with
  | nil => simp [linesProperties, readsProperties]
  | cons p xs =>
    simp [linesProperties, readsProperties, load_mem_lines p.2, load_mem_linesProperties xs]

end

end

/-! ## Variables of folded trees -/

section

variable {name : Text}

theorem reads_foldBinary {op : BinaryOp} {left right : Expr}
    (h : name ∈ (foldBinary op left right).reads) : name ∈ left.reads ++ right.reads := by
  rcases foldBinary_cases op left right with ⟨a, b, l, -, -, hfold, -⟩ | hfold
  · rw [hfold] at h
    cases h
  · rwa [hfold] at h

theorem reads_foldUnary {op : UnaryOp} {operand : Expr}
    (h : name ∈ (foldUnary op operand).reads) : name ∈ operand.reads := by
  rcases foldUnary_cases op operand with ⟨a, l, -, hfold, -⟩ | hfold
  · rw [hfold] at h
    cases h
  · rwa [hfold] at h

mutual

/-- A folded tree names no other variables. -/
theorem reads_fold (x : Expr) (h : name ∈ x.fold.reads) : name ∈ x.reads := by
  cases x with
  | lit l => exact h
  | var name' => exact h
  | field owner property => exact h
  | member target property => exact reads_fold target h
  | computed target key =>
    exact List.mem_append.2 ((List.mem_append.1 h).imp (reads_fold target) (reads_fold key))
  | index target position =>
    exact List.mem_append.2 ((List.mem_append.1 h).imp (reads_fold target) (reads_fold position))
  | binary op left right =>
    exact List.mem_append.2
      ((List.mem_append.1 (reads_foldBinary h)).imp (reads_fold left) (reads_fold right))
  | unary op operand => exact reads_fold operand (reads_foldUnary h)
  | cond test consequent alternate =>
    simp only [reads, List.mem_append]
    rcases fold_cond test consequent alternate with ⟨l, -, hfold⟩ | hfold
    · rw [hfold] at h
      split at h
      · exact .inl (.inr (reads_fold consequent h))
      · exact .inr (reads_fold alternate h)
    · rw [hfold] at h
      simp only [reads, List.mem_append] at h
      exact h.imp (Or.imp (reads_fold test) (reads_fold consequent)) (reads_fold alternate)
  | call callee args => exact readsAll_foldAll args h
  | method receiver property args =>
    exact List.mem_append.2
      ((List.mem_append.1 h).imp (reads_fold receiver) (readsAll_foldAll args))
  | group inner => exact reads_fold inner h
  | array elements => exact readsAll_foldAll elements h
  | object properties => exact readsProperties_foldProperties properties h
  | unknown kind => exact h

theorem readsAll_foldAll (xs : List Expr) (h : name ∈ readsAll (foldAll xs)) :
    name ∈ readsAll xs := by
  cases xs with
  | nil => exact h
  | cons x xs =>
    exact List.mem_append.2 ((List.mem_append.1 h).imp (reads_fold x) (readsAll_foldAll xs))

theorem readsProperties_foldProperties (xs : List (Text × Expr))
    (h : name ∈ readsProperties (foldProperties xs)) : name ∈ readsProperties xs := by
  cases xs with
  | nil => exact h
  | cons p xs =>
    exact List.mem_append.2
      ((List.mem_append.1 h).imp (reads_fold p.2) (readsProperties_foldProperties xs))

end

end

theorem mem_variableNames {x : Expr} {name : Text} : name ∈ x.variableNames ↔ name ∈ x.reads :=
  List.mem_eraseDups

end Expr

/-! ## Variables of programs -/

theorem Line.load_mem_of_mem_cut {k : Nat} {ls : List Line} {name : Text}
    (h : load name ∈ cut k ls) : load name ∈ ls := by
  fun_induction cut k ls with
  | case1 => cases h
  | case2 => cases h
  | case3 k l ls ih =>
    rcases List.mem_cons.1 h with hclip | hrest
    · cases l with
      | load name' =>
        cases hclip
        exact List.mem_cons_self
      | _ => cases hclip
    · exact List.mem_cons_of_mem _ (ih hrest)

/-- Only a load is packed into an instruction that loads. -/
theorem Line.eq_load_of_opcode? {k : Constants} {l : Line}
    (h : (l.instruction k).opcode? = some .loadVar) : ∃ name, l = load name := by
  cases l with
  | load name => exact ⟨name, rfl⟩
  | push lit =>
    cases lit with
    | int n => rw [opcode?_pushInt] at h; cases h
    | _ => rw [instruction, Draft.opcode?_instruction] at h; cases h
  | _ => rw [instruction, Draft.opcode?_instruction] at h; cases h

namespace Expr

variable {o : CompileOptions} {x : Expr} {name : Text}

theorem has_code {l : Line} (hl : l ∈ Line.cut (x.extent o) (x.code o)) :
    ∀ a ∈ l.constant?, (x.written o).constants.Has a := by
  have hemits := x.emits_code o
  have hhas := hemits.appends.has
  rw [size_emit, hemits.agrees.constants] at hhas
  exact hhas l hl

/-- The slots of a program hold packed lines, and a halt. -/
theorem fetch_compile_cases (hkept : o.eliminateDeadCode = false) {pc : Nat}
    (hpc : (pc : Int) < (x.compile o).count) :
    (∃ l ∈ Line.cut (x.extent o) (x.code o),
      (x.compile o).fetch pc = l.instruction (x.written o).constants) ∨
    (x.compile o).fetch pc = .halt := by
  have hlt : pc < (x.emitProgram o).code.toList.length := Int.ofNat_lt.1 hpc
  obtain ⟨i, hi⟩ : ∃ i, (x.emitProgram o).code.toList[pc]? = some i :=
    ⟨_, List.getElem?_eq_getElem hlt⟩
  rw [fetch_compile hkept hi]
  have hmem := List.mem_of_getElem? hi
  rw [toList_emitProgram, List.mem_append, List.mem_map] at hmem
  rcases hmem with ⟨l, hl, rfl⟩ | hhalt
  · exact .inl ⟨l, hl, rfl⟩
  · split at hhalt
    · exact .inr (List.mem_singleton.1 hhalt)
    · cases hhalt

theorem opcode?_halt : Instruction.halt.opcode? = some .halt := Draft.opcode?_instruction _

/-- A slot that is not cleared loads a variable that the tree names. -/
theorem mem_reads_of_load (hkept : o.eliminateDeadCode = false) {pc : Nat}
    (hpc : (pc : Int) < (x.compile o).count)
    (hop : ((x.compile o).fetch pc).opcode? = some .loadVar)
    (hstring : (x.compile o).strings[((x.compile o).fetch pc).index.toNat]? = some name) :
    name ∈ x.reads := by
  have hconst : (x.compile o).constants = (x.written o).constants := x.constants_emitProgram o
  have hbounded : (x.written o).constants.Bounded :=
    ((capped_emitter o).putAll (x.code o)).bounded
  rcases fetch_compile_cases hkept hpc with ⟨l, hl, hfetch⟩ | hfetch
  · rw [hfetch] at hop hstring
    obtain ⟨name', rfl⟩ := Line.eq_load_of_opcode? hop
    have hplaced : (Line.load name').Placed (x.written o).constants :=
      ⟨has_code hl, Nat.zero_lt_succ _⟩
    have hname : (x.compile o).strings[_]? = some name' :=
      congrArg Constants.strings hconst ▸ Line.getElem?_strings hbounded hplaced rfl
    rw [hname] at hstring
    cases hstring
    have hcode := (load_mem_lines _ _ _).1 (Line.load_mem_of_mem_cut hl)
    unfold target at hcode
    split at hcode
    · exact reads_fold x hcode
    · exact hcode
  · rw [hfetch, opcode?_halt] at hop
    cases hop

/-- A program loads only variables that its tree names. -/
theorem mem_variableNames_of_loads (h : (x.compile o).Loads name) : name ∈ x.variableNames := by
  obtain ⟨pc, hpc, hop, hstring⟩ := h
  rw [mem_variableNames]
  cases hclear : o.eliminateDeadCode with
  | false => exact mem_reads_of_load hclear hpc hop hstring
  | true =>
    rw [compile_eq_eliminate hclear] at hpc hop hstring
    -- A cleared slot loads nothing, and the others are as they were.
    have hfetch : ((x.compile { o with eliminateDeadCode := false }).eliminate
        (x.emitProgram o).code.size).fetch pc =
          (x.compile { o with eliminateDeadCode := false }).fetch pc := by
      refine Program.fetch_eliminate fun hcleared => ?_
      rw [Program.fetch_eliminate_cleared hcleared] at hop
      cases hop
    rw [hfetch] at hop hstring
    exact mem_reads_of_load (o := { o with eliminateDeadCode := false }) rfl hpc hop hstring

/-- Without folding, a program that did not fail loads all variables of its tree. -/
theorem loads_of_mem_variableNames (hplain : o.optimize = false)
    (hok : (x.compile o).failure = none) (hextent : x.extent o < 2147483648)
    (h : name ∈ x.variableNames) : (x.compile o).Loads name := by
  have hholds : (x.compile { o with eliminateDeadCode := false }).Holds
      (Line.cut (x.extent o) (x.code o)) := holds_compile hextent rfl
  rw [← compile_eq_kept hextent, cut_code hok] at hholds
  have hload : Line.load name ∈ x.code o := by
    have hlines := (load_mem_lines o.prefixes name x).2 (mem_variableNames.1 h)
    rwa [code, target, hplain, if_neg Bool.false_ne_true]
  obtain ⟨pc, hpc⟩ := List.mem_iff_getElem?.1 hload
  have hlt := (List.getElem?_eq_some_iff.1 hpc).1
  have hcount := hholds.le_count
  refine ⟨pc, by omega, ?_, ?_⟩
  · rw [hholds.fetch pc _ hpc]
    exact Draft.opcode?_instruction _
  · rw [hholds.fetch pc _ hpc]
    exact Line.getElem?_strings hholds.bounded (hholds.placed _ hload) rfl

/-! ## Runs -/

/-- The run of a compiled program depends only on the variables that its tree names: in
    two environments that agree on them it gives the same result, fault, calls and
    reports. The program loads no other variables, and without folding it loads them
    all. -/
theorem run_compile_of_agree (o : CompileOptions) (x : Expr) (env : Environment)
    (state' locals locals' : Entries Value) (hblind : env.builtins.Blind)
    (hagree : ∀ name ∈ x.variableNames,
      ({ locals := locals' } : Context).resolve { env with state := state' } name =
        ({ locals } : Context).resolve env name) :
    ((Context.run { locals := locals' } { env with state := state' } (x.compile o)).1 =
        (Context.run { locals } env (x.compile o)).1 ∧
      (Context.run { locals := locals' } { env with state := state' } (x.compile o)).2.fault =
        (Context.run { locals } env (x.compile o)).2.fault ∧
      (Context.run { locals := locals' } { env with state := state' } (x.compile o)).2.log =
        (Context.run { locals } env (x.compile o)).2.log) ∧
    (∀ name, (x.compile o).Loads name → name ∈ x.variableNames) ∧
    (o.optimize = false → (x.compile o).failure = none →
      (x.compile o).words.size < 4294967296 →
      ∀ name ∈ x.variableNames, (x.compile o).Loads name) := by
  have hloads : ∀ name, (x.compile o).Loads name → name ∈ x.variableNames :=
    fun name => mem_variableNames_of_loads
  refine ⟨?_, hloads, ?_⟩
  · have hsimilar : Environment.Similar (· ∈ x.variableNames) True env
        { env with state := state' } := ⟨rfl, hblind.sees _, fun _ => rfl⟩
    have hstart : ({ locals } : Context).Agree (· ∈ x.variableNames) True env
        { env with state := state' } { locals := locals' } :=
      ⟨rfl, rfl, hagree, fun _ => rfl⟩
    rcases Context.run_agree hsimilar hloads rfl rfl hstart (.inl rfl) with
      ⟨hvalue, hfault, hlog⟩ | ⟨hdiffer, -⟩
    · exact ⟨hvalue, hfault, hlog trivial⟩
    · exact absurd trivial hdiffer
  · intro hplain hok hsize name hname
    have hextent := extent_le_size (o := o) (x := x)
    exact loads_of_mem_variableNames hplain hok (by omega) hname

theorem blind_probes : probes.builtins.Blind := by
  intro name b h resolve resolve' depth args
  simp only [probes, Entries.get?] at h
  split at h
  · cases h
    rfl
  · split at h
    · cases h
      rfl
    · cases h

/-- The variable `n` may come from the locals or from the state. -/
theorem run_probing_of_state :
    probing.variableNames = [Text.ofString "n", Text.ofString "m"] ∧
    (Context.run {} { probes with state := [("z", .int 2), ("n", .int 1)] }
        (probing.compile {})).1 =
      (Context.run { locals := [("n", .int 1)] } probes (probing.compile {})).1 ∧
    (probing.compile {}).Loads "m" := by
  have hnames : probing.variableNames = [Text.ofString "n", Text.ofString "m"] := by decide
  have hagree : ∀ name ∈ probing.variableNames,
      ({} : Context).resolve { probes with state := [("z", .int 2), ("n", .int 1)] } name =
        ({ locals := [("n", .int 1)] } : Context).resolve probes name := by
    rw [hnames]
    intro name hname
    simp only [List.mem_cons, List.not_mem_nil, or_false] at hname
    rcases hname with rfl | rfl
    · rfl
    · rfl
  obtain ⟨⟨hvalue, -, -⟩, -, hloads⟩ := run_compile_of_agree {} probing probes
    [("z", .int 2), ("n", .int 1)] [("n", .int 1)] [] blind_probes hagree
  exact ⟨hnames, hvalue, hloads rfl (by decide) (by decide) "m" (by decide)⟩

end Expr

end Reckon
