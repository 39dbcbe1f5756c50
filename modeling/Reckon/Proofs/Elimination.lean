-- SUMMARY: Clearing the slots that control cannot reach leaves every run of a program as it is.
import Reckon.Code.Reach
import Reckon.Machine

/-!
# Elimination of unreachable code

The sweep marks slot zero and, with a slot, all successors of it that lie among
the slots. A run starts at slot zero and goes from a slot only to one of its
successors, so it never enters a slot that was cleared. The code may be any
code: with unknown opcodes, with jumps backward, onto themselves or out of the
program.
-/

namespace Reckon

/-! ## Marks -/

namespace Words

/-- The successors of a marked slot that lie among the slots are marked or
    pending. -/
def Closed (words : Words) (marks : Array Bool) (pending : List Int) : Prop :=
  ∀ pc, marks[pc]? = some true → ∀ s ∈ (words.decode pc).successors pc,
    0 ≤ s → s.toNat < marks.size → marks[s.toNat]? = some true ∨ s ∈ pending

@[simp] theorem size_mark (words : Words) (marks : Array Bool) (pending : List Int) :
    (words.mark marks pending).size = marks.size := by
  fun_induction mark words marks pending with
  | case1 => rfl
  | case2 marks p rest h ih => simpa using ih
  | case3 marks p rest h ih => exact ih

theorem mark_of_marked (words : Words) (marks : Array Bool) (pending : List Int) {i : Nat}
    (hi : marks[i]? = some true) : (words.mark marks pending)[i]? = some true := by
  fun_induction mark words marks pending with
  | case1 => exact hi
  | case2 marks p rest h ih =>
    apply ih
    rw [Array.getElem?_setIfInBounds]
    split
    · rename_i hp
      have hsize : i < marks.size := (Array.getElem?_eq_some_iff.1 hi).1
      simp [hp, hsize]
    · exact hi
  | case3 marks p rest h ih => exact ih hi

/-- Every pending slot is marked in the end. -/
theorem mark_of_pending (words : Words) (marks : Array Bool) (pending : List Int) {s : Int}
    (hs : s ∈ pending) (hnonneg : 0 ≤ s) (hlt : s.toNat < marks.size) :
    (words.mark marks pending)[s.toNat]? = some true := by
  fun_induction mark words marks pending with
  | case1 => cases hs
  | case2 marks p rest h ih =>
    rcases List.mem_cons.1 hs with rfl | hs
    · apply mark_of_marked
      simp [hlt]
    · exact ih (List.mem_append_right _ hs) (by simpa using hlt)
  | case3 marks p rest h ih =>
    rcases List.mem_cons.1 hs with rfl | hs
    · -- The slot is not unmarked, so it is marked already.
      apply mark_of_marked
      have hnot : marks[s.toNat]? ≠ some false := fun hf => h ⟨hnonneg, hf⟩
      rw [Array.getElem?_eq_getElem hlt] at hnot ⊢
      simpa using hnot
    · exact ih hs hlt

theorem closed_setIfInBounds {words : Words} {marks : Array Bool} {p : Int} {rest : List Int}
    (hc : Closed words marks (p :: rest)) :
    Closed words (marks.setIfInBounds p.toNat true)
      ((words.decode p.toNat).successors p.toNat ++ rest) := by
  intro pc hpc s hs hnonneg hlt
  rw [Array.size_setIfInBounds] at hlt
  rw [Array.getElem?_setIfInBounds] at hpc ⊢
  by_cases hp : p.toNat = pc
  · subst hp
    exact .inr (List.mem_append_left _ hs)
  · rw [if_neg hp] at hpc
    by_cases hps : p.toNat = s.toNat
    · simp [hps, hlt]
    · rw [if_neg hps]
      rcases hc pc hpc s hs hnonneg hlt with hm | hm
      · exact .inl hm
      · rcases List.mem_cons.1 hm with rfl | hm
        · exact absurd rfl hps
        · exact .inr (List.mem_append_right _ hm)

theorem closed_mark {words : Words} {marks : Array Bool} {pending : List Int}
    (hc : Closed words marks pending) : Closed words (words.mark marks pending) [] := by
  fun_induction mark words marks pending with
  | case1 => exact hc
  | case2 marks p rest h ih => exact ih (closed_setIfInBounds hc)
  | case3 marks p rest h ih =>
    apply ih
    intro pc hpc s hs hnonneg hlt
    rcases hc pc hpc s hs hnonneg hlt with hm | hm
    · exact .inl hm
    · rcases List.mem_cons.1 hm with rfl | hm
      · have hnot : marks[s.toNat]? ≠ some false := fun hf => h ⟨hnonneg, hf⟩
        rw [Array.getElem?_eq_getElem hlt] at hnot ⊢
        exact .inl (by simpa using hnot)
      · exact .inr hm

@[simp] theorem size_reachable (words : Words) (count : Nat) :
    (words.reachable count).size = count := by
  simp [reachable]

theorem reachable_zero (words : Words) {count : Nat} (h : 0 < count) :
    (words.reachable count)[0]? = some true :=
  mark_of_pending words _ [0] (List.mem_singleton.2 rfl) (Int.le_refl 0) (by simpa using h)

theorem reachable_successor {words : Words} {count pc : Nat} {s : Nat}
    (hpc : (words.reachable count)[pc]? = some true)
    (hs : (s : Int) ∈ (words.decode pc).successors pc) (hlt : s < count) :
    (words.reachable count)[s]? = some true := by
  have hc : Closed words (words.reachable count) [] := by
    apply closed_mark
    intro pc hpc
    have := (Array.getElem?_eq_some_iff.1 hpc).2
    simp at this
  rcases hc pc hpc s hs (Int.natCast_nonneg s) (by simpa using hlt) with hm | hm
  · simpa using hm
  · cases hm

/-- Clearing leaves a slot alone unless it is one of the unmarked ones. -/
theorem decode_eliminate {words : Words} {count pc : Nat}
    (h : (words.reachable count)[pc]? ≠ some false) :
    (words.eliminate count).1.decode pc = words.decode pc := by
  have hhead : 2 * pc / 2 = pc := by omega
  have himm : (2 * pc + 1) / 2 = pc := by omega
  simp only [eliminate, decode, Array.getElem?_mapIdx, hhead, himm, if_neg h, Option.map_id']

theorem decode_eliminate_cleared {words : Words} {count pc : Nat}
    (h : (words.reachable count)[pc]? = some false) :
    (words.eliminate count).1.decode pc = .ofWords 0 0 := by
  have hhead : 2 * pc / 2 = pc := by omega
  have himm : (2 * pc + 1) / 2 = pc := by omega
  have hzero : ∀ w? : Option Int32, (w?.map fun _ => (0 : Int32)).getD 0 = 0 := by
    intro w?
    cases w? <;> rfl
  simp only [eliminate, decode, Array.getElem?_mapIdx, hhead, himm, if_pos h, hzero]

end Words

/-! ## Runs -/

/-- The program with its unreachable slots below `count` cleared. -/
def Program.eliminate (p : Program) (count : Nat) : Program :=
  { p with words := (p.words.eliminate count).1, eliminated := (p.words.eliminate count).2 }

@[simp] theorem Program.count_eliminate (p : Program) (count : Nat) :
    (p.eliminate count).count = p.count := rfl

theorem Program.fetch_eliminate {p : Program} {count pc : Nat}
    (h : (p.words.reachable count)[pc]? ≠ some false) : (p.eliminate count).fetch pc = p.fetch pc := by
  rw [fetch_eq_decode, fetch_eq_decode]
  exact Words.decode_eliminate h

theorem Program.fetch_eliminate_cleared {p : Program} {count pc : Nat}
    (h : (p.words.reachable count)[pc]? = some false) :
    (p.eliminate count).fetch pc = .ofWords 0 0 := by
  rw [fetch_eq_decode]
  exact Words.decode_eliminate_cleared h

namespace Machine

theorem callBuiltin_next {env : Environment} {c c' : Context} {name : Text} {args : List Value}
    {skip : Nat} (h : callBuiltin env c name args = .next skip c') : skip = 0 := by
  cases h ▸ calls_callBuiltin env c name args <;> rfl

theorem jump_next {pc : Nat} {offset : Int} {c c' : Context} {taken : Context → Bool × Context}
    {skip : Nat} (h : jump pc offset c taken = .next skip c') :
    ((pc + 1 + skip : Nat) : Int) = pc + offset ∨
      (taken c).1 = false ∧ ((pc + 1 + skip : Nat) : Int) = pc + 1 := by
  unfold jump at h
  split at h
  · cases h
  · rename_i hpos
    cases h
    split
    · exact .inl (by omega)
    · rename_i hgo
      exact .inr ⟨Bool.eq_false_iff.2 hgo, by omega⟩

/-- Control goes only to a successor of the instruction. -/
theorem exec_next {env : Environment} {p : Program} {pc : Nat} {i : Instruction}
    {c c' : Context} {skip : Nat} (h : exec env p pc i c = .next skip c') :
    ((pc + 1 + skip : Nat) : Int) ∈ i.successors pc := by
  unfold exec at h
  unfold Instruction.successors
  cases hop : i.opcode? with
  | none => rw [hop] at h; cases h; simp
  | some op =>
    rw [hop] at h
    cases op with
    | halt => cases h
    | jump =>
      rcases jump_next h with hnext | ⟨hgo, _⟩
      · simp [hnext]
      · cases hgo
    | jumpIfFalse => rcases jump_next h with hnext | ⟨_, hnext⟩ <;> simp [hnext]
    | jumpIfTrue => rcases jump_next h with hnext | ⟨_, hnext⟩ <;> simp [hnext]
    | dup =>
      dsimp only at h
      split at h <;> cases h <;> simp
    | swap =>
      dsimp only at h
      split at h <;> cases h <;> simp
    | callBuiltin =>
      dsimp only at h
      split at h
      · rw [callBuiltin_next h]; simp
      · cases h; simp
    | _ => cases h; simp

/-- An instruction in a slot that was not cleared is fetched and does as before. -/
theorem exec_eliminate (env : Environment) {p : Program} {count pc : Nat} (c : Context)
    (hpc : pc < count → (p.words.reachable count)[pc]? = some true) :
    exec env (p.eliminate count) pc ((p.eliminate count).fetch pc) c =
      exec env p pc (p.fetch pc) c := by
  have hkept : (p.words.reachable count)[pc]? ≠ some false := by
    intro hcleared
    have hlt := (Array.getElem?_eq_some_iff.1 hcleared).1
    rw [Words.size_reachable] at hlt
    rw [hpc hlt] at hcleared
    cases hcleared
  rw [Program.fetch_eliminate hkept]
  rfl

/-- A run from a slot that is reachable, or not below `count`, runs the same after
    the unreachable slots below `count` were cleared. -/
theorem runFrom_eliminate (env : Environment) (p : Program) (count pc : Nat) (c : Context)
    (hpc : pc < count → (p.words.reachable count)[pc]? = some true) :
    runFrom env (p.eliminate count) pc c = runFrom env p pc c := by
  fun_induction runFrom env p pc c with
  | case1 pc c hlt skip c' hexec ih =>
    -- Control moves forward, so the next slot is a successor below `count` or lies beyond.
    have hnext : pc + 1 + skip < count →
        (p.words.reachable count)[pc + 1 + skip]? = some true := by
      intro hbelow
      have hsuccessor := exec_next hexec
      rw [p.fetch_eq_decode] at hsuccessor
      exact Words.reachable_successor (hpc (by omega)) hsuccessor hbelow
    rw [runFrom, Program.count_eliminate, if_pos hlt, exec_eliminate env c hpc, hexec]
    exact ih hnext
  | case2 pc c hlt c' hexec =>
    rw [runFrom, Program.count_eliminate, if_pos hlt, exec_eliminate env c hpc, hexec]
  | case3 pc c hlt m c' hexec =>
    rw [runFrom, Program.count_eliminate, if_pos hlt, exec_eliminate env c hpc, hexec]
  | case4 pc c hge => rw [runFrom, Program.count_eliminate, if_neg hge]

end Machine

/-- Clearing unreachable slots does not change a run: not its value, nor its fault,
    nor what a handler throws, nor the calls and reports in its log. -/
theorem Context.run_eliminate (c : Context) (env : Environment) (p : Program) (count : Nat) :
    c.run env (p.eliminate count) = c.run env p := by
  unfold Context.run
  rw [Machine.runFrom_eliminate env p count 0 _ (Words.reachable_zero p.words)]

end Reckon
