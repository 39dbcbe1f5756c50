-- SUMMARY: The sweep for unreachable code ends, and it clears exactly the slots that control does not reach.
import Reckon.Proofs.Elimination
import Reckon.Proofs.Execution

/-!
# Sweeps

Control starts at slot zero and goes from a slot to the next one, unless the
instruction is a halt or an unconditional jump, and to the target of a jump. A
slot is reached if there is a way to it that stays among the slots. The code may
be any code, so ways may lead backward and in circles, and a jump may have its
target outside.

A sweep ends, because each of its rounds marks a slot or takes a pending one
away. It marks exactly the slots that are reached. Those keep their words, hence
a second sweep takes the same ways and clears nothing else.
-/

namespace Reckon

namespace Words

/-! ## Ways of control -/

/-- Control may go from slot `pc` to another. -/
inductive Leads (words : Words) (pc : Nat) : Nat → Prop where
  | next (hhalt : (words.decode pc).opcode? ≠ some .halt)
    (hjump : (words.decode pc).opcode? ≠ some .jump) : Leads words pc (pc + 1)
  | jump {s : Nat} (hjump : (words.decode pc).isJump = true)
    (hs : (s : Int) = pc + (words.decode pc).imm.toInt) : Leads words pc s

/-- There is a way from slot zero to the slot, and all slots on it are below `count`. -/
inductive Reaches (words : Words) (count : Nat) : Nat → Prop where
  | start (hlt : 0 < count) : Reaches words count 0
  | step {pc s : Nat} (hpc : Reaches words count pc) (hs : words.Leads pc s) (hlt : s < count) :
    Reaches words count s

variable {words : Words} {count pc s : Nat}

theorem mem_successors_iff :
    (s : Int) ∈ (words.decode pc).successors pc ↔ words.Leads pc s := by
  unfold Instruction.successors
  constructor
  · intro hs
    split at hs
    next => cases hs
    next hop => exact .jump (by simp [Instruction.isJump, hop]) (List.mem_singleton.1 hs)
    next hop =>
      rcases List.mem_cons.1 hs with hnext | htarget
      · obtain rfl : s = pc + 1 := Int.ofNat_inj.1 hnext
        exact .next (by simp [hop]) (by simp [hop])
      · exact .jump (by simp [Instruction.isJump, hop]) (List.mem_singleton.1 htarget)
    next hop =>
      rcases List.mem_cons.1 hs with hnext | htarget
      · obtain rfl : s = pc + 1 := Int.ofNat_inj.1 hnext
        exact .next (by simp [hop]) (by simp [hop])
      · exact .jump (by simp [Instruction.isJump, hop]) (List.mem_singleton.1 htarget)
    next hhalt hjump _ _ =>
      obtain rfl : s = pc + 1 := Int.ofNat_inj.1 (List.mem_singleton.1 hs)
      exact .next hhalt hjump
  · intro hs
    cases hs with
    | next hhalt hjump => split <;> simp_all
    | jump hjump hs => split <;> simp_all [Instruction.isJump]

/-! ## Rounds -/

/-- A sweep that has these marks and pending slots is over after a number of rounds, and
    leaves the marks that stand last. -/
inductive Sweeps (words : Words) : Array Bool → List Int → Nat → Array Bool → Prop where
  | over {marks : Array Bool} : Sweeps words marks [] 0 marks
  /-- The slot has no mark yet: it is given one, and its successors are pending. -/
  | look {marks marks' : Array Bool} {p : Int} {rest : List Int} {rounds : Nat}
    (hp : 0 ≤ p ∧ marks[p.toNat]? = some false)
    (hrest : Sweeps words (marks.setIfInBounds p.toNat true)
      ((words.decode p.toNat).successors p.toNat ++ rest) rounds marks') :
    Sweeps words marks (p :: rest) (rounds + 1) marks'
  /-- The slot has a mark, or there is no such slot. -/
  | pass {marks marks' : Array Bool} {p : Int} {rest : List Int} {rounds : Nat}
    (hp : ¬(0 ≤ p ∧ marks[p.toNat]? = some false))
    (hrest : Sweeps words marks rest rounds marks') :
    Sweeps words marks (p :: rest) (rounds + 1) marks'

/-- A sweep is over after at most two rounds for each slot without a mark and one for each
    pending slot. -/
theorem exists_sweeps (words : Words) (marks : Array Bool) (pending : List Int) :
    ∃ rounds ≤ 2 * marks.count false + pending.length,
      words.Sweeps marks pending rounds (words.mark marks pending) := by
  fun_induction mark words marks pending with
  | case1 marks => exact ⟨0, Nat.zero_le _, .over⟩
  | case2 marks p rest h ih =>
    obtain ⟨rounds, hle, hsweeps⟩ := ih
    have hcount := count_mark h.2
    have hsuccessors := (words.decode p.toNat).length_successors_le p.toNat
    rw [List.length_append] at hle
    exact ⟨rounds + 1, by rw [List.length_cons]; omega, .look h hsweeps⟩
  | case3 marks p rest h ih =>
    obtain ⟨rounds, hle, hsweeps⟩ := ih
    exact ⟨rounds + 1, by rw [List.length_cons]; omega, .pass h hsweeps⟩

/-! ## Marks -/

/-- What is marked and what is pending is reached, so what is marked in the end is. -/
theorem reaches_of_mark {marks : Array Bool} {pending : List Int} (hsize : marks.size = count)
    (hmarks : ∀ i, marks[i]? = some true → words.Reaches count i)
    (hpending : ∀ i : Nat, (i : Int) ∈ pending → i < count → words.Reaches count i)
    (hpc : (words.mark marks pending)[pc]? = some true) : words.Reaches count pc := by
  fun_induction mark words marks pending with
  | case1 marks => exact hmarks pc hpc
  | case2 marks p rest h ih =>
    obtain ⟨i, rfl⟩ := Int.eq_ofNat_of_zero_le h.1
    rw [Int.toNat_natCast] at h ih hpc
    have hlt : i < count := hsize ▸ (Array.getElem?_eq_some_iff.1 h.2).1
    have hreaches : words.Reaches count i := hpending i List.mem_cons_self hlt
    refine ih (by simpa using hsize) ?_ ?_ hpc
    · intro j hj
      by_cases hij : i = j
      · exact hij ▸ hreaches
      · rw [Array.getElem?_setIfInBounds_ne hij] at hj
        exact hmarks j hj
    · intro j hj hlt
      rcases List.mem_append.1 hj with hsuccessor | hrest
      · exact .step hreaches (mem_successors_iff.1 hsuccessor) hlt
      · exact hpending j (List.mem_cons_of_mem _ hrest) hlt
  | case3 marks p rest h ih =>
    exact ih hsize hmarks (fun i hi => hpending i (List.mem_cons_of_mem _ hi)) hpc

/-- The marks tell which slots are reached. -/
theorem reachable_iff : (words.reachable count)[pc]? = some true ↔ words.Reaches count pc := by
  constructor
  · intro hpc
    refine reaches_of_mark (Array.size_replicate) ?_ ?_ hpc
    · intro i hi
      have hfalse := (Array.getElem?_eq_some_iff.1 hi).2
      simp at hfalse
    · intro i hi hlt
      obtain rfl : i = 0 := Int.ofNat_inj.1 (List.mem_singleton.1 hi)
      exact .start hlt
  · intro h
    induction h with
    | start hlt => exact reachable_zero words hlt
    | step _ hs hlt ih => exact reachable_successor ih (mem_successors_iff.2 hs) hlt

instance : Decidable (words.Reaches count pc) := decidable_of_iff _ reachable_iff

theorem getElem_reachable (hlt : pc < (words.reachable count).size) :
    (words.reachable count)[pc] = decide (words.Reaches count pc) := by
  rw [Bool.eq_iff_iff, decide_eq_true_iff, ← reachable_iff, Array.getElem?_eq_getElem hlt,
    Option.some_inj]

theorem reachable_eq_some_false_iff :
    (words.reachable count)[pc]? = some false ↔ pc < count ∧ ¬ words.Reaches count pc := by
  constructor
  · intro hfalse
    obtain ⟨hlt, hget⟩ := Array.getElem?_eq_some_iff.1 hfalse
    rw [getElem_reachable] at hget
    exact ⟨size_reachable words count ▸ hlt, of_decide_eq_false hget⟩
  · rintro ⟨hlt, hnot⟩
    rw [← size_reachable words count] at hlt
    rw [Array.getElem?_eq_getElem hlt, getElem_reachable, decide_eq_false hnot]

/-- As many slots have no mark as are not reached. -/
theorem count_reachable (words : Words) (count : Nat) :
    (words.reachable count).count false =
      (List.range count).countP (¬ words.Reaches count ·) := by
  have hlist : (words.reachable count).toList =
      (List.range count).map fun pc => decide (words.Reaches count pc) := by
    refine List.ext_getElem (by simp) ?_
    intro pc hpc _
    simp [getElem_reachable]
  rw [← Array.count_toList, hlist, List.count, List.countP_map]
  refine List.countP_congr ?_
  intro pc _
  simp

/-! ## Clearing -/

/-- A word is cleared if its slot is not reached, and stays as it is otherwise. -/
theorem getElem?_eliminate (words : Words) (count i : Nat) :
    (words.eliminate count).1[i]? =
      if i / 2 < count ∧ ¬ words.Reaches count (i / 2) then words[i]?.map fun _ => 0
      else words[i]? := by
  simp only [eliminate, Array.getElem?_mapIdx, reachable_eq_some_false_iff]
  split
  next => rfl
  next => exact Option.map_id'

theorem Reaches.decode_eliminate (h : words.Reaches count pc) :
    (words.eliminate count).1.decode pc = words.decode pc := by
  apply Words.decode_eliminate
  intro hfalse
  exact (reachable_eq_some_false_iff.1 hfalse).2 h

/-- From a slot that is reached control goes on as before. -/
theorem Reaches.leads_eliminate (h : words.Reaches count pc) :
    (words.eliminate count).1.Leads pc s ↔ words.Leads pc s := by
  rw [← mem_successors_iff, ← mem_successors_iff, h.decode_eliminate]

theorem reaches_eliminate :
    (words.eliminate count).1.Reaches count pc ↔ words.Reaches count pc := by
  constructor
  · intro h
    induction h with
    | start hlt => exact .start hlt
    | step _ hs hlt ih => exact .step ih (ih.leads_eliminate.1 hs) hlt
  · intro h
    induction h with
    | start hlt => exact .start hlt
    | step hpc hs hlt ih => exact .step ih (hpc.leads_eliminate.2 hs) hlt

/-- A second sweep leaves the same marks. -/
theorem reachable_eliminate (words : Words) (count : Nat) :
    (words.eliminate count).1.reachable count = words.reachable count := by
  refine Array.ext (by simp) ?_
  intro pc _ _
  rw [getElem_reachable, getElem_reachable, decide_eq_decide]
  exact reaches_eliminate

theorem eliminate_eliminate (words : Words) (count : Nat) :
    (words.eliminate count).1.eliminate count = words.eliminate count := by
  have hmarks := congrArg (Array.count false) (reachable_eliminate words count)
  refine Prod.ext (Array.ext_getElem? ?_) hmarks
  intro i
  simp only [getElem?_eliminate, reaches_eliminate]
  split
  next => exact Option.map_map ..
  next => rfl

/-- Whatever the code is, the sweep for unreachable slots is over after at most two rounds
    for each slot and one more. A word becomes zero if its slot is below `count` and
    control does not reach it, and no other word changes. The number returned is that of
    the slots which are not reached. Sweeping again changes nothing and returns the same
    number. -/
theorem eliminate_exact (words : Words) (count : Nat) :
    (∃ rounds ≤ 2 * count + 1, words.Sweeps (Array.replicate count false) [0] rounds
      (words.reachable count)) ∧
    (∀ i : Nat, (words.eliminate count).1[i]? =
      if i / 2 < count ∧ ¬ words.Reaches count (i / 2) then words[i]?.map fun _ => 0
      else words[i]?) ∧
    (words.eliminate count).2 = (List.range count).countP (¬ words.Reaches count ·) ∧
    (words.eliminate count).1.eliminate count = words.eliminate count := by
  refine ⟨?_, getElem?_eliminate words count, count_reachable words count,
    eliminate_eliminate words count⟩
  obtain ⟨rounds, hle, hsweeps⟩ := words.exists_sweeps (Array.replicate count false) [0]
  refine ⟨rounds, ?_, hsweeps⟩
  simpa using hle

-- Two zero words are the instruction that does nothing.
example : (Instruction.ofWords 0 0).opcode? = some .nop := rfl

-- Control does not get past a jump onto itself, and slots without words are not reached either.
example : (assemble #[.ofInts 33 0 0 0, .ofInts 38 0 0 0]).eliminate 3 =
    (assemble #[.ofInts 33 0 0 0, .ofInts 0 0 0 0], 2) := by
  decide +kernel

end Words

end Reckon
