-- SUMMARY: Reachable instructions and the removal of the others.
import Reckon.Code.Instruction

/-!
# Reachable code

Control starts at slot zero. After an instruction it goes to the next slot, to
the target of a jump, to either of the two for a conditional jump, and nowhere
after a halt. Slots that control cannot reach are cleared to do nothing.
-/

namespace Reckon

/-- Where control may go from the instruction in slot `pc`. -/
def Instruction.successors (i : Instruction) (pc : Nat) : List Int :=
  match i.opcode? with
  | some .halt => []
  | some .jump => [pc + i.imm.toInt]
  | some .jumpIfFalse => [pc + 1, pc + i.imm.toInt]
  | some .jumpIfTrue => [pc + 1, pc + i.imm.toInt]
  | _ => [pc + 1]

theorem Instruction.length_successors_le (i : Instruction) (pc : Nat) :
    (i.successors pc).length ≤ 2 := by
  unfold Instruction.successors
  split <;> simp

namespace Words

theorem count_mark {marks : Array Bool} {i : Nat} (h : marks[i]? = some false) :
    (marks.setIfInBounds i true).count false + 1 = marks.count false := by
  obtain ⟨hi, hv⟩ := Array.getElem?_eq_some_iff.1 h
  have hpos : 0 < marks.count false := Array.count_pos_iff.2 (hv ▸ Array.getElem_mem hi)
  rw [Array.setIfInBounds, dif_pos hi, Array.count_set hi]
  simp [hv]
  omega

/-- Marks every slot that control reaches from a pending one. A slot is looked at
    when it is marked, so each is looked at once. -/
def mark (words : Words) (marks : Array Bool) (pending : List Int) : Array Bool :=
  match pending with
  | [] => marks
  | p :: rest =>
    if 0 ≤ p ∧ marks[p.toNat]? = some false then
      mark words (marks.setIfInBounds p.toNat true)
        ((words.decode p.toNat).successors p.toNat ++ rest)
    else mark words marks rest
termination_by 2 * marks.count false + pending.length
decreasing_by
  · rename_i h
    have := count_mark h.2
    have := (words.decode p.toNat).length_successors_le p.toNat
    simp only [List.length_append, List.length_cons]
    omega
  · simp

/-- For each of `count` slots, whether control reaches it from slot zero. -/
def reachable (words : Words) (count : Nat) : Array Bool :=
  words.mark (Array.replicate count false) [0]

/-- Clears the slots below `count` that control does not reach, and tells how many
    they are. -/
def eliminate (words : Words) (count : Nat) : Words × Nat :=
  let marks := words.reachable count
  (words.mapIdx fun i w => if marks[i / 2]? = some false then 0 else w, marks.count false)

end Words

end Reckon
