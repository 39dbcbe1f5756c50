-- SUMMARY: Every instruction of a compiled program can be reached, so clearing unreachable ones changes nothing.
import Reckon.Proofs.Compilation
import Reckon.Proofs.Sweeping

/-!
# Compiled code is reachable

Control enters the lines of a tree at the first and can go from each line to the
next, except from the jump behind a consequent; the line behind that jump begins
the alternate, which the conditional jump leads to. So control reaches every
line of a tree, also if the lines are cut off, and every slot of its program.
-/

namespace Reckon

/-! ## Control through lines -/

namespace Line

/-- How many lines control may pass over behind the line. -/
def skips : Line → List Nat
  | .jumpIfFalse skip => [0, skip]
  | .jump skip => [skip]
  | _ => [0]

/-- A set of positions holds with a line what control may go to from it. -/
def Follows (ls : List Line) (r : Nat → Prop) : Prop :=
  ∀ j l, ls[j]? = some l → r j → ∀ s ∈ l.skips, r (j + 1 + s)

/-- From the first line control reaches all the others and the end. -/
def Reached (ls : List Line) : Prop :=
  ∀ r : Nat → Prop, r 0 → Follows ls r → ∀ j ≤ ls.length, r j

theorem Follows.left (ls : List Line) {ls' : List Line} {r : Nat → Prop}
    (h : Follows (ls ++ ls') r) : Follows ls r := by
  intro j l hl
  refine h j l ?_
  rw [List.getElem?_append_left (List.getElem?_eq_some_iff.1 hl).1, hl]

theorem Follows.right (ls : List Line) {ls' : List Line} {r : Nat → Prop}
    (h : Follows (ls ++ ls') r) : Follows ls' fun j => r (ls.length + j) := by
  intro j l hl hj s hs
  have hline : (ls ++ ls')[ls.length + j]? = some l := by
    rw [List.getElem?_append_right (Nat.le_add_right _ _), Nat.add_sub_cancel_left, hl]
  have hnext := h (ls.length + j) l hline hj s hs
  rwa [Nat.add_assoc, Nat.add_assoc, ← Nat.add_assoc j] at hnext

theorem reached_nil : Reached [] := by
  intro r hr _ j hj
  rwa [Nat.le_zero.1 hj]

theorem Reached.append {ls ls' : List Line} (h : Reached ls) (h' : Reached ls') :
    Reached (ls ++ ls') := by
  intro r hr hfollows j hj
  have hleft := h r hr (hfollows.left ls)
  by_cases hle : j ≤ ls.length
  · exact hleft j hle
  · rw [List.length_append] at hj
    have hright := h' (fun j => r (ls.length + j)) (hleft _ (Nat.le_refl _))
      (hfollows.right ls) (j - ls.length) (by omega)
    rwa [Nat.add_sub_of_le (by omega)] at hright

theorem Reached.cons {l : Line} {ls : List Line} (hl : 0 ∈ l.skips) (h : Reached ls) :
    Reached (l :: ls) := by
  have hsingle : Reached [l] := by
    intro r hr hfollows j hj
    have hnext := hfollows 0 l rfl hr 0 hl
    match j, hj with
    | 0, _ => exact hr
    | 1, _ => exact hnext
  exact hsingle.append h

/-- Both arms of a conditional are reached, the alternate over the jump at its test. -/
theorem Reached.cond {test consequent alternate : List Line} (htest : Reached test)
    (hconsequent : Reached consequent) (halternate : Reached alternate) :
    Reached (test ++ .jumpIfFalse (consequent.length + 1) ::
      (consequent ++ .jump alternate.length :: alternate)) := by
  refine htest.append ?_
  intro r hr hfollows
  have hbranch := hfollows 0 _ rfl hr
  have hrest : Follows (consequent ++ .jump alternate.length :: alternate) fun j => r (1 + j) :=
    Follows.right [.jumpIfFalse (consequent.length + 1)] hfollows
  have hfirst := hconsequent _ (hbranch 0 List.mem_cons_self) (hrest.left consequent)
  have hsecond : ∀ j ≤ alternate.length, r (1 + (consequent.length + (1 + j))) := by
    have hfollows' : Follows alternate fun j => r (1 + (consequent.length + (1 + j))) :=
      Follows.right [.jump alternate.length] (hrest.right consequent)
    refine halternate _ ?_ hfollows'
    have hstart := hbranch (consequent.length + 1) (by simp [skips])
    rwa [show 0 + 1 + (consequent.length + 1) = 1 + (consequent.length + (1 + 0)) by omega]
      at hstart
  intro j hj
  simp only [List.length_cons, List.length_append] at hj
  rcases Nat.lt_or_ge j 1 with hzero | hpos
  · rwa [Nat.lt_one_iff.1 hzero]
  · by_cases hle : j ≤ 1 + consequent.length
    · have hj' := hfirst (j - 1) (by omega)
      rwa [Nat.add_sub_of_le hpos] at hj'
    · have hj' := hsecond (j - 2 - consequent.length) (by omega)
      rwa [show 1 + (consequent.length + (1 + (j - 2 - consequent.length))) = j by omega] at hj'

theorem getElem?_cut {k j : Nat} {ls : List Line} {l : Line} (hj : j < k) (hl : ls[j]? = some l) :
    (cut k ls)[j]? = some (l.clip (k - (j + 1))) := by
  fun_induction cut k ls generalizing j with
  | case1 => cases hj
  | case2 => cases hl
  | case3 k l' ls ih =>
    cases j with
    | zero =>
      cases hl
      rfl
    | succ j =>
      rw [Nat.succ_eq_add_one, Nat.add_sub_add_right]
      exact ih (Nat.lt_of_succ_lt_succ hj) hl

theorem min_mem_skips_clip {l : Line} {s : Nat} (hs : s ∈ l.skips) (most : Nat) :
    min s most ∈ (l.clip most).skips := by
  cases l with
  | jumpIfFalse skip =>
    simp only [skips, clip, List.mem_cons, List.not_mem_nil, or_false] at hs ⊢
    exact hs.imp (by rintro rfl; exact Nat.zero_min most) (by rintro rfl; rfl)
  | jump skip =>
    rw [List.mem_singleton.1 hs]
    exact List.mem_cons_self
  | _ =>
    rw [List.mem_singleton.1 hs, Nat.zero_min]
    exact List.mem_cons_self

/-- Lines that are cut off are still reached. -/
theorem Reached.cut {ls : List Line} (h : Reached ls) (k : Nat) : Reached (Line.cut k ls) := by
  intro r hr hfollows j hj
  rw [length_cut] at hj
  -- All positions from the cut on count as the end.
  have hmin := h (fun j => r (min j k)) (by rwa [Nat.zero_min]) ?_ j (by omega)
  · rwa [Nat.min_eq_left (by omega)] at hmin
  · intro i l hl hi s hs
    by_cases hik : i < k
    · rw [Nat.min_eq_left (Nat.le_of_lt hik)] at hi
      have hnext := hfollows i _ (getElem?_cut hik hl) hi _ (min_mem_skips_clip hs _)
      rwa [show i + 1 + min s (k - (i + 1)) = min (i + 1 + s) k by omega] at hnext
    · rwa [show min i k = min (i + 1 + s) k by omega] at hi

end Line

namespace Expr

open Line (Reached)

variable (prefixes : List Text)

mutual

/-- Control reaches all lines of a tree. -/
theorem reached_lines (x : Expr) : Reached (x.lines prefixes) := by
  cases x with
  | lit l => exact .cons List.mem_cons_self Line.reached_nil
  | var name => exact .cons List.mem_cons_self Line.reached_nil
  | field owner name =>
    exact .cons List.mem_cons_self (.cons List.mem_cons_self Line.reached_nil)
  | member target property =>
    exact (reached_lines target).append (.cons List.mem_cons_self Line.reached_nil)
  | computed target key =>
    exact (reached_lines target).append
      ((reached_lines key).append (.cons List.mem_cons_self Line.reached_nil))
  | index target position =>
    exact (reached_lines target).append
      ((reached_lines position).append (.cons List.mem_cons_self Line.reached_nil))
  | binary op left right =>
    exact (reached_lines left).append
      ((reached_lines right).append (.cons List.mem_cons_self Line.reached_nil))
  | unary op operand =>
    exact (reached_lines operand).append (.cons List.mem_cons_self Line.reached_nil)
  | cond test consequent alternate =>
    exact .cond (reached_lines test) (reached_lines consequent) (reached_lines alternate)
  | call callee args =>
    have hcall : 0 ∈ (Line.call prefixes callee args.length).skips := by
      unfold Line.call
      split <;> exact List.mem_cons_self
    exact (reached_linesArgs args).append (.cons hcall Line.reached_nil)
  | method receiver name args =>
    exact (reached_lines receiver).append
      ((reached_linesArgs args).append (.cons List.mem_cons_self Line.reached_nil))
  | group inner => exact reached_lines inner
  | array elements =>
    exact (reached_linesAll elements).append (.cons List.mem_cons_self Line.reached_nil)
  | object properties =>
    exact (reached_linesProperties properties).append (.cons List.mem_cons_self Line.reached_nil)
  | unknown kind => exact .cons List.mem_cons_self Line.reached_nil

theorem reached_linesArgs (xs : List Expr) : Reached (linesArgs prefixes xs) := by
  cases xs with
  | nil => exact Line.reached_nil
  | cons x xs => exact (reached_linesArgs xs).append (reached_lines x)

theorem reached_linesAll (xs : List Expr) : Reached (linesAll prefixes xs) := by
  cases xs with
  | nil => exact Line.reached_nil
  | cons x xs => exact (reached_lines x).append (reached_linesAll xs)

theorem reached_linesProperties (xs : List (Text × Expr)) :
    Reached (linesProperties prefixes xs) := by
  cases xs with
  | nil => exact Line.reached_nil
  | cons p xs =>
    exact .cons List.mem_cons_self ((reached_lines p.2).append (reached_linesProperties xs))

end

end Expr

/-! ## Programs -/

/-- The successors of a packed line are where control may go from it. -/
theorem Line.mem_successors {k : Constants} {l : Line} (hl : l.Placed k) (pc : Nat) {s : Nat}
    (hs : s ∈ l.skips) : ((pc + 1 + s : Nat) : Int) ∈ (l.instruction k).successors pc := by
  have hop : (l.instruction k).opcode? = some _ := Draft.opcode?_instruction _
  have himm := toInt_imm_instruction hl
  unfold Instruction.successors
  cases l with
  | jumpIfFalse skip =>
    rw [hop]
    simp only [draft, himm rfl, operand]
    simp only [skips, List.mem_cons, List.not_mem_nil, or_false] at hs ⊢
    omega
  | jump skip =>
    rw [hop]
    simp only [draft, himm rfl, operand]
    simp only [skips, List.mem_cons, List.not_mem_nil, or_false] at hs ⊢
    omega
  | push lit =>
    cases List.mem_singleton.1 hs
    cases lit with
    | int n => rw [opcode?_pushInt]; exact List.mem_cons_self
    | _ => rw [hop]; exact List.mem_cons_self
  | _ =>
    cases List.mem_singleton.1 hs
    rw [hop]
    exact List.mem_cons_self

/-- Control reaches every slot of a program that holds lines which it reaches. -/
theorem Program.Holds.reachable {p : Program} {ls : List Line} (h : p.Holds ls)
    (hls : Line.Reached ls) {count pc : Nat} (hcount : p.count = count) (hpc : pc < count) :
    (p.words.reachable count)[pc]? = some true := by
  have hle := h.count_le
  have hall := hls (fun pc => pc < count → (p.words.reachable count)[pc]? = some true)
    (Words.reachable_zero p.words) ?_ pc (by omega)
  · exact hall hpc
  · intro j l hl hj s hs hlt
    refine Words.reachable_successor (hj (by omega)) ?_ hlt
    have hmem := Line.mem_successors (h.placed l (List.mem_of_getElem? hl)) j hs
    rwa [← h.fetch j l hl, p.fetch_eq_decode] at hmem

theorem Words.eliminate_of_reachable {words : Words} {count : Nat}
    (h : ∀ pc < count, (words.reachable count)[pc]? = some true) :
    words.eliminate count = (words, 0) := by
  have hnone : ∀ pc : Nat, (words.reachable count)[pc]? ≠ some false := by
    intro pc hfalse
    have hlt := (Array.getElem?_eq_some_iff.1 hfalse).1
    rw [size_reachable] at hlt
    rw [h pc hlt] at hfalse
    cases hfalse
  simp only [eliminate, if_neg (hnone _)]
  refine Prod.ext ?_ (Array.count_eq_zero.2 ?_)
  · exact Array.ext_getElem? (by simp)
  · intro hmem
    obtain ⟨pc, hpc, hfalse⟩ := Array.mem_iff_getElem.1 hmem
    exact hnone pc (by rw [Array.getElem?_eq_getElem hpc, hfalse])

namespace Expr

variable {o : CompileOptions} {x : Expr}

/-- No slot of a compiled program is cleared. -/
theorem compile_eq_kept (h : x.extent o < 2147483648) :
    x.compile o = x.compile { o with eliminateDeadCode := false } := by
  cases hclear : o.eliminateDeadCode with
  | false => rw [← hclear]
  | true =>
    have hholds : (x.compile { o with eliminateDeadCode := false }).Holds
        (Line.cut (x.extent o) (x.code o)) := holds_compile h rfl
    have hreached := (reached_lines o.prefixes (x.target o)).cut (x.extent o)
    have hkept : (x.compile { o with eliminateDeadCode := false }).words.eliminate
        (x.emitProgram o).code.size = _ :=
      Words.eliminate_of_reachable fun pc hpc => hholds.reachable hreached rfl hpc
    rw [compile_eq_eliminate hclear, Program.eliminate, hkept]
    rfl

/-- A program holds its lines, whether or not unreachable slots are to be cleared. -/
theorem holds_code (h : x.extent o < 2147483648) :
    (x.compile o).Holds (Line.cut (x.extent o) (x.code o)) := by
  rw [compile_eq_kept h]
  exact holds_compile h rfl

/-- Control reaches every instruction of a compiled program, also of one that was cut off
    at a limit. So nothing is cleared, and the option to clear what is unreachable makes no
    difference. Arrays, hence programs, have fewer than `2 ^ 32` words. -/
theorem compile_reaches_all (o : CompileOptions) (x : Expr)
    (hsize : (x.compile o).words.size < 4294967296) :
    (∀ pc : Nat, (pc : Int) < (x.compile o).count →
      (x.compile o).words.Reaches (x.compile o).count.toNat pc) ∧
    (x.compile o).eliminated = 0 ∧
    x.compile { o with eliminateDeadCode := true } =
      x.compile { o with eliminateDeadCode := false } := by
  have hextent := extent_lt_of_size hsize
  have hreached := (reached_lines o.prefixes (x.target o)).cut (x.extent o)
  refine ⟨?_, ?_, ?_⟩
  · intro pc hpc
    exact Words.reachable_iff.1 ((holds_code hextent).reachable hreached rfl (Int.ofNat_lt.1 hpc))
  · rw [compile_eq_kept hextent]
    rfl
  · exact compile_eq_kept (o := { o with eliminateDeadCode := true }) hextent

/-- `a ? (b ? c : d) : e` -/
def nested : Expr := .cond (.var "a") (.cond (.var "b") (.var "c") (.var "d")) (.var "e")

/-- The limit falls behind the jump over `d`, so that all that is left of the alternates is
    the halt. -/
theorem nested_reaches_all :
    (nested.compile { maxInstructions := 7, eliminateDeadCode := true }).failure =
      some (.compile (.instructionLimit 7)) ∧
    (nested.compile { maxInstructions := 7, eliminateDeadCode := true }).words.Reaches 7 6 ∧
    (nested.compile { maxInstructions := 7, eliminateDeadCode := true }).eliminated = 0 := by
  obtain ⟨hreaches, hnone, -⟩ := compile_reaches_all
    { maxInstructions := 7, eliminateDeadCode := true } nested (by decide)
  have hcount : (nested.compile { maxInstructions := 7, eliminateDeadCode := true }).count = 7 := by
    decide
  have hlast := hreaches 6 (by rw [hcount]; decide)
  rw [hcount] at hlast
  exact ⟨by decide, hlast, hnone⟩

end Expr

end Reckon
