-- SUMMARY: A program compiled within tighter limits is the one compiled within wider limits, cut off at a slot.
import Reckon.Proofs.Limits
import Reckon.Proofs.Reachability
import Reckon.Proofs.Safety

/-!
# Tighter limits

Suppose that a tree compiles within some limits, and compare the program with
the one that tighter limits give. As long as no limit is met, both are written
alike. From there on nothing is appended to the second program but a halt, and
the jumps that were to go further go to the halt. The pools still collect, so
they end up with the first constants of the wider ones, up to their own limit.
-/

namespace Reckon

/-- The options with other limits. -/
def CompileOptions.limited (o : CompileOptions) (maxInstructions maxPoolEntries : Int) :
    CompileOptions :=
  { o with maxInstructions, maxPoolEntries }

/-! ## Programs that are cut off -/

/-- The slot that the jump in slot `pc` goes to. -/
def Instruction.target (i : Instruction) (pc : Nat) : Int := pc + i.imm.toInt

/-- What becomes of the instruction in slot `pc` when its program is cut off at slot `c`: a
    jump beyond that slot goes there, and all else stays as it is. -/
def Instruction.CutAt (c pc : Nat) (i i' : Instruction) : Prop :=
  if i.isJump = true ∧ (c : Int) < i.target pc then
    i' = { i with imm := i'.imm } ∧ i'.target pc = c
  else i' = i

/-- The second program is the first one, cut off at slot `c` and closed with a halt. -/
structure Program.CutAt (c : Nat) (p p' : Program) : Prop where
  count : p'.count = c + 1
  count_le : p'.count ≤ p.count
  fetch : ∀ pc < c, (p.fetch pc).CutAt c pc (p'.fetch pc)
  halt : ∀ pc ≤ c, (p'.fetch pc).opcode? = some .halt ↔ pc = c
  forward : ∀ pc ≤ c, (p'.fetch pc).isJump = true →
    (pc : Int) < (p'.fetch pc).target pc ∧ (p'.fetch pc).target pc ≤ c

/-! ## Pools with tighter limits -/

namespace Pool

variable {α : Type}

/-- The pool holds the first constants of another one, as far as its own limit goes. -/
structure Heads (p q : Pool α) : Prop where
  nonneg : 0 ≤ p.limit
  limit_le : p.limit ≤ q.limit
  entries : p.entries = q.entries.take p.limit.toNat

theorem Heads.of_room {p q : Pool α} (h : p.Heads q) (hroom : p.entries.length < p.limit) :
    p.entries = q.entries ∧ q.entries.length < p.limit := by
  have hentries := h.entries
  have hlength := congrArg List.length hentries
  rw [List.length_take] at hlength
  have hlt : q.entries.length < p.limit := by omega
  rw [List.take_of_length_le (by omega)] at hentries
  exact ⟨hentries, hlt⟩

/-- A limit beyond what the other pool can hold makes no difference. -/
theorem Heads.entries_eq_take {p q : Pool α} (h : p.Heads q) {limit : Int} {n : Nat}
    (hlimit : p.limit = min limit n) (hlength : q.entries.length ≤ n) :
    p.entries = q.entries.take limit.toNat := by
  rw [h.entries, hlimit, List.take_eq_take_iff]
  omega

variable [DecidableEq α]

theorem Heads.add {p q : Pool α} (h : p.Heads q) (a : α) : (p.add a).2.Heads (q.add a).2 := by
  have hlimit_le := h.limit_le
  refine ⟨(p.limit_add a).symm ▸ h.nonneg, by rw [limit_add, limit_add]; exact hlimit_le, ?_⟩
  rw [limit_add]
  rcases p.snd_add_cases a with ⟨hp, hkept⟩ | ⟨hp, hnot, hroom⟩
  · rw [hp]
    rcases q.snd_add_cases a with ⟨hq, -⟩ | ⟨hq, hnot, -⟩
    · rw [hq]
      exact h.entries
    · -- The constant is new to both, so the first pool is full.
      have hfull : p.limit ≤ p.entries.length := by
        refine hkept.resolve_left fun hmem => hnot ?_
        rw [h.entries] at hmem
        exact List.mem_of_mem_take hmem
      have hlength := congrArg List.length h.entries
      rw [List.length_take] at hlength
      rw [hq, List.take_append_of_le_length (by omega)]
      exact h.entries
  · obtain ⟨hentries, hlt⟩ := h.of_room hroom
    rw [hp]
    rcases q.snd_add_cases a with ⟨-, hmem | hfull⟩ | ⟨hq, -, -⟩
    · exact absurd (hentries ▸ hmem) hnot
    · omega
    · rw [hq, List.take_of_length_le, hentries]
      rw [List.length_append, List.length_singleton]
      omega

theorem Heads.addAll {p q : Pool α} (h : p.Heads q) (as : List α) :
    (p.addAll as).Heads (q.addAll as) := by
  induction as generalizing p q with
  | nil => exact h
  | cons a as ih => exact ih (h.add a)

end Pool

/-! ## Where lines are cut off -/

namespace Emitter

/-- Lines are written without an error, or up to the first line that has no slot or whose
    constant is not stored. -/
theorem putAll_stops {e : Emitter} (hcapped : e.Capped) (hnone : e.error = none)
    (ls : List Line) :
    (e.putAll ls).error = none ∨
    ∃ n l, (e.putAll ls).code.size = e.code.size + n ∧ ls[n]? = some l ∧
      (e.maxInstructions ≤ e.code.size + n + 1 ∨
        ∃ a ∈ l.constant?, ¬ (e.putAll ls).constants.Has a) := by
  induction ls generalizing e with
  | nil => exact .inl hnone
  | cons l ls ih =>
    rcases (e.put_spec l).2 with hwritten | ⟨hrefused, hcause⟩
    · have hput : (e.put l).Capped := hcapped.putAll [l]
      refine (ih hput hwritten.after).imp_right ?_
      rintro ⟨n, l', hsize, hl', hlimit⟩
      have hpushed : (e.put l).code.size = e.code.size + 1 := by
        rw [hwritten.code, Array.size_push]
      rw [maxInstructions_put, hpushed] at hlimit
      refine ⟨n + 1, l', by rw [putAll_cons, hsize, hpushed]; omega, hl', ?_⟩
      exact hlimit.imp_left fun hfull => by omega
    · refine .inr ⟨0, l, ?_, rfl, ?_⟩
      · have hrest := (putAll_of_error hrefused.after ls).code
        rw [putAll_cons, hrest, hrefused.code, Nat.add_zero]
      · by_cases hfull : e.maxInstructions ≤ e.code.size + (0 : Nat) + 1
        · exact .inl hfull
        · refine .inr ?_
          by_contra hall
          simp only [not_exists, not_and, not_not] at hall
          refine hcause ⟨hnone, by omega, ?_, (hcapped.putAll [l]).bounded⟩
          intro a ha
          exact has_put_of_has_putAll ha (hall a ha)

end Emitter

/-! ## Lines that are cut off -/

namespace Line

variable {k k' : Constants} {l : Line}

theorem constant?_clip (most : Nat) (l : Line) : (l.clip most).constant? = l.constant? := by
  cases l <;> rfl

theorem opcode?_instruction_ne_halt : (l.instruction k).opcode? ≠ some .halt := by
  intro hop
  rw [instruction, Draft.opcode?_instruction, Option.some_inj] at hop
  exact Emitter.op_draft_ne_halt _ _ hop

theorem isJump_instruction (k : Constants) (l : Line) :
    (l.instruction k).isJump = l.skip?.isSome := by
  have hop : (l.instruction k).opcode? = some _ := Draft.opcode?_instruction _
  cases l with
  | push lit =>
    cases lit with
    | int n =>
      rw [Instruction.isJump, opcode?_pushInt]
      rfl
    | _ => rw [Instruction.isJump, hop]; rfl
  | _ => rw [Instruction.isJump, hop]; rfl

theorem target_instruction {skip : Nat} (hl : l.Placed k) (hskip : l.skip? = some skip) (pc : Nat) :
    (l.instruction k).target pc = (pc + 1 + skip : Nat) := by
  have himm := toInt_imm_instruction hl
  rw [Instruction.target]
  cases l with
  | jumpIfFalse n =>
    cases hskip
    rw [himm rfl, operand]
    omega
  | jump n =>
    cases hskip
    rw [himm rfl, operand]
    omega
  | _ => cases hskip

theorem instruction_clip (k : Constants) (most : Nat) (l : Line) :
    (l.clip most).instruction k =
      { l.instruction k with imm := ((l.clip most).instruction k).imm } := by
  cases l <;> rfl

theorem Placed.clip (hl : l.Placed k) (most : Nat) : (l.clip most).Placed k := by
  refine ⟨(constant?_clip most l).symm ▸ hl.has, Nat.lt_of_le_of_lt ?_ hl.operand_lt⟩
  cases l with
  | jumpIfFalse skip => exact Nat.succ_le_succ (Nat.min_le_left skip most)
  | jump skip => exact Nat.succ_le_succ (Nat.min_le_left skip most)
  | _ => exact Nat.le_refl _

/-- A line whose jump is shortened becomes the instruction cut off. -/
theorem cutAt_instruction (hl : l.Placed k) {c pc : Nat} (hpc : pc < c) :
    (l.instruction k).CutAt c pc ((l.clip (c - (pc + 1))).instruction k) := by
  rw [Instruction.CutAt, isJump_instruction]
  cases hskip : l.skip? with
  | none => rw [if_neg (by simp), clip_of_le (by simp [hskip])]
  | some skip =>
    rw [target_instruction hl hskip]
    split
    next hbeyond =>
      have hclip : (l.clip (c - (pc + 1))).skip? = some (min skip (c - (pc + 1))) := by
        rw [skip?_clip, hskip]
        rfl
      refine ⟨instruction_clip k _ l, ?_⟩
      rw [target_instruction (hl.clip _) hclip]
      omega
    next hwithin =>
      have hle : skip ≤ c - (pc + 1) := by
        have hnot : ¬ (c : Int) < (pc + 1 + skip : Nat) := fun hlt => hwithin ⟨rfl, hlt⟩
        omega
      rw [clip_of_le]
      rintro _ hsome
      cases hskip.symm.trans hsome
      exact hle

theorem index_lt_strings (hsound : (l.instruction k').Sound k) {t : Text}
    (ht : l.constant? = some (.text t)) : (l.instruction k').index.toNat < k.strings.length := by
  have hop : (l.instruction k').opcode? = some _ := Draft.opcode?_instruction _
  cases l with
  | push lit =>
    cases lit with
    | int n =>
      rw [constant?] at ht
      split at ht <;> cases ht
    | float x => simpa only [Instruction.Sound, hop, draft] using hsound
    | string s => simpa only [Instruction.Sound, hop, draft] using hsound
    | bool b => cases ht
    | null => cases ht
  | load name => simpa only [Instruction.Sound, hop, draft] using hsound
  | property name => simpa only [Instruction.Sound, hop, draft] using hsound
  | callBuiltin name argc => simpa only [Instruction.Sound, hop, draft] using hsound
  | callFunction name argc => simpa only [Instruction.Sound, hop, draft] using hsound
  | callMethod name argc => simpa only [Instruction.Sound, hop, draft] using hsound
  | _ => cases ht

theorem index_lt_ints (hsound : (l.instruction k').Sound k) {n : Int}
    (hn : l.constant? = some (.int n)) : (l.instruction k').index.toNat < k.ints.length := by
  cases l with
  | push lit =>
    cases lit with
    | int m =>
      rw [constant?] at hn
      split at hn
      next => cases hn
      next hwide =>
        rw [Instruction.Sound, opcode?_pushInt] at hsound
        refine hsound ?_
        rw [instruction, draft, if_neg hwide]
        exact (by decide : UInt8.ofInt (1 : Nat) ≠ 0)
    | _ => cases hn
  | _ => cases hn

/-- An instruction that reads no constant beyond pools which have grown since reads one that
    they have. -/
theorem has_of_sound (hb : k'.Bounded) (hl : l.Placed k') (hextends : k.Extends k')
    (hsound : (l.instruction k').Sound k) {a : Constant} (ha : l.constant? = some a) :
    k.Has a := by
  have hindex := toNat_index_instruction hb hl ha
  obtain ⟨⟨strings, hstrings⟩, ⟨ints, hints⟩⟩ := hextends
  cases a with
  | text t =>
    have hlt := index_lt_strings hsound ha
    rw [hindex, Constants.position, ← hstrings, List.idxOf_append] at hlt
    split at hlt
    next hmem => exact hmem
    next => omega
  | int n =>
    have hlt := index_lt_ints hsound ha
    rw [hindex, Constants.position, ← hints, List.idxOf_append] at hlt
    split at hlt
    next hmem => exact hmem
    next => omega

end Line

/-! ## Programs that hold lines cut off -/

theorem Instruction.Sound.forward {k : Constants} {i : Instruction} (h : i.Sound k)
    (hjump : i.isJump = true) : 0 < i.imm.toInt := by
  rw [isJump, Bool.or_eq_true, Bool.or_eq_true, decide_eq_true_iff, decide_eq_true_iff,
    decide_eq_true_iff] at hjump
  rw [Sound] at h
  rcases hjump with (hop | hop) | hop <;> rwa [hop] at h

theorem Instruction.CutAt.target_le {c pc : Nat} {i i' : Instruction} (h : i.CutAt c pc i')
    (hjump : i'.isJump = true) : i'.target pc ≤ c := by
  rw [CutAt] at h
  split at h
  next => exact Int.le_of_eq h.2
  next hwithin =>
    subst h
    exact Int.not_lt.1 fun hbeyond => hwithin ⟨hjump, hbeyond⟩

/-- A program that holds lines as far as slot `c`, and a halt, is the program that holds
    them all, cut off there. -/
theorem Program.Holds.cutAt {p p' : Program} {ls : List Line} {c : Nat} (h : p.Holds ls)
    (h' : p'.Holds (Line.cut c ls)) (hc : c ≤ ls.length) (hcount : p.count = ls.length + 1)
    (hcount' : p'.count = c + 1) (hextends : p'.constants.Extends p.constants) :
    p.CutAt c p' := by
  have hlength : (Line.cut c ls).length = c := by rw [Line.length_cut, Nat.min_eq_left hc]
  have hline : ∀ pc < c, ∃ l, ls[pc]? = some l ∧
      p'.fetch pc = (l.clip (c - (pc + 1))).instruction p'.constants ∧ l.Placed p'.constants := by
    intro pc hpc
    have hl : ls[pc]? = some _ := List.getElem?_eq_getElem (Nat.lt_of_lt_of_le hpc hc)
    have hcut := Line.getElem?_cut hpc hl
    refine ⟨_, hl, h'.fetch pc _ hcut, ?_, (h.placed _ (List.mem_of_getElem? hl)).operand_lt⟩
    have hhas := (h'.placed _ (List.mem_of_getElem? hcut)).has
    rwa [Line.constant?_clip] at hhas
  have hfetch : ∀ pc < c, (p.fetch pc).CutAt c pc (p'.fetch pc) := by
    intro pc hpc
    obtain ⟨l, hl, hfetch', hplaced⟩ := hline pc hpc
    rw [h.fetch pc l hl, hfetch', Line.instruction_extends hextends hplaced.has]
    exact Line.cutAt_instruction hplaced hpc
  have hhalt : ∀ pc ≤ c, (p'.fetch pc).opcode? = some .halt ↔ pc = c := by
    intro pc hpc
    constructor
    · intro hop
      by_contra hne
      obtain ⟨l, -, hfetch', -⟩ := hline pc (by omega)
      exact Line.opcode?_instruction_ne_halt (hfetch' ▸ hop)
    · rintro rfl
      have hop := h'.halt (by omega)
      rwa [hlength] at hop
  refine ⟨hcount', by omega, hfetch, hhalt, ?_⟩
  intro pc hpc hjump
  have hne : pc ≠ c := by
    intro heq
    simp [Instruction.isJump, (hhalt pc hpc).2 heq] at hjump
  have hpos := (h'.sound pc (by omega)).forward hjump
  exact ⟨Int.lt_add_of_pos_right _ hpos, (hfetch pc (by omega)).target_le hjump⟩

/-! ## Programs within tighter limits -/

namespace Expr

variable {o : CompileOptions} {x : Expr}

theorem count_compile_of_pos (h : 0 < o.maxInstructions) :
    (x.compile o).count = x.extent o + 1 := by
  have hlength := congrArg List.length (x.toList_emitProgram o)
  have hle := extent_le (o := o) (x := x)
  rw [if_pos h, List.length_append, List.length_map, Line.length_cut, List.length_singleton,
    Array.length_toList, Nat.min_eq_left hle] at hlength
  exact Int.ofNat_inj.2 hlength

theorem strings_compile (o : CompileOptions) (x : Expr) :
    (x.compile o).strings = (x.written o).strings.entries :=
  congrArg Constants.strings (x.constants_emitProgram o)

theorem ints_compile (o : CompileOptions) (x : Expr) :
    (x.compile o).ints = (x.written o).ints.entries :=
  congrArg Constants.ints (x.constants_emitProgram o)

/-- A program has all lines of its tree, or a compilation has failed at a line that has no
    slot or whose constant is not stored. -/
theorem compile_cases (o : CompileOptions) (x : Expr) :
    ((x.compile o).failure = none ∧ x.extent o = (x.code o).length) ∨
    ((x.compile o).failure ≠ none ∧ ∃ l, (x.code o)[x.extent o]? = some l ∧
      (o.maxInstructions ≤ x.extent o + 1 ∨
        ∃ a ∈ l.constant?, ¬ (x.compile o).constants.Has a)) := by
  by_cases hok : (x.compile o).failure = none
  · exact .inl ⟨hok, extent_of_ok hok⟩
  · have hnone : (x.written o).error ≠ none := by
      rwa [ne_eq, error_written_eq_none_iff, ← failure_compile_eq_none_iff]
    obtain ⟨n, l, hsize, hl, hlimit⟩ :=
      (Emitter.putAll_stops (capped_emitter o) rfl (x.code o)).resolve_left hnone
    obtain rfl : x.extent o = n := hsize.trans (Nat.zero_add n)
    have hempty : (o.emitter.code.size : Int) = 0 := rfl
    have hconstants : (x.compile o).constants = _ := x.constants_emitProgram o
    rw [hempty, Int.zero_add] at hlimit
    rw [hconstants]
    exact .inr ⟨hok, l, hl, hlimit⟩

section

variable {M L : Int} (hL : 0 ≤ L) (hpool : L ≤ o.maxPoolEntries)

include hL hpool

/-- The pools have the first constants of those with the wider limit. -/
theorem heads_written (M : Int) (x : Expr) :
    (x.written (o.limited M L)).strings.Heads (x.written o).strings ∧
      (x.written (o.limited M L)).ints.Heads (x.written o).ints := by
  have hnonneg : 0 ≤ min L Pool.capacity := by
    have hcapacity : (0 : Int) ≤ Pool.capacity := Int.natCast_nonneg _
    omega
  have hle : min L Pool.capacity ≤ min o.maxPoolEntries Pool.capacity := by omega
  simp only [written, Emitter.strings_putAll, Emitter.ints_putAll]
  exact ⟨Pool.Heads.addAll ⟨hnonneg, hle, List.take_nil.symm⟩ _,
    Pool.Heads.addAll ⟨hnonneg, hle, List.take_nil.symm⟩ _⟩

theorem pools_compile_limited (M : Int) (x : Expr) :
    (x.compile (o.limited M L)).strings = (x.compile o).strings.take L.toNat ∧
      (x.compile (o.limited M L)).ints = (x.compile o).ints.take L.toNat := by
  obtain ⟨hstrings, hints⟩ := heads_written hL hpool M x
  have hbounded := ((capped_emitter o).putAll (x.code o)).bounded
  have hstringLimit : (x.written (o.limited M L)).strings.limit = min L Pool.capacity := by
    rw [written, Emitter.strings_putAll, Pool.limit_addAll]
    rfl
  have hintLimit : (x.written (o.limited M L)).ints.limit = min L Pool.capacity := by
    rw [written, Emitter.ints_putAll, Pool.limit_addAll]
    rfl
  rw [strings_compile, strings_compile, ints_compile, ints_compile]
  exact ⟨hstrings.entries_eq_take hstringLimit hbounded.strings,
    hints.entries_eq_take hintLimit hbounded.ints⟩

theorem extends_compile_limited (M : Int) (x : Expr) :
    (x.compile (o.limited M L)).constants.Extends (x.compile o).constants := by
  obtain ⟨hstrings, hints⟩ := pools_compile_limited hL hpool M x
  constructor
  · show (x.compile (o.limited M L)).strings <+: (x.compile o).strings
    rw [hstrings]
    exact List.take_prefix _ _
  · show (x.compile (o.limited M L)).ints <+: (x.compile o).ints
    rw [hints]
    exact List.take_prefix _ _

end

/-- Suppose that a tree compiles within the limits that options state. Within tighter ones
    it gives the same program, cut off at a slot `c`, and the pools have the first constants
    as far as the limit goes. It is cut off as late as can be: there is no failure exactly
    if nothing is missing, and otherwise there is no slot left, or the next instruction
    reads a constant that the pools do not have. Arrays, hence programs, have fewer than
    `2 ^ 32` words. -/
theorem compile_limited_cutAt (o : CompileOptions) (x : Expr) (M L : Int) (hM : 1 ≤ M)
    (hL : 0 ≤ L) (hpool : L ≤ o.maxPoolEntries) (hok : (x.compile o).failure = none)
    (hsize : (x.compile o).words.size < 4294967296) :
    ∃ c : Nat, (c : Int) + 1 ≤ M ∧
      (x.compile o).CutAt c (x.compile (o.limited M L)) ∧
      (x.compile (o.limited M L)).strings = (x.compile o).strings.take L.toNat ∧
      (x.compile (o.limited M L)).ints = (x.compile o).ints.take L.toNat ∧
      ((x.compile (o.limited M L)).failure = none ↔
        (x.compile (o.limited M L)).count = (x.compile o).count) ∧
      ((x.compile (o.limited M L)).failure = none ∨ (c : Int) + 1 = M ∨
        ¬ ((x.compile o).fetch c).Sound (x.compile (o.limited M L)).constants) := by
  have hlength := extent_of_ok hok
  have hextent := extent_lt_of_size hsize
  have hholds : (x.compile o).Holds (x.code o) := cut_code hok ▸ holds_code hextent
  have hcount : (x.compile o).count = (x.code o).length + 1 := by
    have hroom := ((x.failure_compile_eq_none_iff o).1 hok).1
    rw [← hlength]
    exact count_compile_of_pos (by omega)
  -- Both programs are made from the same lines.
  have hle : x.extent (o.limited M L) ≤ (x.code o).length := extent_le (o := o.limited M L)
  have hholds' : (x.compile (o.limited M L)).Holds
      (Line.cut (x.extent (o.limited M L)) (x.code o)) :=
    holds_code (o := o.limited M L) (by omega)
  have hcount' : (x.compile (o.limited M L)).count = x.extent (o.limited M L) + 1 :=
    count_compile_of_pos (show 0 < M from hM)
  have hslots : (x.extent (o.limited M L) : Int) + 1 ≤ M := by
    have hlt : _ ∨ (x.extent (o.limited M L) : Int) < M := x.extent_lt (o.limited M L)
    omega
  have hextends := extends_compile_limited hL hpool M x
  obtain ⟨hstrings, hints⟩ := pools_compile_limited hL hpool M x
  refine ⟨x.extent (o.limited M L), hslots, hholds.cutAt hholds' hle hcount hcount' hextends,
    hstrings, hints, ?_⟩
  rcases x.compile_cases (o.limited M L) with ⟨hnone, hall⟩ | ⟨hsome, l, hl, hlimit⟩
  · refine ⟨iff_of_true hnone ?_, .inl hnone⟩
    rw [hcount, hcount', hall]
    rfl
  · have hlt : x.extent (o.limited M L) < (x.code o).length := (List.getElem?_eq_some_iff.1 hl).1
    refine ⟨iff_of_false hsome (by omega), .inr ?_⟩
    rcases hlimit with hfull | ⟨a, ha, hmissing⟩
    · exact .inl (Int.le_antisymm hslots hfull)
    · refine .inr fun hsound => hmissing ?_
      rw [hholds.fetch _ l hl] at hsound
      have hplaced := hholds.placed l (List.mem_of_getElem? hl)
      exact Line.has_of_sound hholds.bounded hplaced hextends hsound ha

/-- With room for two texts only, `"none"` is refused, and the jump over it goes to the
    halt. -/
theorem branching_cutAt :
    (branching.compile { maxPoolEntries := 3 }).CutAt 6
        (branching.compile { maxInstructions := 8, maxPoolEntries := 2 }) ∧
    (branching.compile { maxInstructions := 8, maxPoolEntries := 2 }).strings = ["n", "some"] ∧
    ((branching.compile { maxPoolEntries := 3 }).fetch 5).target 5 = 7 ∧
    ((branching.compile { maxInstructions := 8, maxPoolEntries := 2 }).fetch 5).target 5 = 6 := by
  obtain ⟨c, -, hcut, hstrings, -⟩ := compile_limited_cutAt { maxPoolEntries := 3 } branching 8 2
    (by decide) (by decide) (by decide) (by decide) (by decide)
  have hcount : (branching.compile { maxInstructions := 8, maxPoolEntries := 2 }).count = 7 := by
    decide
  obtain rfl : c = 6 := by
    have := hcount.symm.trans hcut.count
    omega
  exact ⟨hcut, hstrings, by decide, by decide⟩

end Expr

end Reckon
