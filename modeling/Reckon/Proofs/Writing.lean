-- SUMMARY: Writing lines one by one: constants go to the pools and instructions to the code, until a limit is met.
import Reckon.Proofs.Encoding
import Reckon.Proofs.Heights

/-!
# Writing lines

Writing a line adds its constant to a pool and appends its instruction. The
first line that meets a limit is not appended, nor is any line behind it, but
constants are still collected. What is appended can be told from how many
instructions there are: the lines before the limit, and the depth recorded is
the highest point of the stack along them.
-/

namespace Reckon

/-! ## Constants under construction -/

def Constant.text? : Constant → Option Text
  | .text t => some t
  | .int _ => none

def Constant.int? : Constant → Option Int
  | .text _ => none
  | .int n => some n

namespace Constants

/-- The pools have grown at their ends. -/
structure Extends (k k' : Constants) : Prop where
  strings : k.strings <+: k'.strings
  ints : k.ints <+: k'.ints

theorem Extends.refl (k : Constants) : k.Extends k :=
  ⟨List.prefix_rfl, List.prefix_rfl⟩

theorem Extends.trans {k k' k'' : Constants} (h : k.Extends k') (h' : k'.Extends k'') :
    k.Extends k'' :=
  ⟨h.strings.trans h'.strings, h.ints.trans h'.ints⟩

theorem Extends.has {k k' : Constants} (h : k.Extends k') {a : Constant} (ha : k.Has a) :
    k'.Has a := by
  cases a with
  | text t => exact h.strings.subset ha
  | int n => exact h.ints.subset ha

/-- A constant stays where it is when the pools grow. -/
theorem Extends.position {k k' : Constants} (h : k.Extends k') {a : Constant} (ha : k.Has a) :
    k'.position a = k.position a := by
  obtain ⟨⟨strings, hstrings⟩, ⟨ints, hints⟩⟩ := h
  cases a with
  | text t =>
    simp only [Constants.position, ← hstrings, List.idxOf_append]
    exact if_pos ha
  | int n =>
    simp only [Constants.position, ← hints, List.idxOf_append]
    exact if_pos ha

end Constants

theorem Line.instruction_extends {k k' : Constants} (h : k.Extends k') {l : Line}
    (hl : ∀ a ∈ l.constant?, k.Has a) : l.instruction k' = l.instruction k := by
  rw [instruction, instruction]
  cases hconst : l.constant? with
  | none => rfl
  | some a => simp only [Option.elim, h.position (hl a hconst)]

namespace Pool

variable {α : Type} [DecidableEq α]

theorem prefix_add (p : Pool α) (a : α) : p.entries <+: (p.add a).2.entries := by
  rw [add]
  split
  · exact List.prefix_rfl
  · split
    · exact List.prefix_rfl
    · exact List.prefix_append _ _

theorem limit_add (p : Pool α) (a : α) : (p.add a).2.limit = p.limit := by
  rw [add]
  split
  · rfl
  · split <;> rfl

/-- A pool gives out the position of the constant, or refuses one that it has no room
    for. -/
theorem add_cases (p : Pool α) (a : α) :
    (∃ q, p.add a = (some (q.entries.idxOf a), q) ∧ a ∈ q.entries) ∨
    p.add a = (none, p) ∧ a ∉ p.entries ∧ p.limit ≤ p.entries.length := by
  rw [add]
  split
  next i hi =>
    obtain ⟨hlt, heq⟩ := List.findIdx?_eq_some_iff_findIdx_eq.1 hi
    have hindex : p.entries.idxOf a = i := heq
    exact .inl ⟨p, by rw [hindex], List.idxOf_lt_length_iff.1 (hindex ▸ hlt)⟩
  next hnone =>
    have hnot := List.idxOf?_eq_none_iff.1 hnone
    split
    next hfull => exact .inr ⟨rfl, hnot, hfull⟩
    next =>
      have hindex : (p.entries ++ [a]).idxOf a = p.entries.length := by
        rw [List.idxOf_append, if_neg hnot, List.idxOf_cons_self, Nat.zero_add]
      exact .inl ⟨{ p with entries := p.entries ++ [a] }, by rw [hindex], by simp⟩

theorem add_of_full {p : Pool α} (h : p.limit ≤ p.entries.length) (a : α) : (p.add a).2 = p := by
  rw [add]
  split
  · rfl
  · rw [if_pos h]

theorem length_add_le {p : Pool α} {n : Nat} (hlimit : p.limit ≤ n) (h : p.entries.length ≤ n)
    (a : α) : (p.add a).2.entries.length ≤ n := by
  rw [add]
  split
  · exact h
  · split
    · exact h
    next hroom =>
      rw [List.length_append, List.length_singleton]
      omega

theorem length_add_le_succ (p : Pool α) (a : α) :
    (p.add a).2.entries.length ≤ p.entries.length + 1 := by
  rw [add]
  split
  · exact Nat.le_succ _
  · split
    · exact Nat.le_succ _
    · exact Nat.le_of_eq List.length_append

/-- Adds constants in order. -/
def addAll (p : Pool α) (as : List α) : Pool α := as.foldl (fun p a => (p.add a).2) p

theorem prefix_addAll (p : Pool α) (as : List α) : p.entries <+: (p.addAll as).entries := by
  induction as generalizing p with
  | nil => exact List.prefix_rfl
  | cons a as ih => exact (p.prefix_add a).trans (ih _)

theorem limit_addAll (p : Pool α) (as : List α) : (p.addAll as).limit = p.limit := by
  induction as generalizing p with
  | nil => rfl
  | cons a as ih => exact (ih _).trans (p.limit_add a)

theorem length_addAll_le {p : Pool α} {n : Nat} (hlimit : p.limit ≤ n) (h : p.entries.length ≤ n)
    (as : List α) : (p.addAll as).entries.length ≤ n := by
  induction as generalizing p with
  | nil => exact h
  | cons a as ih => exact ih (p.limit_add a ▸ hlimit) (length_add_le hlimit h a)

theorem addAll_of_full {p : Pool α} (h : p.limit ≤ p.entries.length) (as : List α) :
    p.addAll as = p := by
  induction as with
  | nil => rfl
  | cons a as ih =>
    show (p.add a).2.addAll as = p
    rw [add_of_full h a, ih]

/-- A constant that a pool refused once is never in it. -/
theorem mem_add_of_mem_addAll {p : Pool α} {a : α} {as : List α}
    (h : a ∈ ((p.add a).2.addAll as).entries) : a ∈ (p.add a).2.entries := by
  rcases p.add_cases a with ⟨q, hadd, hmem⟩ | ⟨hadd, -, hfull⟩
  · rwa [hadd]
  · rw [hadd] at h ⊢
    rwa [addAll_of_full hfull] at h

/-- A pool that has room for them all refuses none. -/
theorem mem_addAll_of_le {p : Pool α} {as : List α}
    (h : (p.entries.length + as.length : Nat) ≤ p.limit) {a : α} (ha : a ∈ as) :
    a ∈ (p.addAll as).entries := by
  induction as generalizing p with
  | nil => cases ha
  | cons b as ih =>
    rw [List.length_cons] at h
    rcases List.mem_cons.1 ha with rfl | ha
    · rcases p.add_cases a with ⟨q, hadd, hmem⟩ | ⟨-, -, hfull⟩
      · refine ((p.add a).2.prefix_addAll as).subset ?_
        rwa [hadd]
      · omega
    · have hlength := p.length_add_le_succ b
      have hlimit := p.limit_add b
      have hroom : ((p.add b).2.entries.length + as.length : Nat) ≤ (p.add b).2.limit := by omega
      exact ih hroom ha

end Pool

/-! ## Writing lines -/

namespace Emitter

def constants (e : Emitter) : Constants := ⟨e.strings.entries, e.ints.entries⟩

/-- Adds the constant of a line, if it has one, and gives its position. -/
def store (e : Emitter) : Option Constant → Option Nat × Emitter
  | none => (some 0, e)
  | some (.text t) => e.addString t
  | some (.int n) => e.addInt n

/-- Writes a line. Behind a jump the code goes on one value lower. -/
def put (e : Emitter) (l : Line) : Emitter :=
  match e.store l.constant? with
  | (some i, e) =>
    let e := e.append l.effect (l.draft i)
    { e with depth := e.depth + (l.shift - l.effect) }
  | (none, e) => e

theorem put_plain (e : Emitter) {l : Line} (hconst : l.constant? = none)
    (hshift : l.shift = l.effect) : e.put l = e.append l.effect (l.draft 0) := by
  simp only [put, hconst, store, hshift, Int.sub_self, Int.add_zero]

theorem put_jump (e : Emitter) (skip : Nat) :
    e.put (.jump skip) =
      { e.append 0 ((Line.jump skip).draft 0) with
        depth := (e.append 0 ((Line.jump skip).draft 0)).depth + -1 } := rfl

/-- Failing only notes the first error. -/
theorem fail_eq (e : Emitter) (x : CompileError) :
    ∃ y, e.fail x = { e with error := some y } ∧ ∀ z ∈ e.error, y = z := by
  rw [fail]
  split
  next y hy =>
    refine ⟨y, ?_, fun z hz => Option.some.inj (hy.symm.trans hz)⟩
    rw [← hy]
  next hnone =>
    refine ⟨x, rfl, fun z hz => ?_⟩
    rw [hnone] at hz
    cases hz

/-- Whether an instruction can be appended in front of a halt. -/
def Accepts (e : Emitter) (d : Draft) : Prop :=
  e.error = none ∧ (e.code.size : Int) + 1 < e.maxInstructions ∧ d.fits = true

/-- An instruction is refused, which is an error, or appended. -/
theorem emit_cases (e : Emitter) (effect : Int) {d : Draft} (hop : d.op ≠ .halt) :
    (∃ x, e.emit effect d = (none, { e with error := some x }) ∧ (∀ y ∈ e.error, x = y) ∧
      ¬e.Accepts d) ∨
    e.Accepts d ∧ e.emit effect d = (some e.code.size, { e with
      code := e.code.push d.instruction
      depth := e.depth + effect
      maxDepth := max e.maxDepth (e.depth + effect).toNat }) := by
  have hrefused : ∀ y, ¬e.Accepts d → ∃ x,
      (none, e.fail y) = ((none : Option Nat), { e with error := some x }) ∧
        (∀ z ∈ e.error, x = z) ∧ ¬e.Accepts d := by
    intro y hy
    obtain ⟨x, hfail, hsticky⟩ := e.fail_eq y
    exact ⟨x, by rw [hfail], hsticky, hy⟩
  have hslots : e.slots d.op = e.maxInstructions - 1 := if_neg hop
  rw [emit, hslots]
  split
  next herror =>
    obtain ⟨x, hx⟩ := Option.isSome_iff_exists.1 (Bool.and_eq_true_iff.1 herror).1
    refine .inl ⟨x, by rw [← hx], fun y hy => Option.some.inj (hx.symm.trans hy), fun h => ?_⟩
    cases hx.symm.trans h.1
  next herror =>
    have hnone : e.error = none := by simpa [hop] using herror
    split
    next hroom => exact .inl (hrefused _ fun h => by have := h.2.1; omega)
    next hroom =>
      split
      next hfits => exact .inl (hrefused _ fun h => by simp [h.2.2] at hfits)
      next hfits => exact .inr ⟨⟨hnone, by omega, by simpa using hfits⟩, rfl⟩

/-- The emitter after a constant was offered to its pools. -/
def collect (e : Emitter) (a? : Option Constant) : Emitter :=
  { e with
    strings := e.strings.addAll (a?.bind Constant.text?).toList
    ints := e.ints.addAll (a?.bind Constant.int?).toList }

/-- The pools hold the constant, or it is an error that they cannot. -/
theorem store_cases (e : Emitter) (a? : Option Constant) :
    (e.store a? = (some (a?.elim 0 (e.collect a?).constants.position), e.collect a?) ∧
      ∀ a ∈ a?, (e.collect a?).constants.Has a) ∨
    ∃ x, e.store a? = (none, { e.collect a? with error := some x }) ∧ (∀ y ∈ e.error, x = y) ∧
      ∃ a ∈ a?, ¬(e.collect a?).constants.Has a := by
  cases a? with
  | none => exact .inl ⟨rfl, nofun⟩
  | some a =>
    cases a with
    | text t =>
      have hcollect : e.collect (some (.text t)) = { e with strings := (e.strings.add t).2 } := rfl
      rw [hcollect, store, addString]
      rcases e.strings.add_cases t with ⟨pool, hadd, hmem⟩ | ⟨hadd, hnot, -⟩
      · rw [hadd]
        refine .inl ⟨rfl, ?_⟩
        rintro a ⟨⟩
        exact hmem
      · obtain ⟨x, hfail, hsticky⟩ := fail_eq e .stringPool
        rw [hadd]
        exact .inr ⟨x, by simp only [hfail], hsticky, .text t, rfl, hnot⟩
    | int n =>
      have hcollect : e.collect (some (.int n)) = { e with ints := (e.ints.add n).2 } := rfl
      rw [hcollect, store, addInt]
      rcases e.ints.add_cases n with ⟨pool, hadd, hmem⟩ | ⟨hadd, hnot, -⟩
      · rw [hadd]
        refine .inl ⟨rfl, ?_⟩
        rintro a ⟨⟩
        exact hmem
      · obtain ⟨x, hfail, hsticky⟩ := fail_eq e .integerPool
        rw [hadd]
        exact .inr ⟨x, by simp only [hfail], hsticky, .int n, rfl, hnot⟩

/-- The line was appended. -/
structure Written (e : Emitter) (l : Line) (e' : Emitter) : Prop where
  before : e.error = none
  after : e'.error = none
  room : (e.code.size : Int) + 1 < e.maxInstructions
  code : e'.code = e.code.push (l.instruction e'.constants)
  has : ∀ a ∈ l.constant?, e'.constants.Has a
  depth : e'.depth = e.depth + l.shift
  maxDepth : e'.maxDepth = max e.maxDepth (e.depth + l.effect).toNat

/-- Nothing was appended, because there is an error. -/
structure Refused (e e' : Emitter) : Prop where
  after : e'.error ≠ none
  sticky : ∀ x ∈ e.error, e'.error = some x
  code : e'.code = e.code
  maxDepth : e'.maxDepth = e.maxDepth

theorem op_draft_ne_halt (l : Line) (i : Nat) : (l.draft i).op ≠ .halt := by
  cases l with
  | push l =>
    cases l with
    | int n =>
      simp only [Line.draft]
      split <;> simp
    | _ => simp [Line.draft]
  | _ => simp [Line.draft]

theorem fits_draft (l : Line) {i : Nat} (hi : i < 65536) : (l.draft i).fits = true := by
  have hindex : i ≤ 0xFFFF := Nat.le_of_lt_succ hi
  cases l with
  | push l =>
    cases l with
    | int n =>
      simp only [Line.draft]
      split <;> simp [Draft.fits, hindex]
    | bool b => cases b <;> rfl
    | null => rfl
    | float x => simp [Line.draft, Draft.fits, hindex]
    | string s => simp [Line.draft, Draft.fits, hindex]
  | _ => simp [Line.draft, Draft.fits, hindex]

/-- A line is appended if there is no error, a slot is left and its constant is stored.
    In any case its constant is offered to the pools. -/
theorem put_spec (e : Emitter) (l : Line) :
    (∃ code depth maxDepth error,
      e.put l = { e.collect l.constant? with code, depth, maxDepth, error }) ∧
    (e.Written l (e.put l) ∨ e.Refused (e.put l) ∧
      ¬(e.error = none ∧ (e.code.size : Int) + 1 < e.maxInstructions ∧
        (∀ a ∈ l.constant?, (e.put l).constants.Has a) ∧ (e.put l).constants.Bounded)) := by
  rcases e.store_cases l.constant? with ⟨hstore, hhas⟩ | ⟨x, hstore, hsticky, a, ha, hnot⟩
  · rcases (e.collect l.constant?).emit_cases l.effect (op_draft_ne_halt l
      (l.constant?.elim 0 (e.collect l.constant?).constants.position))
      with ⟨x, hemit, hsticky, hrefused⟩ | ⟨haccepts, hemit⟩
    · have hput : e.put l = { e.collect l.constant? with
          error := some x, depth := e.depth + (l.shift - l.effect) } := by
        simp only [put, hstore, append, hemit]
        rfl
      rw [hput]
      refine ⟨⟨_, _, _, _, rfl⟩, .inr ⟨⟨nofun, fun y hy => ?_, rfl, rfl⟩, ?_⟩⟩
      · rw [hsticky y hy]
      · rintro ⟨hnone, hroom, -, hbounded⟩
        refine hrefused ⟨hnone, hroom, fits_draft l ?_⟩
        cases hconst : l.constant? with
        | none => exact Nat.zero_lt_succ _
        | some a => exact Constants.position_lt (hconst ▸ hbounded) (hconst ▸ hhas a hconst)
    · have hput : e.put l = { e.collect l.constant? with
          code := e.code.push (l.instruction (e.collect l.constant?).constants)
          depth := e.depth + l.effect + (l.shift - l.effect)
          maxDepth := max e.maxDepth (e.depth + l.effect).toNat } := by
        simp only [put, hstore, append, hemit]
        rfl
      rw [hput]
      refine ⟨⟨_, _, _, _, rfl⟩,
        .inl ⟨haccepts.1, haccepts.1, haccepts.2.1, rfl, hhas, ?_, rfl⟩⟩
      show e.depth + l.effect + (l.shift - l.effect) = e.depth + l.shift
      omega
  · have hput : e.put l = { e.collect l.constant? with error := some x } := by
      simp only [put, hstore]
    rw [hput]
    refine ⟨⟨_, _, _, _, rfl⟩, .inr ⟨⟨nofun, fun y hy => ?_, rfl, rfl⟩, ?_⟩⟩
    · rw [hsticky y hy]
    · exact fun h => hnot (h.2.2.1 a ha)

theorem put_cases (e : Emitter) (l : Line) : e.Written l (e.put l) ∨ e.Refused (e.put l) :=
  (e.put_spec l).2.imp_right And.left

theorem maxInstructions_put (e : Emitter) (l : Line) :
    (e.put l).maxInstructions = e.maxInstructions := by
  obtain ⟨code, depth, maxDepth, error, hput⟩ := (e.put_spec l).1
  rw [hput]
  rfl

theorem prefixes_put (e : Emitter) (l : Line) : (e.put l).prefixes = e.prefixes := by
  obtain ⟨code, depth, maxDepth, error, hput⟩ := (e.put_spec l).1
  rw [hput]
  rfl

theorem strings_put (e : Emitter) (l : Line) :
    (e.put l).strings = e.strings.addAll (l.constant?.bind Constant.text?).toList := by
  obtain ⟨code, depth, maxDepth, error, hput⟩ := (e.put_spec l).1
  rw [hput]
  rfl

theorem ints_put (e : Emitter) (l : Line) :
    (e.put l).ints = e.ints.addAll (l.constant?.bind Constant.int?).toList := by
  obtain ⟨code, depth, maxDepth, error, hput⟩ := (e.put_spec l).1
  rw [hput]
  rfl

/-! ## Emitters that differ in their instructions -/

/-- The emitters have written as many instructions, and agree on all else that the
    next line depends on. After an error, the depth is not of that kind. -/
def Agrees (e e' : Emitter) : Prop :=
  ∃ code depth, code.size = e.code.size ∧ (e.error = none → depth = e.depth) ∧
    e' = { e with code, depth }

theorem Agrees.refl (e : Emitter) : e.Agrees e :=
  ⟨e.code, e.depth, rfl, fun _ => rfl, rfl⟩

theorem Agrees.trans {e e' e'' : Emitter} (h : e.Agrees e') (h' : e'.Agrees e'') :
    e.Agrees e'' := by
  obtain ⟨code, depth, hsize, hdepth, rfl⟩ := h
  obtain ⟨code', depth', hsize', hdepth', rfl⟩ := h'
  exact ⟨code', depth', hsize'.trans hsize, fun he => (hdepth' he).trans (hdepth he), rfl⟩

namespace Agrees

variable {e e' : Emitter}

theorem size (h : e.Agrees e') : e'.code.size = e.code.size := by
  obtain ⟨code, depth, hsize, -, rfl⟩ := h
  exact hsize

theorem error (h : e.Agrees e') : e'.error = e.error := by
  obtain ⟨code, depth, -, -, rfl⟩ := h
  rfl

theorem constants (h : e.Agrees e') : e'.constants = e.constants := by
  obtain ⟨code, depth, -, -, rfl⟩ := h
  rfl

theorem prefixes (h : e.Agrees e') : e'.prefixes = e.prefixes := by
  obtain ⟨code, depth, -, -, rfl⟩ := h
  rfl

theorem maxInstructions (h : e.Agrees e') : e'.maxInstructions = e.maxInstructions := by
  obtain ⟨code, depth, -, -, rfl⟩ := h
  rfl

theorem maxDepth (h : e.Agrees e') : e'.maxDepth = e.maxDepth := by
  obtain ⟨code, depth, -, -, rfl⟩ := h
  rfl

theorem depth (h : e.Agrees e') (hnone : e.error = none) : e'.depth = e.depth := by
  obtain ⟨code, depth, -, hdepth, rfl⟩ := h
  exact hdepth hnone

end Agrees

theorem Agrees.fail {e e' : Emitter} (h : e.Agrees e') (x : CompileError) :
    (e.fail x).Agrees (e'.fail x) := by
  obtain ⟨code, depth, hsize, hdepth, rfl⟩ := h
  cases herror : e.error with
  | some y =>
    simp only [Emitter.fail, herror]
    exact ⟨code, depth, hsize, hdepth, by rw [← herror]⟩
  | none =>
    simp only [Emitter.fail, herror]
    exact ⟨code, depth, hsize, fun _ => hdepth herror, rfl⟩

theorem Agrees.append {e e' : Emitter} (h : e.Agrees e') (effect : Int) (d d' : Draft)
    (hop : d'.op = d.op) (hfits : d'.fits = d.fits) (hhalt : d.op ≠ .halt) :
    (e.append effect d).Agrees (e'.append effect d') := by
  have hfail := h.fail
  obtain ⟨code, depth, hsize, hdepth, rfl⟩ := h
  have hslots : ({ e with code, depth } : Emitter).slots d.op = e.slots d.op := rfl
  simp only [Emitter.append, emit, hop, hfits, hslots, hsize]
  split
  · exact ⟨code, depth, hsize, hdepth, rfl⟩
  · split
    · exact hfail _
    · split
      · exact hfail _
      · rename_i hcond _ _
        have hnone : e.error = none := by simpa [hhalt] using hcond
        rw [hdepth hnone]
        exact ⟨code.push d'.instruction, _, by simp [hsize], fun _ => rfl, rfl⟩

theorem Agrees.store {e e' : Emitter} (h : e.Agrees e') (a? : Option Constant) :
    (e'.store a?).1 = (e.store a?).1 ∧ (e.store a?).2.Agrees (e'.store a?).2 := by
  obtain ⟨code, depth, hsize, hdepth, rfl⟩ := h
  cases a? with
  | none => exact ⟨rfl, code, depth, hsize, hdepth, rfl⟩
  | some a =>
    cases a with
    | text t =>
      simp only [Emitter.store, addString]
      cases e.strings.add t with
      | mk i? pool =>
        cases i? with
        | some i => exact ⟨rfl, code, depth, hsize, hdepth, rfl⟩
        | none =>
          have hpool : ({ e with strings := pool } : Emitter).Agrees
            { e with strings := pool, code, depth } := ⟨code, depth, hsize, hdepth, rfl⟩
          exact ⟨rfl, hpool.fail _⟩
    | int n =>
      simp only [Emitter.store, addInt]
      cases e.ints.add n with
      | mk i? pool =>
        cases i? with
        | some i => exact ⟨rfl, code, depth, hsize, hdepth, rfl⟩
        | none =>
          have hpool : ({ e with ints := pool } : Emitter).Agrees
            { e with ints := pool, code, depth } := ⟨code, depth, hsize, hdepth, rfl⟩
          exact ⟨rfl, hpool.fail _⟩

theorem Agrees.withDepth {e e' : Emitter} (h : e.Agrees e') {n n' : Int}
    (hn : e.error = none → n' = n) :
    ({ e with depth := n } : Emitter).Agrees { e' with depth := n' } := by
  obtain ⟨code, depth, hsize, -, rfl⟩ := h
  exact ⟨code, n', hsize, hn, rfl⟩

theorem Agrees.put {e e' : Emitter} (h : e.Agrees e') (l : Line) :
    (e.put l).Agrees (e'.put l) := by
  obtain ⟨hslot, hstore⟩ := h.store l.constant?
  simp only [Emitter.put]
  generalize e.store l.constant? = r at hslot hstore
  generalize e'.store l.constant? = r' at hslot hstore
  obtain ⟨i?, e₁⟩ := r
  obtain ⟨i?', e₁'⟩ := r'
  cases hslot
  cases i? with
  | none => exact hstore
  | some i =>
    have happend := hstore.append l.effect _ _ rfl rfl (op_draft_ne_halt l i)
    exact happend.withDepth fun hnone => congrArg (· + _) (happend.depth hnone)

/-- Writes lines in order. -/
def putAll (e : Emitter) (ls : List Line) : Emitter := ls.foldl put e

@[simp] theorem putAll_cons (e : Emitter) (l : Line) (ls : List Line) :
    e.putAll (l :: ls) = (e.put l).putAll ls := rfl

theorem putAll_append (e : Emitter) (ls ls' : List Line) :
    e.putAll (ls ++ ls') = (e.putAll ls).putAll ls' := List.foldl_append

theorem Agrees.putAll {e e' : Emitter} (h : e.Agrees e') (ls : List Line) :
    (e.putAll ls).Agrees (e'.putAll ls) := by
  induction ls generalizing e e' with
  | nil => exact h
  | cons l ls ih => exact ih (h.put l)

/-! ## How far lines are written -/

theorem prefixes_putAll (e : Emitter) (ls : List Line) : (e.putAll ls).prefixes = e.prefixes := by
  induction ls generalizing e with
  | nil => rfl
  | cons l ls ih => exact (ih (e.put l)).trans (e.prefixes_put l)

theorem maxInstructions_putAll (e : Emitter) (ls : List Line) :
    (e.putAll ls).maxInstructions = e.maxInstructions := by
  induction ls generalizing e with
  | nil => rfl
  | cons l ls ih => exact (ih (e.put l)).trans (e.maxInstructions_put l)

/-- After an error nothing is written. -/
theorem putAll_of_error {e : Emitter} (h : e.error ≠ none) (ls : List Line) :
    e.Refused (e.putAll ls) := by
  induction ls generalizing e with
  | nil => exact ⟨h, fun x hx => hx, rfl, rfl⟩
  | cons l ls ih =>
    rcases e.put_cases l with hwritten | hrefused
    · exact absurd hwritten.before h
    · have hrest := ih hrefused.after
      exact ⟨hrest.after, fun x hx => hrest.sticky x (hrefused.sticky x hx),
        hrest.code.trans hrefused.code, hrest.maxDepth.trans hrefused.maxDepth⟩

/-- Without an error all lines are written. -/
theorem putAll_of_none {e : Emitter} {ls : List Line} (h : (e.putAll ls).error = none) :
    e.error = none ∧ (e.putAll ls).code.size = e.code.size + ls.length ∧
      (e.putAll ls).depth = e.depth + Line.rise ls := by
  induction ls generalizing e with
  | nil => exact ⟨h, rfl, (Int.add_zero _).symm⟩
  | cons l ls ih =>
    obtain ⟨hnone, hsize, hdepth⟩ := ih h
    rcases e.put_cases l with hwritten | hrefused
    · refine ⟨hwritten.before, ?_, ?_⟩
      · rw [putAll_cons, hsize, hwritten.code, Array.size_push, List.length_cons]
        omega
      · rw [putAll_cons, hdepth, hwritten.depth, Line.rise_cons]
        omega
    · exact absurd hnone hrefused.after

theorem size_putAll_le (e : Emitter) (ls : List Line) :
    e.code.size ≤ (e.putAll ls).code.size ∧
      (e.putAll ls).code.size ≤ e.code.size + ls.length := by
  induction ls generalizing e with
  | nil => exact ⟨Nat.le_refl _, Nat.le_refl _⟩
  | cons l ls ih =>
    obtain ⟨hle, hge⟩ := ih (e.put l)
    rcases e.put_cases l with hwritten | hrefused
    · rw [hwritten.code, Array.size_push] at hle hge
      simp only [putAll_cons, List.length_cons]
      omega
    · rw [hrefused.code] at hle hge
      simp only [putAll_cons, List.length_cons]
      omega

/-- The depth that is recorded is the highest point of the lines that were written. -/
theorem maxDepth_putAll (e : Emitter) (ls : List Line) :
    (e.putAll ls).maxDepth =
      max e.maxDepth (Line.peak e.depth (ls.take ((e.putAll ls).code.size - e.code.size))) := by
  induction ls generalizing e with
  | nil => simp [putAll, Line.peak]
  | cons l ls ih =>
    have hle := (size_putAll_le (e.put l) ls).1
    rcases e.put_cases l with hwritten | hrefused
    · have hsize : (e.put l).code.size = e.code.size + 1 := by
        rw [hwritten.code, Array.size_push]
      have hk : ((e.put l).putAll ls).code.size - e.code.size =
          ((e.put l).putAll ls).code.size - (e.put l).code.size + 1 := by omega
      rw [putAll_cons, hk, List.take_succ_cons, Line.peak, ih, hwritten.maxDepth, hwritten.depth,
        Nat.max_assoc]
    · have hrest := putAll_of_error hrefused.after ls
      rw [putAll_cons, hrest.code, hrefused.code, hrest.maxDepth, hrefused.maxDepth, Nat.sub_self]
      simp [Line.peak]

/-- The last slot is kept for a halt. -/
theorem size_putAll_lt (e : Emitter) (ls : List Line) :
    (e.putAll ls).code.size = e.code.size ∨
      ((e.putAll ls).code.size : Int) < e.maxInstructions := by
  induction ls generalizing e with
  | nil => exact .inl rfl
  | cons l ls ih =>
    have hrest := ih (e.put l)
    rw [maxInstructions_put] at hrest
    rcases e.put_cases l with hwritten | hrefused
    · rw [hwritten.code, Array.size_push] at hrest
      have hroom := hwritten.room
      simp only [putAll_cons]
      omega
    · rwa [hrefused.code] at hrest

/-! ## Pools and errors -/

/-- Constants are collected whether or not their lines are written. -/
theorem strings_putAll (e : Emitter) (ls : List Line) :
    (e.putAll ls).strings =
      e.strings.addAll (ls.filterMap fun l => l.constant?.bind Constant.text?) := by
  induction ls generalizing e with
  | nil => rfl
  | cons l ls ih =>
    rw [putAll_cons, ih, strings_put, List.filterMap_cons]
    cases l.constant?.bind Constant.text? <;> rfl

theorem ints_putAll (e : Emitter) (ls : List Line) :
    (e.putAll ls).ints =
      e.ints.addAll (ls.filterMap fun l => l.constant?.bind Constant.int?) := by
  induction ls generalizing e with
  | nil => rfl
  | cons l ls ih =>
    rw [putAll_cons, ih, ints_put, List.filterMap_cons]
    cases l.constant?.bind Constant.int? <;> rfl

theorem extends_putAll (e : Emitter) (ls : List Line) :
    e.constants.Extends (e.putAll ls).constants := by
  constructor
  · show _ <+: (e.putAll ls).strings.entries
    rw [strings_putAll]
    exact e.strings.prefix_addAll _
  · show _ <+: (e.putAll ls).ints.entries
    rw [ints_putAll]
    exact e.ints.prefix_addAll _

/-- Instructions can refer to all that the pools may hold. -/
structure Capped (e : Emitter) : Prop where
  strings : e.strings.limit ≤ Pool.capacity
  ints : e.ints.limit ≤ Pool.capacity
  bounded : e.constants.Bounded

theorem Capped.putAll {e : Emitter} (h : e.Capped) (ls : List Line) : (e.putAll ls).Capped := by
  have hstrings := e.strings_putAll ls
  have hints := e.ints_putAll ls
  refine ⟨?_, ?_, ?_, ?_⟩
  · rw [hstrings, Pool.limit_addAll]
    exact h.strings
  · rw [hints, Pool.limit_addAll]
    exact h.ints
  · show (e.putAll ls).strings.entries.length ≤ _
    rw [hstrings]
    exact Pool.length_addAll_le h.strings h.bounded.strings _
  · show (e.putAll ls).ints.entries.length ≤ _
    rw [hints]
    exact Pool.length_addAll_le h.ints h.bounded.ints _

/-- A constant that is stored in the end was stored when its line was written. -/
theorem has_put_of_has_putAll {e : Emitter} {l : Line} {ls : List Line} {a : Constant}
    (ha : a ∈ l.constant?) (h : ((e.put l).putAll ls).constants.Has a) :
    (e.put l).constants.Has a := by
  rw [Option.mem_def] at ha
  cases a with
  | text t =>
    have hput : (e.put l).strings = (e.strings.add t).2 := by
      rw [strings_put, ha]
      rfl
    have hmem : t ∈ ((e.put l).putAll ls).strings.entries := h
    rw [strings_putAll, hput] at hmem
    show t ∈ (e.put l).strings.entries
    exact hput ▸ Pool.mem_add_of_mem_addAll hmem
  | int n =>
    have hput : (e.put l).ints = (e.ints.add n).2 := by
      rw [ints_put, ha]
      rfl
    have hmem : n ∈ ((e.put l).putAll ls).ints.entries := h
    rw [ints_putAll, hput] at hmem
    show n ∈ (e.put l).ints.entries
    exact hput ▸ Pool.mem_add_of_mem_addAll hmem

/-- Pools with room for a constant of every line hold the constants of all lines. -/
theorem has_putAll_of_le {e : Emitter} {ls : List Line}
    (hstrings : (e.strings.entries.length + ls.length : Nat) ≤ e.strings.limit)
    (hints : (e.ints.entries.length + ls.length : Nat) ≤ e.ints.limit)
    {l : Line} (hl : l ∈ ls) {a : Constant} (ha : a ∈ l.constant?) :
    (e.putAll ls).constants.Has a := by
  rw [Option.mem_def] at ha
  cases a with
  | text t =>
    show t ∈ (e.putAll ls).strings.entries
    rw [strings_putAll]
    refine Pool.mem_addAll_of_le ?_ (List.mem_filterMap.2 ⟨l, hl, by rw [ha]; rfl⟩)
    have hle := List.length_filterMap_le (fun l : Line => l.constant?.bind Constant.text?) ls
    omega
  | int n =>
    show n ∈ (e.putAll ls).ints.entries
    rw [ints_putAll]
    refine Pool.mem_addAll_of_le ?_ (List.mem_filterMap.2 ⟨l, hl, by rw [ha]; rfl⟩)
    have hle := List.length_filterMap_le (fun l : Line => l.constant?.bind Constant.int?) ls
    omega

/-- No error is met exactly if there is room for the lines and the pools hold their
    constants. -/
theorem error_putAll_eq_none_iff {e : Emitter} {ls : List Line} (hcapped : e.Capped) :
    (e.putAll ls).error = none ↔ e.error = none ∧
      (ls = [] ∨ (e.code.size : Int) + ls.length < e.maxInstructions) ∧
      ∀ l ∈ ls, ∀ a ∈ l.constant?, (e.putAll ls).constants.Has a := by
  induction ls generalizing e with
  | nil => simp [putAll]
  | cons l ls ih =>
    have hput : (e.put l).Capped := hcapped.putAll [l]
    have hextends := (e.put l).extends_putAll ls
    rw [putAll_cons, ih hput, maxInstructions_put]
    constructor
    · rintro ⟨hnone, hroom, hhas⟩
      rcases e.put_cases l with hwritten | hrefused
      · refine ⟨hwritten.before, .inr ?_, ?_⟩
        · have hlast := hwritten.room
          rw [hwritten.code, Array.size_push] at hroom
          rcases hroom with rfl | hroom
          · exact hlast
          · rw [List.length_cons]
            omega
        · intro l' hl' a ha
          rcases List.mem_cons.1 hl' with rfl | hl'
          · exact hextends.has (hwritten.has a ha)
          · exact hhas l' hl' a ha
      · exact absurd hnone hrefused.after
    · rintro ⟨hnone, hroom, hhas⟩
      have hlength : (e.code.size : Int) + (ls.length + 1 : Nat) < e.maxInstructions :=
        hroom.resolve_left nofun
      rcases (e.put_spec l).2 with hwritten | ⟨-, hcause⟩
      · refine ⟨hwritten.after, .inr ?_, fun l' hl' => hhas l' (.tail _ hl')⟩
        rw [hwritten.code, Array.size_push]
        omega
      · refine absurd ⟨hnone, by omega, fun a ha => ?_, hput.bounded⟩ hcause
        exact has_put_of_has_putAll ha (hhas l (.head _) a ha)

end Emitter

end Reckon
