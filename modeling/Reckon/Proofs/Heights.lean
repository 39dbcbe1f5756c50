-- SUMMARY: Heights of the stack along lines: trees give well-typed lines, and running those meets no fault but an overflow.
import Reckon.Proofs.Assembly
import Reckon.Proofs.Evaluation

/-!
# Heights of the stack

Every line takes a fixed number of values off the stack and puts at most one
onto it, so the height of the stack can be read off the code. The two arms of a
conditional start at the same height, hence behind the jump that ends the first
arm the code goes on one value lower. Lines are well typed if no line takes more
than there is and every jump meets the height of its target; a list that was cut
off stays well typed. A run of well-typed lines takes nothing off an empty
stack, and it overflows only if the stack is lower than the highest point.
-/

namespace Reckon

namespace Line

/-! ## What one line does to the height -/

/-- How many values a line takes. A jump stands behind a value, which it keeps. -/
def pops : Line → Nat
  | .push _ | .load _ => 0
  | .property _ | .unary _ | .jumpIfFalse _ | .jump _ => 1
  | .computed | .index | .binary _ => 2
  | .callBuiltin _ argc | .callFunction _ argc => argc
  | .callMethod _ argc => argc + 1
  | .buildArray count => count
  | .buildObject count => 2 * count

/-- How many values a line puts back. -/
def pushes : Line → Nat
  | .jumpIfFalse _ => 0
  | _ => 1

/-- By how much the stack grows when the line is performed. -/
def effect (l : Line) : Int := l.pushes - l.pops

/-- By how much the stack is higher at the line that is written next. -/
def shift : Line → Int
  | .jump _ => -1
  | l => l.effect

/-- How many lines a jump may pass over. -/
def skip? : Line → Option Nat
  | .jumpIfFalse skip | .jump skip => some skip
  | _ => none

theorem shift_le_one (l : Line) : l.shift ≤ 1 := by
  cases l <;> simp only [shift, effect, pushes, pops] <;> omega

/-! ## Lists of lines -/

/-- By how much the stack is higher behind the lines. -/
def rise : List Line → Int
  | [] => 0
  | l :: ls => l.shift + rise ls

@[simp] theorem rise_nil : rise [] = 0 := rfl

@[simp] theorem rise_cons (l : Line) (ls : List Line) : rise (l :: ls) = l.shift + rise ls :=
  rfl

@[simp] theorem rise_append (ls ls' : List Line) : rise (ls ++ ls') = rise ls + rise ls' := by
  induction ls with
  | nil => exact (Int.zero_add _).symm
  | cons l ls ih => rw [List.cons_append, rise_cons, rise_cons, ih, Int.add_assoc]

/-- No line takes more values than there are when it is entered, and a jump meets the
    height of its target. A jump to the end of the lines may come at any height. -/
def Typed : Int → List Line → Prop
  | _, [] => True
  | h, l :: ls =>
    (l.pops : Int) ≤ h ∧
    (∀ skip ∈ l.skip?, skip < ls.length → h + l.effect = h + l.shift + rise (ls.take skip)) ∧
    Typed (h + l.shift) ls

/-- The highest point of the stack along the lines. -/
def peak : Int → List Line → Nat
  | _, [] => 0
  | h, l :: ls => max (h + l.effect).toNat (peak (h + l.shift) ls)

/-- A line that is no jump only has to find its values. -/
theorem Typed.cons {h h' : Int} {l : Line} {ls : List Line} (hskip : l.skip? = none)
    (hpops : (l.pops : Int) ≤ h) (hshift : h + l.shift = h') (ht : Typed h' ls) :
    Typed h (l :: ls) := by
  refine ⟨hpops, ?_, hshift ▸ ht⟩
  intro skip hsome
  rw [hskip] at hsome
  cases hsome

theorem Typed.cons_push {h : Int} {l : Literal} {ls : List Line} (hh : 0 ≤ h)
    (ht : Typed (h + 1) ls) : Typed h (.push l :: ls) :=
  .cons rfl hh rfl ht

theorem Typed.cons_load {h : Int} {name : Text} {ls : List Line} (hh : 0 ≤ h)
    (ht : Typed (h + 1) ls) : Typed h (.load name :: ls) :=
  .cons rfl hh rfl ht

theorem Typed.drop {h : Int} {ls : List Line} (ht : Typed h ls) (n : Nat) :
    Typed (h + rise (ls.take n)) (ls.drop n) := by
  induction n generalizing h ls with
  | zero => simpa using ht
  | succ n ih =>
    cases ls with
    | nil => trivial
    | cons l ls => simpa [Int.add_assoc] using ih ht.2.2

theorem peak_drop_le (h : Int) (ls : List Line) (n : Nat) :
    peak (h + rise (ls.take n)) (ls.drop n) ≤ peak h ls := by
  induction n generalizing h ls with
  | zero => simp
  | succ n ih =>
    cases ls with
    | nil => simp [peak]
    | cons l ls =>
      have := ih (h + l.shift) ls
      simp only [List.take_succ_cons, rise_cons, List.drop_succ_cons, peak, ← Int.add_assoc]
      omega

/-! ## Lists that are cut off -/

@[simp] theorem pops_clip (most : Nat) (l : Line) : (l.clip most).pops = l.pops := by
  cases l <;> rfl

@[simp] theorem effect_clip (most : Nat) (l : Line) : (l.clip most).effect = l.effect := by
  cases l <;> rfl

@[simp] theorem shift_clip (most : Nat) (l : Line) : (l.clip most).shift = l.shift := by
  cases l <;> rfl

theorem skip?_clip (most : Nat) (l : Line) : (l.clip most).skip? = l.skip?.map (min · most) := by
  cases l <;> rfl

theorem length_cut (k : Nat) (ls : List Line) : (cut k ls).length = min k ls.length := by
  fun_induction cut k ls with
  | case1 => simp
  | case2 => simp
  | case3 k l ls ih =>
    rw [List.length_cons, List.length_cons, ih]
    omega

theorem rise_take_cut {n k : Nat} (h : n ≤ k) (ls : List Line) :
    rise ((cut k ls).take n) = rise (ls.take n) := by
  fun_induction cut k ls generalizing n with
  | case1 => simp [Nat.le_zero.1 h]
  | case2 => rfl
  | case3 k l ls ih =>
    cases n with
    | zero => rfl
    | succ n => simp [ih (Nat.le_of_succ_le_succ h)]

theorem peak_cut (h : Int) (k : Nat) (ls : List Line) : peak h (cut k ls) = peak h (ls.take k) := by
  fun_induction cut k ls generalizing h with
  | case1 => rfl
  | case2 => simp
  | case3 k l ls ih => simp [peak, ih]

/-- Lines that were cut off are well typed: a jump beyond the cut now goes to the end. -/
theorem Typed.cut {h : Int} {ls : List Line} (ht : Typed h ls) (k : Nat) :
    Typed h (Line.cut k ls) := by
  fun_induction Line.cut k ls generalizing h with
  | case1 => trivial
  | case2 => trivial
  | case3 k l ls ih =>
    obtain ⟨hpops, htarget, hrest⟩ := ht
    refine ⟨by simpa using hpops, ?_, by simpa using ih hrest⟩
    intro skip hskip hlt
    rw [skip?_clip, Option.mem_def, Option.map_eq_some_iff] at hskip
    obtain ⟨n, hn, rfl⟩ := hskip
    rw [length_cut] at hlt
    have hmin : min n k = n := by omega
    rw [hmin, rise_take_cut (by omega), effect_clip, shift_clip]
    exact htarget n hn (by omega)

end Line

/-! ## The lines of a tree -/

namespace Expr

open Line (Typed rise rise_cons rise_append)

variable (prefixes : List Text)

@[simp] theorem shift_call (callee : Text) (argc : Nat) :
    (Line.call prefixes callee argc).shift = 1 - argc := by
  rw [Line.call]
  split <;> rfl

mutual

/-- The code of a tree leaves one value. -/
theorem rise_lines (x : Expr) : rise (x.lines prefixes) = 1 := by
  cases x with
  | lit l => rfl
  | var name => rfl
  | field owner name => rfl
  | member target property =>
    simp only [lines, rise_append, rise_lines target]
    rfl
  | computed target key =>
    simp only [lines, rise_append, rise_lines target, rise_lines key]
    rfl
  | index target position =>
    simp only [lines, rise_append, rise_lines target, rise_lines position]
    rfl
  | binary op left right =>
    simp only [lines, rise_append, rise_lines left, rise_lines right]
    rfl
  | unary op operand =>
    simp only [lines, rise_append, rise_lines operand]
    rfl
  | cond test consequent alternate =>
    simp only [lines, rise_append, rise_cons, rise_lines test, rise_lines consequent,
      rise_lines alternate]
    rfl
  | call callee args =>
    simp only [lines, rise_append, rise_linesArgs args, rise_cons, shift_call, Line.rise_nil]
    omega
  | method receiver name args =>
    simp only [lines, rise_append, rise_lines receiver, rise_linesArgs args, rise_cons,
      Line.rise_nil, Line.shift, Line.effect, Line.pushes, Line.pops]
    omega
  | group inner => exact rise_lines inner
  | array elements =>
    simp only [lines, rise_append, rise_linesAll elements, rise_cons, Line.rise_nil, Line.shift,
      Line.effect, Line.pushes, Line.pops]
    omega
  | object properties =>
    simp only [lines, rise_append, rise_linesProperties properties, rise_cons, Line.rise_nil,
      Line.shift, Line.effect, Line.pushes, Line.pops]
    omega
  | unknown kind => rfl

theorem rise_linesArgs (xs : List Expr) : rise (linesArgs prefixes xs) = xs.length := by
  cases xs with
  | nil => rfl
  | cons x xs =>
    rw [linesArgs, rise_append, rise_linesArgs xs, rise_lines x]
    rfl

theorem rise_linesAll (xs : List Expr) : rise (linesAll prefixes xs) = xs.length := by
  cases xs with
  | nil => rfl
  | cons x xs =>
    rw [linesAll, rise_append, rise_lines x, rise_linesAll xs]
    exact Int.add_comm 1 xs.length

theorem rise_linesProperties (xs : List (Text × Expr)) :
    rise (linesProperties prefixes xs) = 2 * xs.length := by
  cases xs with
  | nil => rfl
  | cons p xs =>
    simp only [linesProperties, rise_cons, rise_append, rise_lines p.2, rise_linesProperties xs,
      List.length_cons, Line.shift, Line.effect, Line.pushes, Line.pops]
    omega

end

theorem length_lines_pos (x : Expr) : 0 < (x.lines prefixes).length := by
  refine List.length_pos_iff.2 fun hnil => ?_
  have hrise := rise_lines prefixes x
  rw [hnil] at hrise
  cases hrise

theorem skip?_call (callee : Text) (argc : Nat) :
    (Line.call prefixes callee argc).skip? = none := by
  rw [Line.call]
  split <;> rfl

theorem pops_call (callee : Text) (argc : Nat) :
    (Line.call prefixes callee argc).pops = argc := by
  rw [Line.call]
  split <;> rfl

/-- The two jumps of a conditional meet the heights of their targets. -/
theorem typed_cond {h : Int} {consequent alternate rest : List Line} (hh : 0 ≤ h)
    (hc : rise consequent = 1) (ha : rise alternate = 1)
    (htc : ∀ ls, Typed (h + 1) ls → Typed h (consequent ++ ls))
    (hta : Typed h (alternate ++ rest)) :
    Typed (h + 1) (.jumpIfFalse (consequent.length + 1) ::
      (consequent ++ .jump alternate.length :: (alternate ++ rest))) := by
  have hjump : Typed (h + 1) (.jump alternate.length :: (alternate ++ rest)) := by
    refine ⟨by simp only [Line.pops]; omega, ?_, ?_⟩
    · rintro skip ⟨⟩ -
      rw [List.take_left, ha]
      simp only [Line.shift, Line.effect, Line.pushes, Line.pops]
      omega
    · simpa only [Line.shift, Int.add_neg_cancel_right] using hta
  refine ⟨by simp only [Line.pops]; omega, ?_, ?_⟩
  · rintro skip ⟨⟩ -
    have htake : (consequent ++ .jump alternate.length :: (alternate ++ rest)).take
        (consequent.length + 1) = consequent ++ [.jump alternate.length] := by
      simp [List.take_append, List.take_of_length_le]
    rw [htake, rise_append, hc]
    simp only [rise_cons, Line.rise_nil, Line.shift, Line.effect, Line.pushes, Line.pops]
    omega
  · have hfall : h + 1 + (Line.jumpIfFalse (consequent.length + 1)).shift = h := by
      simp only [Line.shift, Line.effect, Line.pushes, Line.pops]
      omega
    rw [hfall]
    exact htc _ hjump

mutual

/-- The code of a tree is well typed in front of code that is, one value higher. -/
theorem typed_lines (x : Expr) {h : Int} {rest : List Line} (hh : 0 ≤ h)
    (ht : Typed (h + 1) rest) : Typed h (x.lines prefixes ++ rest) := by
  cases x with
  | lit l => exact .cons_push hh ht
  | var name => exact .cons_load hh ht
  | field owner name =>
    refine .cons_load hh ?_
    exact .cons rfl (by simp only [Line.pops]; omega) (Int.add_zero _) ht
  | member target property =>
    rw [lines, List.append_assoc]
    refine typed_lines target hh ?_
    exact .cons rfl (by simp only [Line.pops]; omega) (Int.add_zero _) ht
  | computed target key =>
    rw [lines, List.append_assoc, List.append_assoc]
    refine typed_lines target hh (typed_lines key (by omega) ?_)
    exact .cons rfl (by simp only [Line.pops]; omega) (Int.add_neg_cancel_right _ _) ht
  | index target position =>
    rw [lines, List.append_assoc, List.append_assoc]
    refine typed_lines target hh (typed_lines position (by omega) ?_)
    exact .cons rfl (by simp only [Line.pops]; omega) (Int.add_neg_cancel_right _ _) ht
  | binary op left right =>
    rw [lines, List.append_assoc, List.append_assoc]
    refine typed_lines left hh (typed_lines right (by omega) ?_)
    exact .cons rfl (by simp only [Line.pops]; omega) (Int.add_neg_cancel_right _ _) ht
  | unary op operand =>
    rw [lines, List.append_assoc]
    refine typed_lines operand hh ?_
    exact .cons rfl (by simp only [Line.pops]; omega) (Int.add_zero _) ht
  | cond test consequent alternate =>
    rw [lines, List.append_assoc, List.cons_append, List.append_assoc, List.cons_append]
    refine typed_lines test hh (typed_cond hh ?_ ?_ ?_ ?_)
    · exact rise_lines prefixes consequent
    · exact rise_lines prefixes alternate
    · exact fun ls hls => typed_lines consequent hh hls
    · exact typed_lines alternate hh ht
  | call callee args =>
    rw [lines, List.append_assoc]
    refine typed_linesArgs args hh (.cons (skip?_call ..) ?_ ?_ ht)
    · rw [pops_call]
      omega
    · rw [shift_call]
      omega
  | method receiver name args =>
    rw [lines, List.append_assoc, List.append_assoc]
    refine typed_lines receiver hh (typed_linesArgs args (by omega) (.cons rfl ?_ ?_ ht))
    · simp only [Line.pops]
      omega
    · simp only [Line.shift, Line.effect, Line.pushes, Line.pops]
      omega
  | group inner => exact typed_lines inner hh ht
  | array elements =>
    rw [lines, List.append_assoc]
    refine typed_linesAll elements hh (.cons rfl ?_ ?_ ht)
    · simp only [Line.pops]
      omega
    · simp only [Line.shift, Line.effect, Line.pushes, Line.pops]
      omega
  | object properties =>
    rw [lines, List.append_assoc]
    refine typed_linesProperties properties hh (.cons rfl ?_ ?_ ht)
    · simp only [Line.pops]
      omega
    · simp only [Line.shift, Line.effect, Line.pushes, Line.pops]
      omega
  | unknown kind => exact .cons_push hh ht

theorem typed_linesArgs (xs : List Expr) {h : Int} {rest : List Line} (hh : 0 ≤ h)
    (ht : Typed (h + xs.length) rest) : Typed h (linesArgs prefixes xs ++ rest) := by
  cases xs with
  | nil => exact Int.add_zero h ▸ ht
  | cons x xs =>
    rw [linesArgs, List.append_assoc]
    refine typed_linesArgs xs hh (typed_lines x (by omega) ?_)
    rwa [Int.add_assoc]

theorem typed_linesAll (xs : List Expr) {h : Int} {rest : List Line} (hh : 0 ≤ h)
    (ht : Typed (h + xs.length) rest) : Typed h (linesAll prefixes xs ++ rest) := by
  cases xs with
  | nil => exact Int.add_zero h ▸ ht
  | cons x xs =>
    rw [linesAll, List.append_assoc]
    refine typed_lines x hh (typed_linesAll xs (by omega) ?_)
    rwa [Int.add_assoc, Int.add_comm 1]

theorem typed_linesProperties (xs : List (Text × Expr)) {h : Int} {rest : List Line} (hh : 0 ≤ h)
    (ht : Typed (h + 2 * xs.length) rest) : Typed h (linesProperties prefixes xs ++ rest) := by
  cases xs with
  | nil => exact Int.add_zero h ▸ ht
  | cons p xs =>
    simp only [linesProperties, List.cons_append, List.append_assoc]
    refine .cons_push hh (typed_lines p.2 (by omega) (typed_linesProperties xs (by omega) ?_))
    have hlength : h + 2 * (p :: xs).length = h + 1 + 1 + 2 * xs.length := by
      rw [List.length_cons]
      omega
    rwa [← hlength]

end

end Expr

/-! ## What one line does to a context -/

namespace Context

/-- The context after `n` pops. -/
def popped : Nat → Context → Context
  | 0, c => c
  | n + 1, c => popped n c.pop.2

theorem popOnto_snd (vs : List Value) (n : Nat) (c : Context) :
    (popOnto vs n c).2 = c.popped n := by
  induction n generalizing vs c with
  | zero => rfl
  | succ n ih => exact ih (c.pop.1 :: vs) c.pop.2

theorem popped_succ (n : Nat) (c : Context) : c.popped (n + 1) = (c.popped n).pop.2 := by
  induction n generalizing c with
  | zero => rfl
  | succ n ih => exact ih c.pop.2

end Context

/-- All that a line can do: take its values and push one, take one and go one of two
    ways, or go its way. -/
theorem Line.perform_cases {env : Environment} (hq : env.Quiet) (l : Line) (c : Context) :
    (∃ s v, l.perform env c = .next 0 (((c.popped l.pops).withStore s).push env v) ∧
      l.pushes = 1 ∧ l.shift = l.effect) ∨
    (∃ skip ∈ l.skip?, (l.perform env c = .next 0 (c.popped l.pops) ∨
      l.perform env c = .next skip (c.popped l.pops)) ∧ l.pushes = 0 ∧ l.shift = l.effect) ∨
    (∃ skip ∈ l.skip?, l.perform env c = .next skip c ∧ l.effect = 0) := by
  cases l with
  | push l => exact .inl ⟨c.store, _, rfl, rfl, rfl⟩
  | load name => exact .inl ⟨c.store, _, rfl, rfl, rfl⟩
  | property name => exact .inl ⟨c.pop.2.store, _, rfl, rfl, rfl⟩
  | computed => exact .inl ⟨c.pop.2.pop.2.store, _, rfl, rfl, rfl⟩
  | index => exact .inl ⟨c.pop.2.pop.2.store, _, rfl, rfl, rfl⟩
  | binary op => exact .inl ⟨c.pop.2.pop.2.store, _, rfl, rfl, rfl⟩
  | unary op => exact .inl ⟨c.pop.2.store, _, rfl, rfl, rfl⟩
  | jumpIfFalse skip =>
    refine .inr (.inl ⟨skip, rfl, ?_, rfl, rfl⟩)
    simp only [perform]
    cases c.pop.1.isTruthy with
    | false => exact .inr rfl
    | true => exact .inl rfl
  | jump skip => exact .inr (.inr ⟨skip, rfl, rfl, rfl⟩)
  | callBuiltin name argc =>
    simp only [perform, Context.popArgs, Context.popMany, Context.popOnto_snd,
      Machine.callBuiltin_eq hq]
    exact .inl ⟨_, _, rfl, rfl, rfl⟩
  | callFunction name argc =>
    simp only [perform, Context.popArgs, Context.popMany, Context.popOnto_snd]
    exact .inl ⟨(c.popped argc).store, _, rfl, rfl, rfl⟩
  | callMethod name argc =>
    simp only [perform, Context.popArgs, Context.popMany, Context.popOnto_snd, pops,
      Context.popped_succ]
    exact .inl ⟨(c.popped argc).pop.2.store, _, rfl, rfl, rfl⟩
  | buildArray count =>
    simp only [perform, Context.popMany, Context.popOnto_snd]
    exact .inl ⟨(c.popped count).store, _, rfl, rfl, rfl⟩
  | buildObject count =>
    simp only [perform, Context.popMany, Context.popOnto_snd]
    exact .inl ⟨(c.popped (2 * count)).store, _, rfl, rfl, rfl⟩

/-! ## Contexts at a height -/

namespace Stack

@[simp] theorem size_push (s : Stack) (v : Value) : (s.push v).size = s.size + 1 := rfl

theorem exists_push (s : Stack) (h : 0 < s.size) : ∃ v t, s = push t v := by
  obtain ⟨items, size, hsize⟩ := s
  cases items with
  | nil =>
    subst hsize
    cases h
  | cons v items => exact ⟨v, ⟨items, items.length, rfl⟩, ext_items rfl⟩

end Stack

namespace Context

/-- The context has met no fault, and its stack has the height. -/
structure At (h : Int) (c : Context) : Prop where
  fault : c.fault = none
  size : (c.stack.size : Int) = h

/-- The stack has reached the height, or has overflowed because its room ends below. -/
def Reached (env : Environment) (h : Int) (c : Context) : Prop :=
  c.At h ∨ (env.room : Int) < h ∧ c.fault = some (.stackOverflow env.maxStack)

variable {env : Environment} {c : Context} {h : Int} {f : Fault}

theorem push_of_lt (v : Value) (hlt : c.stack.size < env.room) :
    c.push env v = { c with stack := c.stack.push v } := by
  rw [Environment.room] at hlt
  exact if_neg (by omega)

theorem push_of_le (v : Value) (hle : env.room ≤ c.stack.size) :
    c.push env v = c.fail (.stackOverflow env.maxStack) := by
  rw [Environment.room] at hle
  exact if_pos (by omega)

theorem fail_of_none (hc : c.fault = none) : (c.fail f).fault = some f := by
  simp only [fail, hc]

theorem fail_of_some {g : Fault} (hc : c.fault = some f) : c.fail g = c := by
  simp only [fail, hc]

theorem At.push (hc : c.At h) (v : Value) : (c.push env v).Reached env (h + 1) := by
  by_cases hroom : c.stack.size < env.room
  · rw [push_of_lt v hroom]
    exact .inl ⟨hc.fault, by rw [← hc.size]; rfl⟩
  · rw [push_of_le v (Nat.le_of_not_lt hroom)]
    have := hc.size
    exact .inr ⟨by omega, fail_of_none hc.fault⟩

theorem At.pop (hc : c.At h) (hh : 1 ≤ h) : c.pop.2.At (h - 1) := by
  have hsize := hc.size
  obtain ⟨v, stack, hstack⟩ := c.stack.exists_push (by omega)
  have hpop : c.pop.2 = { c with stack } := by simp only [Context.pop, hstack, Stack.pop?_push]
  rw [hstack, Stack.size_push] at hsize
  rw [hpop]
  exact ⟨hc.fault, show (stack.size : Int) = h - 1 by omega⟩

theorem At.popped {n : Nat} (hc : c.At h) (hn : (n : Int) ≤ h) : (c.popped n).At (h - n) := by
  induction n generalizing c h with
  | zero => exact (Int.sub_zero h).symm ▸ hc
  | succ n ih =>
    have hrest := ih (hc.pop (by omega)) (by omega)
    have hheight : h - 1 - n = h - (n + 1 : Nat) := by omega
    exact hheight ▸ hrest

/-- A fault stays. -/
theorem fault_push (v : Value) (hc : c.fault = some f) : (c.push env v).fault = some f := by
  rw [push]
  split
  · rw [fail_of_some hc, hc]
  · exact hc

theorem fault_pop (hc : c.fault = some f) : c.pop.2.fault = some f := by
  rw [pop]
  split
  · exact hc
  · rw [fail_of_some hc, hc]

theorem fault_popped (n : Nat) (hc : c.fault = some f) : (c.popped n).fault = some f := by
  induction n generalizing c with
  | zero => exact hc
  | succ n ih => exact ih (fault_pop hc)

end Context

/-! ## Runs -/

namespace Machine

open Line (Typed rise peak)

variable {env : Environment} {c : Context} {h : Int} {f : Fault}

/-- A line at its height leads to the height behind it. -/
theorem perform_at (hq : env.Quiet) {l : Line} (hc : c.At h) (hpops : (l.pops : Int) ≤ h) :
    ∃ skip c', l.perform env c = .next skip c' ∧ c'.Reached env (h + l.effect) ∧
      (skip = 0 ∧ l.shift = l.effect ∨ skip ∈ l.skip?) := by
  rcases l.perform_cases hq c with ⟨s, v, hnext, hpush, hshift⟩ |
    ⟨skip, hskip, hnext, hpush, hshift⟩ | ⟨skip, hskip, hnext, heffect⟩
  · refine ⟨0, _, hnext, ?_, .inl ⟨rfl, hshift⟩⟩
    have hpopped := hc.popped hpops
    have hat : ((c.popped l.pops).withStore s).At (h - l.pops) := ⟨hpopped.fault, hpopped.size⟩
    have hheight : h - l.pops + 1 = h + l.effect := by
      rw [Line.effect, hpush]
      omega
    exact hheight ▸ hat.push v
  · have hheight : h - l.pops = h + l.effect := by
      rw [Line.effect, hpush]
      omega
    have hat : (c.popped l.pops).Reached env (h + l.effect) := .inl (hheight ▸ hc.popped hpops)
    rcases hnext with hnext | hnext
    · exact ⟨0, _, hnext, hat, .inl ⟨rfl, hshift⟩⟩
    · exact ⟨skip, _, hnext, hat, .inr hskip⟩
  · refine ⟨skip, c, hnext, .inl ?_, .inr hskip⟩
    rwa [heffect, Int.add_zero]

theorem perform_fault (hq : env.Quiet) (l : Line) (hc : c.fault = some f) :
    ∃ skip c', l.perform env c = .next skip c' ∧ c'.fault = some f := by
  rcases l.perform_cases hq c with ⟨s, v, hnext, -⟩ | ⟨skip, -, hnext | hnext, -⟩ |
    ⟨skip, -, hnext, -⟩
  · exact ⟨0, _, hnext, Context.fault_push v (Context.fault_popped _ hc)⟩
  · exact ⟨0, _, hnext, Context.fault_popped _ hc⟩
  · exact ⟨skip, _, hnext, Context.fault_popped _ hc⟩
  · exact ⟨skip, c, hnext, hc⟩

/-- After a fault a run goes to its end with that fault. -/
theorem runLines_fault (hq : env.Quiet) (ls : List Line) (hc : c.fault = some f) :
    ∃ c', runLines env ls c = (none, c') ∧ c'.fault = some f := by
  fun_induction runLines env ls c with
  | case1 c => exact ⟨c, rfl, hc⟩
  | case2 l ls c skip c' hnext ih =>
    obtain ⟨skip', c'', hnext', hfault⟩ := perform_fault hq l hc
    rw [hnext] at hnext'
    cases hnext'
    exact ih hfault
  | case3 l ls c c' hstop =>
    obtain ⟨skip', c'', hnext', -⟩ := perform_fault hq l hc
    rw [hstop] at hnext'
    cases hnext'
  | case4 l ls c message c' hraise =>
    obtain ⟨skip', c'', hnext', -⟩ := perform_fault hq l hc
    rw [hraise] at hnext'
    cases hnext'

/-- A run of well-typed lines ends. It meets no fault, unless it overflows because the
    stack has less room than the highest point of the lines. -/
theorem runLines_typed (hq : env.Quiet) {ls : List Line} (hc : c.At h) (ht : Typed h ls) :
    ∃ c', runLines env ls c = (none, c') ∧
      (c'.fault = none ∨
        env.room < peak h ls ∧ c'.fault = some (.stackOverflow env.maxStack)) := by
  fun_induction runLines env ls c generalizing h with
  | case1 c => exact ⟨c, rfl, .inl hc.fault⟩
  | case2 l ls c skip c' hnext ih =>
    obtain ⟨skip', c'', hnext', hreached, hskip⟩ := perform_at hq hc ht.1
    rw [hnext] at hnext'
    cases hnext'
    rcases hreached with hat | ⟨hroom, hfault⟩
    · -- Control goes on at a line whose height is the one reached, or behind all lines.
      have htarget : skip < ls.length → h + l.effect = h + l.shift + rise (ls.take skip) := by
        rcases hskip with ⟨rfl, hshift⟩ | hskip
        · intro _
          simp [hshift]
        · exact ht.2.1 skip hskip
      by_cases hlt : skip < ls.length
      · rw [htarget hlt] at hat
        have hle := Line.peak_drop_le (h + l.shift) ls skip
        obtain ⟨c'', hrun, hfault⟩ := ih hat (ht.2.2.drop skip)
        refine ⟨c'', hrun, hfault.imp_right (And.imp_left fun hlt => ?_)⟩
        exact Nat.lt_of_lt_of_le hlt (Nat.le_trans hle (Nat.le_max_right _ _))
      · rw [List.drop_eq_nil_of_le (Nat.le_of_not_lt hlt), runLines]
        exact ⟨c', rfl, .inl hat.fault⟩
    · obtain ⟨c'', hrun, hfault'⟩ := runLines_fault hq (ls.drop skip) hfault
      refine ⟨c'', hrun, .inr ⟨?_, hfault'⟩⟩
      exact Nat.lt_of_lt_of_le (by omega) (Nat.le_max_left _ _)
  | case3 l ls c c' hstop =>
    obtain ⟨skip', c'', hnext', -⟩ := perform_at hq hc ht.1
    rw [hstop] at hnext'
    cases hnext'
  | case4 l ls c message c' hraise =>
    obtain ⟨skip', c'', hnext', -⟩ := perform_at hq hc ht.1
    rw [hraise] at hnext'
    cases hnext'

end Machine

end Reckon
