-- SUMMARY: The lines of a tree compute what evaluation gives, or overflow exactly if evaluation holds too many values.
import Reckon.Proofs.Heights

/-!
# Lines compute the values of trees

Running the lines of a tree, in front of any other lines, pushes the value of
the tree and changes the store as evaluation does, provided that the stack has
room for the values that evaluation holds at once. If it has not, the run
overflows.
-/

namespace Reckon

/-! ## Contexts of a run -/

/-- The context of a run that has met no fault. -/
def Store.running (s : Store) (stack : Stack) : Context :=
  { locals := s.locals, stack, used := true, log := s.log }

namespace Stack

/-- The stack with values on top of it, the first one topmost. -/
def above (st : Stack) (vs : List Value) : Stack :=
  ⟨vs ++ st.items, st.size + vs.length, by simp [st.size_eq, Nat.add_comm]⟩

@[simp] theorem size_above (st : Stack) (vs : List Value) :
    (st.above vs).size = st.size + vs.length := rfl

theorem above_nil (st : Stack) : st.above [] = st := ext_items rfl

theorem above_cons (st : Stack) (v : Value) (vs : List Value) :
    st.above (v :: vs) = (st.above vs).push v := ext_items rfl

/-- What was pushed last to first is above in order. -/
theorem above_push (st : Stack) (v : Value) (vs : List Value) :
    st.above (v :: vs).reverse = (st.push v).above vs.reverse :=
  ext_items (by simp [above])

end Stack

namespace Context

@[simp] theorem pop_running (s : Store) (st : Stack) (v : Value) :
    (s.running (st.push v)).pop = (v, s.running st) := by
  simp only [pop, Store.running, Stack.pop?_push]

theorem popOnto_running (s : Store) (st : Stack) (popped vs : List Value) :
    popOnto popped vs.length (s.running (st.above vs)) = (vs.reverse ++ popped, s.running st) := by
  induction vs generalizing popped with
  | nil => rw [Stack.above_nil]; rfl
  | cons v vs ih =>
    rw [Stack.above_cons, List.length_cons, popOnto, pop_running]
    simp only [ih, List.reverse_cons, List.append_assoc, List.singleton_append]

theorem popMany_running (s : Store) (st : Stack) (vs : List Value) :
    (s.running (st.above vs.reverse)).popMany vs.length = (vs, s.running st) := by
  have hpop := popOnto_running s st [] vs.reverse
  rwa [List.length_reverse, List.reverse_reverse, List.append_nil] at hpop

theorem popArgs_running (s : Store) (st : Stack) (vs : List Value) :
    (s.running (st.above vs)).popArgs vs.length = (vs, s.running st) := by
  have hpop := popMany_running s st vs.reverse
  rw [List.reverse_reverse, List.length_reverse] at hpop
  simp only [popArgs, hpop, List.reverse_reverse]

end Context

/-- Keys and values that were pushed in turn make the object that they are written to. -/
theorem Machine.objectOf_flatMap (pairs : List (Text × Value)) (entries : Entries Value) :
    objectOf (pairs.flatMap fun p => [.string p.1, p.2]) entries =
      pairs.foldl (fun es p => Entries.insert es p.1 p.2) entries := by
  induction pairs generalizing entries with
  | nil => rfl
  | cons p pairs ih => exact ih (Entries.insert entries p.1 p.2)

theorem Machine.length_pushed (pairs : List (Text × Value)) :
    (pairs.flatMap fun p => [.string p.1, p.2]).length = 2 * pairs.length := by
  induction pairs with
  | nil => rfl
  | cons p pairs ih =>
    rw [List.flatMap_cons, List.length_append, ih, List.length_cons]
    simp only [List.length_cons, List.length_nil]
    omega

/-! ## Lines that compute -/

namespace Machine

/-- In front of any lines, these lines lead from one context to another, holding up to
    `peak` values on the stack; without room for that many they overflow. -/
structure Computes (env : Environment) (ls : List Line) (c : Context) (peak : Nat) (c' : Context) :
    Prop where
  run : peak ≤ env.room → ∀ rest, runLines env (ls ++ rest) c = runLines env rest c'
  overflow : env.room < peak → ∀ rest, ∃ c'', runLines env (ls ++ rest) c = (none, c'') ∧
    c''.fault = some (.stackOverflow env.maxStack)

namespace Computes

variable {env : Environment} {ls ls' : List Line} {c c' c'' : Context} {m m' : Nat}

theorem nil : Computes env [] c 0 c :=
  ⟨fun _ _ => rfl, fun h => absurd h (Nat.not_lt_zero _)⟩

theorem append (h : Computes env ls c m c') (h' : Computes env ls' c' m' c'') :
    Computes env (ls ++ ls') c (max m m') c'' := by
  refine ⟨fun hroom rest => ?_, fun hroom rest => ?_⟩
  · rw [List.append_assoc, h.run (Nat.le_trans (Nat.le_max_left m m') hroom),
      h'.run (Nat.le_trans (Nat.le_max_right m m') hroom)]
  · rw [List.append_assoc]
    by_cases hfirst : m ≤ env.room
    · rw [h.run hfirst]
      exact h'.overflow (by omega) rest
    · exact h.overflow (Nat.lt_of_not_le hfirst) _

/-- A line that pushes one value. -/
theorem push (hq : env.Quiet) {l : Line} {s : Store} {st : Stack} {v : Value}
    (h : l.perform env c = .next 0 ((s.running st).push env v)) :
    Computes env [l] c (st.size + 1) (s.running (st.push v)) := by
  have hnext : ∀ rest, runLines env ([l] ++ rest) c =
      runLines env rest ((s.running st).push env v) := fun rest => runLines_next rest h
  refine ⟨fun hroom rest => ?_, fun hroom rest => ?_⟩
  · have hlt : (s.running st).stack.size < env.room := hroom
    rw [hnext, Context.push_of_lt v hlt]
    rfl
  · have hle : env.room ≤ (s.running st).stack.size := Nat.le_of_lt_succ hroom
    rw [hnext, Context.push_of_le v hle]
    exact runLines_fault hq rest (Context.fail_of_none rfl)

/-- Weakens the bound by what is held anyway. -/
theorem of_le (h : Computes env ls c (max m m') c') (hle : m' ≤ m) : Computes env ls c m c' :=
  Nat.max_eq_left hle ▸ h

theorem of_le_left (h : Computes env ls c (max m' m) c') (hle : m' ≤ m) : Computes env ls c m c' :=
  Nat.max_eq_right hle ▸ h

/-- A line that replaces the value of an operand. -/
theorem unary (hq : env.Quiet) {l : Line} {s s' : Store} {st : Stack} {a v : Value}
    (ha : Computes env ls (s.running st) m (s'.running (st.push a))) (hm : st.size < m)
    (hl : l.perform env (s'.running (st.push a)) = .next 0 ((s'.running st).push env v)) :
    Computes env (ls ++ [l]) (s.running st) m (s'.running (st.push v)) :=
  (ha.append (.push hq hl)).of_le hm

/-- A line that replaces the values of two operands. -/
theorem binary (hq : env.Quiet) {l : Line} {s s' s'' : Store} {st : Stack} {a b v : Value}
    (ha : Computes env ls (s.running st) m (s'.running (st.push a))) (hm : st.size < m)
    (hb : Computes env ls' (s'.running (st.push a)) m' (s''.running ((st.push a).push b)))
    (hl : l.perform env (s''.running ((st.push a).push b)) =
      .next 0 ((s''.running st).push env v)) :
    Computes env (ls ++ (ls' ++ [l])) (s.running st) (max m m') (s''.running (st.push v)) := by
  rw [← List.append_assoc]
  exact ((ha.append hb).append (.push hq hl)).of_le (Nat.le_trans hm (Nat.le_max_left m m'))

/-- A conditional whose test holds computes its first arm and passes over the second. -/
theorem consequent {s : Store} {st : Stack} {v : Value} (hv : v.isTruthy = true)
    (h : Computes env ls (s.running st) m c') :
    Computes env (.jumpIfFalse (ls.length + 1) :: (ls ++ .jump ls'.length :: ls'))
      (s.running (st.push v)) m c' := by
  have htest : (Line.jumpIfFalse (ls.length + 1)).perform env (s.running (st.push v)) =
      .next 0 (s.running st) := by
    simp only [Line.perform, Context.pop_running, hv, if_true]
  have hstart : ∀ rest, runLines env (.jumpIfFalse (ls.length + 1) ::
      (ls ++ .jump ls'.length :: ls') ++ rest) (s.running (st.push v)) =
      runLines env (ls ++ .jump ls'.length :: (ls' ++ rest)) (s.running st) := by
    intro rest
    rw [List.cons_append, runLines_next _ htest, List.append_assoc, List.cons_append,
      List.drop_zero]
  have hend : ∀ rest, runLines env (.jump ls'.length :: (ls' ++ rest)) c' =
      runLines env rest c' := by
    intro rest
    have hjump : (Line.jump ls'.length).perform env c' = .next ls'.length c' := rfl
    rw [runLines_next _ hjump, List.drop_left]
  refine ⟨fun hroom rest => ?_, fun hroom rest => ?_⟩
  · rw [hstart, h.run hroom, hend]
  · rw [hstart]
    exact h.overflow hroom _

/-- A conditional whose test does not hold passes over its first arm. -/
theorem alternate {s : Store} {st : Stack} {v : Value} (hv : v.isTruthy = false)
    (h : Computes env ls' (s.running st) m c') :
    Computes env (.jumpIfFalse (ls.length + 1) :: (ls ++ .jump ls'.length :: ls'))
      (s.running (st.push v)) m c' := by
  have htest : (Line.jumpIfFalse (ls.length + 1)).perform env (s.running (st.push v)) =
      .next (ls.length + 1) (s.running st) := by
    simp only [Line.perform, Context.pop_running, hv, Bool.false_eq_true, if_false]
  have hstart : ∀ rest, runLines env (.jumpIfFalse (ls.length + 1) ::
      (ls ++ .jump ls'.length :: ls') ++ rest) (s.running (st.push v)) =
      runLines env (ls' ++ rest) (s.running st) := by
    intro rest
    rw [List.cons_append, runLines_next _ htest, List.append_assoc, List.cons_append,
      ← List.drop_drop, List.drop_left, List.drop_one, List.tail_cons]
  refine ⟨fun hroom rest => ?_, fun hroom rest => ?_⟩
  · rw [hstart, h.run hroom]
  · rw [hstart]
    exact h.overflow hroom _

end Computes

end Machine

/-! ## Trees -/

namespace Expr

open Machine (Computes)

variable {env : Environment} (prefixes : List Text)

theorem perform_method (env : Environment) (name : Text) (s : Store) (st : Stack) (v : Value) (vs : List Value) :
    (Line.callMethod name vs.length).perform env (s.running ((st.push v).above vs)) =
      .next 0 ((s.running st).push env (v.callMethod name vs)) := by
  simp only [Line.perform, Context.popArgs_running, Context.pop_running]

theorem perform_array (env : Environment) (s : Store) (st : Stack) (vs : List Value) :
    (Line.buildArray vs.length).perform env (s.running (st.above vs.reverse)) =
      .next 0 ((s.running st).push env (.array vs)) := by
  simp only [Line.perform, Context.popMany_running]

theorem perform_object (env : Environment) (s : Store) (st : Stack) (entries : List (Text × Value)) :
    (Line.buildObject entries.length).perform env
        (s.running (st.above (entries.flatMap fun p => [.string p.1, p.2]).reverse)) =
      .next 0 ((s.running st).push env (.object (Entries.ofList entries))) := by
  have hpop := Context.popMany_running s st (entries.flatMap fun p => [.string p.1, p.2])
  rw [Machine.length_pushed] at hpop
  simp only [Line.perform, hpop, Machine.objectOf_flatMap]
  rfl

theorem perform_call (hq : env.Quiet) (callee : Text) (s : Store) (st : Stack) (vs : List Value) :
    (Line.call prefixes callee vs.length).perform env (s.running (st.above vs)) =
      let (v, s') := if prefixes.any callee.startsWith then s.call env callee vs st.size
        else (.null, s)
      .next 0 ((s'.running st).push env v) := by
  rw [Line.call]
  split
  · simp only [Line.perform, Context.popArgs_running, Machine.callBuiltin_eq hq]
    rfl
  · simp only [Line.perform, Context.popArgs_running]

mutual

/-- The lines of a tree compute its value. -/
theorem computes_lines (hq : env.Quiet) (x : Expr) (s : Store) (st : Stack) :
    Computes env (x.lines prefixes) (s.running st) (x.peak env prefixes st.size s)
      ((x.eval env prefixes st.size s).2.running (st.push (x.eval env prefixes st.size s).1)) := by
  cases x with
  | lit l => exact .push hq rfl
  | var name => exact .push hq rfl
  | field owner name =>
    have howner : Computes env [.load owner] (s.running st) (st.size + 1)
        (s.running (st.push (s.resolve env owner))) := .push hq rfl
    refine .unary hq howner (Nat.lt_succ_self _) ?_
    simp only [Line.perform, Context.pop_running]
    rfl
  | member target property =>
    refine .unary hq (computes_lines hq target s st) (lt_peak target _ s) ?_
    simp only [Line.perform, Context.pop_running]
    rfl
  | computed target key =>
    refine .binary hq (computes_lines hq target s st) (lt_peak target _ s)
      (computes_lines hq key _ _) ?_
    simp only [Line.perform, Context.pop_running]
    rfl
  | index target position =>
    refine .binary hq (computes_lines hq target s st) (lt_peak target _ s)
      (computes_lines hq position _ _) ?_
    simp only [Line.perform, Context.pop_running]
    rfl
  | binary op left right =>
    refine .binary hq (computes_lines hq left s st) (lt_peak left _ s)
      (computes_lines hq right _ _) ?_
    simp only [Line.perform, Context.pop_running]
    rfl
  | unary op operand =>
    refine .unary hq (computes_lines hq operand s st) (lt_peak operand _ s) ?_
    simp only [Line.perform, Context.pop_running]
    rfl
  | cond test consequent alternate =>
    refine (computes_lines hq test s st).append ?_
    simp only [eval]
    cases hv : (test.eval env prefixes st.size s).1.isTruthy with
    | true => exact .consequent hv (computes_lines hq consequent _ st)
    | false => exact .alternate hv (computes_lines hq alternate _ st)
  | call callee args =>
    have hargs := computes_linesArgs hq args s st
    have hcall := perform_call prefixes hq callee (evalArgs env prefixes args st.size s).2 st
      (evalArgs env prefixes args st.size s).1
    rw [length_evalArgs] at hcall
    exact hargs.append (.push hq hcall)
  | method receiver name args =>
    have hreceiver := computes_lines hq receiver s st
    have hargs := computes_linesArgs hq args (receiver.eval env prefixes st.size s).2
      (st.push (receiver.eval env prefixes st.size s).1)
    have hmethod := perform_method env name
      (evalArgs env prefixes args (st.size + 1) (receiver.eval env prefixes st.size s).2).2 st
      (receiver.eval env prefixes st.size s).1
      (evalArgs env prefixes args (st.size + 1) (receiver.eval env prefixes st.size s).2).1
    rw [length_evalArgs] at hmethod
    rw [lines, ← List.append_assoc]
    exact ((hreceiver.append hargs).append (.push hq hmethod)).of_le
      (Nat.le_trans (lt_peak receiver _ s) (Nat.le_max_left _ _))
  | group inner => exact computes_lines hq inner s st
  | array elements =>
    have hall := computes_linesAll hq elements s st
    have harray := perform_array env (evalAll env prefixes elements st.size s).2 st
      (evalAll env prefixes elements st.size s).1
    rw [length_evalAll] at harray
    exact hall.append (.push hq harray)
  | object properties =>
    have hproperties := computes_linesProperties hq properties s st
    have hobject := perform_object env
      (evalProperties env prefixes properties st.size s).2 st
      (evalProperties env prefixes properties st.size s).1
    rw [length_evalProperties] at hobject
    exact hproperties.append (.push hq hobject)
  | unknown kind => exact .push hq rfl

theorem computes_linesArgs (hq : env.Quiet) (xs : List Expr) (s : Store) (st : Stack) :
    Computes env (linesArgs prefixes xs) (s.running st) (peakArgs env prefixes xs st.size s)
      ((evalArgs env prefixes xs st.size s).2.running
        (st.above (evalArgs env prefixes xs st.size s).1)) := by
  cases xs with
  | nil => exact st.above_nil.symm ▸ .nil
  | cons x xs =>
    have hx := computes_lines hq x (evalArgs env prefixes xs st.size s).2
      (st.above (evalArgs env prefixes xs st.size s).1)
    rw [Stack.size_above, length_evalArgs, ← Stack.above_cons] at hx
    exact (computes_linesArgs hq xs s st).append hx

theorem computes_linesAll (hq : env.Quiet) (xs : List Expr) (s : Store) (st : Stack) :
    Computes env (linesAll prefixes xs) (s.running st) (peakAll env prefixes xs st.size s)
      ((evalAll env prefixes xs st.size s).2.running
        (st.above (evalAll env prefixes xs st.size s).1.reverse)) := by
  cases xs with
  | nil => exact st.above_nil.symm ▸ .nil
  | cons x xs =>
    have hall := computes_linesAll hq xs (x.eval env prefixes st.size s).2
      (st.push (x.eval env prefixes st.size s).1)
    rw [← Stack.above_push] at hall
    exact (computes_lines hq x s st).append hall

theorem computes_linesProperties (hq : env.Quiet) (xs : List (Text × Expr)) (s : Store)
    (st : Stack) :
    Computes env (linesProperties prefixes xs) (s.running st)
      (peakProperties env prefixes xs st.size s)
      ((evalProperties env prefixes xs st.size s).2.running
        (st.above ((evalProperties env prefixes xs st.size s).1.flatMap fun p =>
          [.string p.1, p.2]).reverse)) := by
  cases xs with
  | nil => exact st.above_nil.symm ▸ .nil
  | cons p xs =>
    have hkey : Computes env [.push (.string p.1)] (s.running st) (st.size + 1)
        (s.running (st.push (.string p.1))) := .push hq rfl
    have hx := computes_lines hq p.2 s (st.push (.string p.1))
    have hrest := computes_linesProperties hq xs (p.2.eval env prefixes (st.size + 1) s).2
      ((st.push (.string p.1)).push (p.2.eval env prefixes (st.size + 1) s).1)
    rw [← Stack.above_push, ← Stack.above_push] at hrest
    refine (hkey.append (hx.append hrest)).of_le_left ?_
    exact Nat.le_trans (Nat.le_of_lt (lt_peak p.2 _ s)) (Nat.le_max_left _ _)

end

end Expr

end Reckon
