-- SUMMARY: Folding constants keeps the value of a tree and does not make its evaluation or its code larger.
import Reckon.Proofs.Encoding
import Reckon.Proofs.Heights

/-!
# Folding and evaluation

Operators give scalar values only, and a scalar value is the value of the
literal that folding puts in the place of the operator. So a folded tree has the
value of the tree. It calls the same builtins at the same depths, holds no more
values at once and has no more lines.
-/

namespace Reckon

/-! ## Literals of results -/

namespace Literal

theorem value_ofValue? (l : Literal) : ∃ l', ofValue? l.value = some l' ∧ l'.value = l.value := by
  cases l with
  | int n =>
    refine ⟨.int (wrap64 n), rfl, ?_⟩
    show Value.int (wrap64 (wrap64 n)) = .int (wrap64 n)
    rw [wrap64_wrap64]
  | float x => exact ⟨.float x, rfl, rfl⟩
  | string s => exact ⟨.string s, rfl, rfl⟩
  | bool b => exact ⟨.bool b, rfl, rfl⟩
  | null => exact ⟨.null, rfl, rfl⟩

end Literal

/-- The value of a literal. -/
def Value.IsScalar (v : Value) : Prop := ∃ l : Literal, l.value = v

namespace Value

theorem isScalar_ofOption (n? : Option Int) : IsScalar (n?.elim .null ofInt) := by
  cases n? with
  | none => exact ⟨.null, rfl⟩
  | some n => exact ⟨.int n, rfl⟩

theorem isScalar_arithmetic (onInts : Int → Int → Option Int)
    (onFloats : Double → Double → Option Double) (a b : Value) :
    IsScalar (arithmetic onInts onFloats a b) := by
  have hfloats : ∀ x? : Option Double, IsScalar (x?.elim .null .float) := by
    intro x?
    cases x? with
    | none => exact ⟨.null, rfl⟩
    | some x => exact ⟨.float x, rfl⟩
  unfold arithmetic
  split
  · exact isScalar_ofOption _
  · split
    · exact hfloats _
    · exact ⟨.null, rfl⟩

end Value

/-- Operators give scalar values. -/
theorem BinaryOp.isScalar_apply (op : BinaryOp) (a b : Value) : (op.apply a b).IsScalar := by
  cases op with
  | add =>
    simp only [apply, Value.add]
    split
    · exact ⟨.string _, rfl⟩
    · exact Value.isScalar_arithmetic _ _ a b
  | sub => exact Value.isScalar_arithmetic _ _ a b
  | mul => exact Value.isScalar_arithmetic _ _ a b
  | div => exact Value.isScalar_arithmetic _ _ a b
  | mod => exact Value.isScalar_arithmetic _ _ a b
  | concat => exact ⟨.string _, rfl⟩
  | eq => exact ⟨.bool _, rfl⟩
  | ne => exact ⟨.bool _, rfl⟩
  | lt => exact ⟨.bool _, rfl⟩
  | le => exact ⟨.bool _, rfl⟩
  | gt => exact ⟨.bool _, rfl⟩
  | ge => exact ⟨.bool _, rfl⟩
  | and => exact ⟨.bool _, rfl⟩
  | or => exact ⟨.bool _, rfl⟩

theorem UnaryOp.isScalar_apply (op : UnaryOp) (a : Value) : (op.apply a).IsScalar := by
  cases op with
  | negate =>
    unfold apply
    split
    · exact ⟨.int _, rfl⟩
    · exact ⟨.float _, rfl⟩
    · exact ⟨.null, rfl⟩
    · contradiction
    · contradiction
  | not => exact ⟨.bool _, rfl⟩
  | typeOf => exact ⟨.string _, rfl⟩

namespace Expr

/-! ## Single nodes -/

/-- An operator over literals folds to a literal of its result; else it stays. -/
theorem foldBinary_cases (op : BinaryOp) (left right : Expr) :
    (∃ a b l, left = .lit a ∧ right = .lit b ∧ foldBinary op left right = .lit l ∧
      l.value = op.apply a.value b.value) ∨
    foldBinary op left right = .binary op left right := by
  unfold foldBinary
  split
  next a b =>
    obtain ⟨l, hl⟩ := op.isScalar_apply a.value b.value
    obtain ⟨l', hl', hvalue⟩ := l.value_ofValue?
    refine .inl ⟨a, b, l', rfl, rfl, ?_, hvalue.trans hl⟩
    rw [← hl, hl', Option.elim]
  next => exact .inr rfl

theorem foldUnary_cases (op : UnaryOp) (operand : Expr) :
    (∃ a l, operand = .lit a ∧ foldUnary op operand = .lit l ∧ l.value = op.apply a.value) ∨
    foldUnary op operand = .unary op operand := by
  unfold foldUnary
  split
  next a =>
    obtain ⟨l, hl⟩ := op.isScalar_apply a.value
    obtain ⟨l', hl', hvalue⟩ := l.value_ofValue?
    refine .inl ⟨a, l', rfl, ?_, hvalue.trans hl⟩
    rw [← hl, hl', Option.elim]
  next => exact .inr rfl

/-- A conditional over a literal folds to an arm; else it stays. -/
theorem fold_cond (test consequent alternate : Expr) :
    (∃ l, test.fold = .lit l ∧ (cond test consequent alternate).fold =
      if l.value.isTruthy then consequent.fold else alternate.fold) ∨
    (cond test consequent alternate).fold = .cond test.fold consequent.fold alternate.fold := by
  simp only [fold]
  split
  next l hl => exact .inl ⟨l, hl, rfl⟩
  next => exact .inr rfl

theorem length_foldAll (xs : List Expr) : (foldAll xs).length = xs.length := by
  induction xs with
  | nil => rfl
  | cons x xs ih => rw [foldAll, List.length_cons, ih, List.length_cons]

/-! ## Values -/

section

variable {env : Environment} {prefixes : List Text}

mutual

/-- A folded tree has the value of the tree, and evaluating it has the same effects. -/
theorem eval_fold (x : Expr) (d : Nat) (s : Store) :
    x.fold.eval env prefixes d s = x.eval env prefixes d s := by
  cases x with
  | lit l => rfl
  | var name => rfl
  | field owner name => rfl
  | member target property => simp only [fold, eval, eval_fold target]
  | computed target key => simp only [fold, eval, eval_fold target, eval_fold key]
  | index target position => simp only [fold, eval, eval_fold target, eval_fold position]
  | binary op left right =>
    have hnode : (binary op left.fold right.fold).eval env prefixes d s =
        (binary op left right).eval env prefixes d s := by
      simp only [eval, eval_fold left, eval_fold right]
    rw [fold]
    rcases foldBinary_cases op left.fold right.fold with ⟨a, b, l, ha, hb, hfold, hvalue⟩ | hfold
    · rw [← hnode, hfold, ha, hb]
      simp only [eval, hvalue]
    · rw [hfold, hnode]
  | unary op operand =>
    have hnode : (unary op operand.fold).eval env prefixes d s =
        (unary op operand).eval env prefixes d s := by
      simp only [eval, eval_fold operand]
    rw [fold]
    rcases foldUnary_cases op operand.fold with ⟨a, l, ha, hfold, hvalue⟩ | hfold
    · rw [← hnode, hfold, ha]
      simp only [eval, hvalue]
    · rw [hfold, hnode]
  | cond test consequent alternate =>
    have hnode : (cond test.fold consequent.fold alternate.fold).eval env prefixes d s =
        (cond test consequent alternate).eval env prefixes d s := by
      simp only [eval, eval_fold test, eval_fold consequent, eval_fold alternate]
    rcases fold_cond test consequent alternate with ⟨l, hl, hfold⟩ | hfold
    · rw [← hnode, hfold, hl]
      exact apply_ite (fun x => eval env prefixes x d s) _ _ _
    · rw [hfold, hnode]
  | call callee args => simp only [fold, eval, evalArgs_foldAll args]
  | method receiver name args => simp only [fold, eval, eval_fold receiver, evalArgs_foldAll args]
  | group inner => exact eval_fold inner d s
  | array elements => simp only [fold, eval, evalAll_foldAll elements]
  | object properties => simp only [fold, eval, evalProperties_foldProperties properties]
  | unknown kind => rfl

theorem evalArgs_foldAll (xs : List Expr) (d : Nat) (s : Store) :
    evalArgs env prefixes (foldAll xs) d s = evalArgs env prefixes xs d s := by
  cases xs with
  | nil => rfl
  | cons x xs => simp only [foldAll, evalArgs, evalArgs_foldAll xs, eval_fold x, length_foldAll]

theorem evalAll_foldAll (xs : List Expr) (d : Nat) (s : Store) :
    evalAll env prefixes (foldAll xs) d s = evalAll env prefixes xs d s := by
  cases xs with
  | nil => rfl
  | cons x xs => simp only [foldAll, evalAll, eval_fold x, evalAll_foldAll xs]

theorem evalProperties_foldProperties (xs : List (Text × Expr)) (d : Nat) (s : Store) :
    evalProperties env prefixes (foldProperties xs) d s = evalProperties env prefixes xs d s := by
  cases xs with
  | nil => rfl
  | cons p xs =>
    simp only [foldProperties, evalProperties, eval_fold p.2, evalProperties_foldProperties xs]

end

/-! ## Values held at once -/

mutual

/-- A folded tree holds no more values at once. -/
theorem peak_fold_le (x : Expr) (d : Nat) (s : Store) :
    x.fold.peak env prefixes d s ≤ x.peak env prefixes d s := by
  cases x with
  | lit l => exact Nat.le_refl _
  | var name => exact Nat.le_refl _
  | field owner name => exact Nat.le_refl _
  | member target property => exact peak_fold_le target d s
  | computed target key =>
    have htarget := peak_fold_le target d s
    have hkey := peak_fold_le key (d + 1) (target.eval env prefixes d s).2
    simp only [fold, peak, eval_fold]
    omega
  | index target position =>
    have htarget := peak_fold_le target d s
    have hposition := peak_fold_le position (d + 1) (target.eval env prefixes d s).2
    simp only [fold, peak, eval_fold]
    omega
  | binary op left right =>
    have hleft := peak_fold_le left d s
    have hright := peak_fold_le right (d + 1) (left.eval env prefixes d s).2
    rw [fold]
    rcases foldBinary_cases op left.fold right.fold with ⟨a, b, l, -, -, hfold, -⟩ | hfold
    · rw [hfold]
      exact lt_peak (binary op left right) d s
    · simp only [hfold, peak, eval_fold]
      omega
  | unary op operand =>
    rw [fold]
    rcases foldUnary_cases op operand.fold with ⟨a, l, -, hfold, -⟩ | hfold
    · rw [hfold]
      exact lt_peak (unary op operand) d s
    · rw [hfold]
      exact peak_fold_le operand d s
  | cond test consequent alternate =>
    have htest := peak_fold_le test d s
    have hconsequent := peak_fold_le consequent d (test.eval env prefixes d s).2
    have halternate := peak_fold_le alternate d (test.eval env prefixes d s).2
    rcases fold_cond test consequent alternate with ⟨l, hl, hfold⟩ | hfold
    · -- The test has no effects, and its value chooses the arm that is left.
      have heval : test.eval env prefixes d s = (l.value, s) := by
        rw [← eval_fold, hl]
        rfl
      rw [heval] at hconsequent halternate
      simp only [hfold, peak, heval]
      cases l.value.isTruthy with
      | true => exact Nat.le_trans hconsequent (Nat.le_max_right _ _)
      | false => exact Nat.le_trans halternate (Nat.le_max_right _ _)
    · simp only [hfold, peak, eval_fold]
      split <;> omega
  | call callee args =>
    have hargs := peakArgs_foldAll_le args d s
    simp only [fold, peak]
    omega
  | method receiver name args =>
    have hreceiver := peak_fold_le receiver d s
    have hargs := peakArgs_foldAll_le args (d + 1) (receiver.eval env prefixes d s).2
    simp only [fold, peak, eval_fold]
    omega
  | group inner => exact peak_fold_le inner d s
  | array elements =>
    have helements := peakAll_foldAll_le elements d s
    simp only [fold, peak]
    omega
  | object properties =>
    have hproperties := peakProperties_foldProperties_le properties d s
    simp only [fold, peak]
    omega
  | unknown kind => exact Nat.le_refl _

theorem peakArgs_foldAll_le (xs : List Expr) (d : Nat) (s : Store) :
    peakArgs env prefixes (foldAll xs) d s ≤ peakArgs env prefixes xs d s := by
  cases xs with
  | nil => exact Nat.le_refl _
  | cons x xs =>
    have hxs := peakArgs_foldAll_le xs d s
    have hx := peak_fold_le x (d + xs.length) (evalArgs env prefixes xs d s).2
    simp only [foldAll, peakArgs, length_foldAll, evalArgs_foldAll]
    omega

theorem peakAll_foldAll_le (xs : List Expr) (d : Nat) (s : Store) :
    peakAll env prefixes (foldAll xs) d s ≤ peakAll env prefixes xs d s := by
  cases xs with
  | nil => exact Nat.le_refl _
  | cons x xs =>
    have hx := peak_fold_le x d s
    have hxs := peakAll_foldAll_le xs (d + 1) (x.eval env prefixes d s).2
    simp only [foldAll, peakAll, eval_fold]
    omega

theorem peakProperties_foldProperties_le (xs : List (Text × Expr)) (d : Nat) (s : Store) :
    peakProperties env prefixes (foldProperties xs) d s ≤
      peakProperties env prefixes xs d s := by
  cases xs with
  | nil => exact Nat.le_refl _
  | cons p xs =>
    have hx := peak_fold_le p.2 (d + 1) s
    have hxs := peakProperties_foldProperties_le xs (d + 2) (p.2.eval env prefixes (d + 1) s).2
    simp only [foldProperties, peakProperties, eval_fold]
    omega

end

end

/-! ## Lines -/

variable (prefixes : List Text)

mutual

/-- A folded tree has no more lines. -/
theorem length_lines_fold_le (x : Expr) :
    (x.fold.lines prefixes).length ≤ (x.lines prefixes).length := by
  cases x with
  | lit l => exact Nat.le_refl _
  | var name => exact Nat.le_refl _
  | field owner name => exact Nat.le_refl _
  | member target property =>
    have htarget := length_lines_fold_le target
    simp only [fold, lines, List.length_append]
    omega
  | computed target key =>
    have htarget := length_lines_fold_le target
    have hkey := length_lines_fold_le key
    simp only [fold, lines, List.length_append]
    omega
  | index target position =>
    have htarget := length_lines_fold_le target
    have hposition := length_lines_fold_le position
    simp only [fold, lines, List.length_append]
    omega
  | binary op left right =>
    have hleft := length_lines_fold_le left
    have hright := length_lines_fold_le right
    rw [fold]
    rcases foldBinary_cases op left.fold right.fold with ⟨a, b, l, -, -, hfold, -⟩ | hfold
    · rw [hfold]
      exact length_lines_pos prefixes (binary op left right)
    · simp only [hfold, lines, List.length_append]
      omega
  | unary op operand =>
    have hoperand := length_lines_fold_le operand
    rw [fold]
    rcases foldUnary_cases op operand.fold with ⟨a, l, -, hfold, -⟩ | hfold
    · rw [hfold]
      exact length_lines_pos prefixes (unary op operand)
    · simp only [hfold, lines, List.length_append]
      omega
  | cond test consequent alternate =>
    have htest := length_lines_fold_le test
    have hconsequent := length_lines_fold_le consequent
    have halternate := length_lines_fold_le alternate
    rcases fold_cond test consequent alternate with ⟨l, -, hfold⟩ | hfold
    · rw [hfold]
      simp only [lines, List.length_append, List.length_cons]
      split <;> omega
    · simp only [hfold, lines, List.length_append, List.length_cons]
      omega
  | call callee args =>
    have hargs := length_linesArgs_foldAll_le args
    simp only [fold, lines, List.length_append, List.length_singleton]
    omega
  | method receiver name args =>
    have hreceiver := length_lines_fold_le receiver
    have hargs := length_linesArgs_foldAll_le args
    simp only [fold, lines, List.length_append, List.length_singleton]
    omega
  | group inner => exact length_lines_fold_le inner
  | array elements =>
    have helements := length_linesAll_foldAll_le elements
    simp only [fold, lines, List.length_append, List.length_singleton]
    omega
  | object properties =>
    have hproperties := length_linesProperties_foldProperties_le properties
    simp only [fold, lines, List.length_append, List.length_singleton]
    omega
  | unknown kind => exact Nat.le_refl _

theorem length_linesArgs_foldAll_le (xs : List Expr) :
    (linesArgs prefixes (foldAll xs)).length ≤ (linesArgs prefixes xs).length := by
  cases xs with
  | nil => exact Nat.le_refl _
  | cons x xs =>
    have hx := length_lines_fold_le x
    have hxs := length_linesArgs_foldAll_le xs
    simp only [foldAll, linesArgs, List.length_append]
    omega

theorem length_linesAll_foldAll_le (xs : List Expr) :
    (linesAll prefixes (foldAll xs)).length ≤ (linesAll prefixes xs).length := by
  cases xs with
  | nil => exact Nat.le_refl _
  | cons x xs =>
    have hx := length_lines_fold_le x
    have hxs := length_linesAll_foldAll_le xs
    simp only [foldAll, linesAll, List.length_append]
    omega

theorem length_linesProperties_foldProperties_le (xs : List (Text × Expr)) :
    (linesProperties prefixes (foldProperties xs)).length ≤
      (linesProperties prefixes xs).length := by
  cases xs with
  | nil => exact Nat.le_refl _
  | cons p xs =>
    have hx := length_lines_fold_le p.2
    have hxs := length_linesProperties_foldProperties_le xs
    simp only [foldProperties, linesProperties, List.length_cons, List.length_append]
    omega

end

end Expr

end Reckon
