-- SUMMARY: Folded trees are normal forms: nothing in them can be folded, and their programs are no larger than those of the trees.
import Reckon.Proofs.Dependence
import Reckon.Proofs.Limits
import Reckon.Proofs.Nesting
import Reckon.Proofs.StackNeed

/-!
# Normal forms

Folding looks at a node once, after what is below it. Nothing can be folded in
the result, because an operator over literals always gives a literal, and an arm
that takes the place of its conditional was folded before. So a tree is folded
to itself exactly if nothing in it can be folded. A folded tree needs no more
instructions and no more of the stack than the tree. It may need constants that
the tree does not have, but never more constants than instructions.
-/

namespace Reckon.Expr

/-! ## What can be folded -/

/-- The trees right below a node. -/
def children : Expr → List Expr
  | .lit _ | .var _ | .field _ _ | .unknown _ => []
  | .member target _ => [target]
  | .computed target key | .index target key => [target, key]
  | .binary _ left right => [left, right]
  | .unary _ operand => [operand]
  | .cond test consequent alternate => [test, consequent, alternate]
  | .call _ args => args
  | .method receiver _ args => receiver :: args
  | .group inner => [inner]
  | .array elements => elements
  | .object properties => properties.map (·.2)

def isLiteral (x : Expr) : Bool := x.literal?.isSome

/-- Whether the node can be folded: it is a group, an operator whose operands are all
    literals, or a conditional whose test is one. -/
def isRedex : Expr → Bool
  | .group _ => true
  | .binary _ left right => left.isLiteral && right.isLiteral
  | .unary _ operand => operand.isLiteral
  | .cond test _ _ => test.isLiteral
  | _ => false

/-- Nothing in the tree can be folded. -/
def Normal (x : Expr) : Prop := ∀ y, Inside children y x → y.isRedex = false

theorem normal_iff {x : Expr} :
    x.Normal ↔ x.isRedex = false ∧ ∀ y ∈ x.children, y.Normal :=
  forall_inside_iff

theorem normal_lit (l : Literal) : (lit l).Normal :=
  normal_iff.2 ⟨rfl, fun _ hy => absurd hy List.not_mem_nil⟩

theorem exists_lit_of_isLiteral {x : Expr} (h : x.isLiteral = true) : ∃ l, x = .lit l := by
  cases x with
  | lit l => exact ⟨l, rfl⟩
  | _ => cases h

/-! ## Single nodes -/

theorem foldBinary_of_redex {op : BinaryOp} {left right : Expr}
    (h : (binary op left right).isRedex = true) : ∃ l, foldBinary op left right = .lit l := by
  obtain ⟨hleft, hright⟩ := Bool.and_eq_true_iff.1 h
  obtain ⟨a, rfl⟩ := exists_lit_of_isLiteral hleft
  obtain ⟨b, rfl⟩ := exists_lit_of_isLiteral hright
  obtain ⟨l, hl⟩ := op.isScalar_apply a.value b.value
  obtain ⟨l', hl', -⟩ := l.value_ofValue?
  refine ⟨l', ?_⟩
  rw [foldBinary, ← hl, hl', Option.elim]

theorem foldBinary_of_not_redex {op : BinaryOp} {left right : Expr}
    (h : (binary op left right).isRedex = false) :
    foldBinary op left right = .binary op left right := by
  rcases foldBinary_cases op left right with ⟨a, b, l, rfl, rfl, -⟩ | hfold
  · cases h
  · exact hfold

theorem foldUnary_of_redex {op : UnaryOp} {operand : Expr}
    (h : (unary op operand).isRedex = true) : ∃ l, foldUnary op operand = .lit l := by
  obtain ⟨a, rfl⟩ := exists_lit_of_isLiteral h
  obtain ⟨l, hl⟩ := op.isScalar_apply a.value
  obtain ⟨l', hl', -⟩ := l.value_ofValue?
  refine ⟨l', ?_⟩
  rw [foldUnary, ← hl, hl', Option.elim]

theorem foldUnary_of_not_redex {op : UnaryOp} {operand : Expr}
    (h : (unary op operand).isRedex = false) : foldUnary op operand = .unary op operand := by
  rcases foldUnary_cases op operand with ⟨a, l, rfl, -⟩ | hfold
  · cases h
  · exact hfold

theorem fold_cond_of_literal {test : Expr} (h : test.fold.isLiteral = true)
    (consequent alternate : Expr) :
    (cond test consequent alternate).fold = consequent.fold ∨
      (cond test consequent alternate).fold = alternate.fold := by
  obtain ⟨l, hl⟩ := exists_lit_of_isLiteral h
  simp only [fold, hl]
  cases l.value.isTruthy with
  | true => exact .inl rfl
  | false => exact .inr rfl

theorem fold_cond_of_not_literal {test : Expr} (h : test.fold.isLiteral = false)
    (consequent alternate : Expr) :
    (cond test consequent alternate).fold = .cond test.fold consequent.fold alternate.fold := by
  rcases fold_cond test consequent alternate with ⟨l, hl, -⟩ | hfold
  · rw [hl] at h
    cases h
  · exact hfold

/-! ## Folding ends in a normal form -/

mutual

/-- Nothing is left to fold in a folded tree. -/
theorem normal_fold (x : Expr) : x.fold.Normal := by
  cases x with
  | lit l => exact normal_lit l
  | var name => exact normal_iff.2 ⟨rfl, by simp [fold, children]⟩
  | field owner name => exact normal_iff.2 ⟨rfl, by simp [fold, children]⟩
  | member target property =>
    exact normal_iff.2 ⟨rfl, by simp [fold, children, normal_fold target]⟩
  | computed target key =>
    exact normal_iff.2 ⟨rfl, by simp [fold, children, normal_fold target, normal_fold key]⟩
  | index target position =>
    exact normal_iff.2 ⟨rfl, by simp [fold, children, normal_fold target, normal_fold position]⟩
  | binary op left right =>
    rw [fold]
    cases hredex : (binary op left.fold right.fold).isRedex with
    | true =>
      obtain ⟨l, hl⟩ := foldBinary_of_redex hredex
      rw [hl]
      exact normal_lit l
    | false =>
      rw [foldBinary_of_not_redex hredex]
      exact normal_iff.2 ⟨hredex, by simp [children, normal_fold left, normal_fold right]⟩
  | unary op operand =>
    rw [fold]
    cases hredex : (unary op operand.fold).isRedex with
    | true =>
      obtain ⟨l, hl⟩ := foldUnary_of_redex hredex
      rw [hl]
      exact normal_lit l
    | false =>
      rw [foldUnary_of_not_redex hredex]
      exact normal_iff.2 ⟨hredex, by simp [children, normal_fold operand]⟩
  | cond test consequent alternate =>
    cases hliteral : test.fold.isLiteral with
    | true =>
      rcases fold_cond_of_literal hliteral consequent alternate with harm | harm
      · rw [harm]
        exact normal_fold consequent
      · rw [harm]
        exact normal_fold alternate
    | false =>
      rw [fold_cond_of_not_literal hliteral]
      refine normal_iff.2 ⟨hliteral, ?_⟩
      simp [children, normal_fold test, normal_fold consequent, normal_fold alternate]
  | call callee args => exact normal_iff.2 ⟨rfl, normal_foldAll args⟩
  | method receiver name args =>
    exact normal_iff.2 ⟨rfl, List.forall_mem_cons.2 ⟨normal_fold receiver, normal_foldAll args⟩⟩
  | group inner => exact normal_fold inner
  | array elements => exact normal_iff.2 ⟨rfl, normal_foldAll elements⟩
  | object properties => exact normal_iff.2 ⟨rfl, normal_foldProperties properties⟩
  | unknown kind => exact normal_iff.2 ⟨rfl, by simp [fold, children]⟩

theorem normal_foldAll (xs : List Expr) : ∀ y ∈ foldAll xs, y.Normal := by
  cases xs with
  | nil => simp [foldAll]
  | cons x xs => exact List.forall_mem_cons.2 ⟨normal_fold x, normal_foldAll xs⟩

theorem normal_foldProperties (xs : List (Text × Expr)) :
    ∀ y ∈ (foldProperties xs).map (·.2), y.Normal := by
  cases xs with
  | nil => simp [foldProperties]
  | cons p xs => exact List.forall_mem_cons.2 ⟨normal_fold p.2, normal_foldProperties xs⟩

end

mutual

/-- A tree in which nothing can be folded is folded to itself. -/
theorem fold_of_normal (x : Expr) (hx : x.Normal) : x.fold = x := by
  obtain ⟨hredex, hchildren⟩ := normal_iff.1 hx
  cases x with
  | lit l => rfl
  | var name => rfl
  | field owner name => rfl
  | member target property =>
    rw [fold, fold_of_normal target (hchildren _ (by simp [children]))]
  | computed target key =>
    rw [fold, fold_of_normal target (hchildren _ (by simp [children])),
      fold_of_normal key (hchildren _ (by simp [children]))]
  | index target position =>
    rw [fold, fold_of_normal target (hchildren _ (by simp [children])),
      fold_of_normal position (hchildren _ (by simp [children]))]
  | binary op left right =>
    rw [fold, fold_of_normal left (hchildren _ (by simp [children])),
      fold_of_normal right (hchildren _ (by simp [children])), foldBinary_of_not_redex hredex]
  | unary op operand =>
    rw [fold, fold_of_normal operand (hchildren _ (by simp [children])),
      foldUnary_of_not_redex hredex]
  | cond test consequent alternate =>
    have htest := fold_of_normal test (hchildren _ (by simp [children]))
    have hliteral : test.fold.isLiteral = false := htest.symm ▸ hredex
    rw [fold_cond_of_not_literal hliteral, htest,
      fold_of_normal consequent (hchildren _ (by simp [children])),
      fold_of_normal alternate (hchildren _ (by simp [children]))]
  | call callee args => rw [fold, foldAll_of_normal args hchildren]
  | method receiver name args =>
    obtain ⟨hreceiver, hargs⟩ := List.forall_mem_cons.1 hchildren
    rw [fold, fold_of_normal receiver hreceiver, foldAll_of_normal args hargs]
  | group inner => cases hredex
  | array elements => rw [fold, foldAll_of_normal elements hchildren]
  | object properties => rw [fold, foldProperties_of_normal properties hchildren]
  | unknown kind => rfl

theorem foldAll_of_normal (xs : List Expr) (hxs : ∀ y ∈ xs, y.Normal) : foldAll xs = xs := by
  cases xs with
  | nil => rfl
  | cons x xs =>
    obtain ⟨hx, hrest⟩ := List.forall_mem_cons.1 hxs
    rw [foldAll, fold_of_normal x hx, foldAll_of_normal xs hrest]

theorem foldProperties_of_normal (xs : List (Text × Expr))
    (hxs : ∀ y ∈ xs.map (·.2), y.Normal) : foldProperties xs = xs := by
  cases xs with
  | nil => rfl
  | cons p xs =>
    obtain ⟨hx, hrest⟩ := List.forall_mem_cons.1 hxs
    rw [foldProperties, fold_of_normal p.2 hx, foldProperties_of_normal xs hrest]

end

/-- Nothing in a folded tree can be folded, and it names no variable that the tree does not.
    So folding it again changes nothing, and the trees that folding does not change are those
    in which nothing can be folded. -/
theorem fold_normalizes (x : Expr) :
    x.fold.Normal ∧ x.fold.fold = x.fold ∧ (x.fold = x ↔ x.Normal) ∧
      ∀ name ∈ x.fold.variableNames, name ∈ x.variableNames := by
  refine ⟨x.normal_fold, fold_of_normal _ x.normal_fold, ⟨fun hx => ?_, fold_of_normal x⟩, ?_⟩
  · rw [← hx]
    exact x.normal_fold
  · intro name hname
    rw [mem_variableNames] at hname ⊢
    exact reads_fold x hname

/-! ## What a folded tree needs -/

mutual

/-- A folded tree needs no more values on the stack. -/
theorem need_fold_le (x : Expr) : x.fold.need ≤ x.need := by
  cases x with
  | lit l => exact Nat.le_refl _
  | var name => exact Nat.le_refl _
  | field owner name => exact Nat.le_refl _
  | member target property => exact need_fold_le target
  | computed target key =>
    have htarget := need_fold_le target
    have hkey := need_fold_le key
    simp only [fold, need]
    omega
  | index target position =>
    have htarget := need_fold_le target
    have hposition := need_fold_le position
    simp only [fold, need]
    omega
  | binary op left right =>
    have hleft := need_fold_le left
    have hright := need_fold_le right
    rw [fold]
    rcases foldBinary_cases op left.fold right.fold with ⟨a, b, l, -, -, hfold, -⟩ | hfold
    · rw [hfold]
      exact (binary op left right).need_pos
    · simp only [hfold, need]
      omega
  | unary op operand =>
    rw [fold]
    rcases foldUnary_cases op operand.fold with ⟨a, l, -, hfold, -⟩ | hfold
    · rw [hfold]
      exact (unary op operand).need_pos
    · rw [hfold]
      exact need_fold_le operand
  | cond test consequent alternate =>
    have htest := need_fold_le test
    have hconsequent := need_fold_le consequent
    have halternate := need_fold_le alternate
    rcases fold_cond test consequent alternate with ⟨l, -, hfold⟩ | hfold
    · rw [hfold, need]
      split <;> omega
    · simp only [hfold, need]
      omega
  | call callee args =>
    have hargs := needArgs_foldAll_le args
    simp only [fold, need]
    omega
  | method receiver name args =>
    have hreceiver := need_fold_le receiver
    have hargs := needArgs_foldAll_le args
    simp only [fold, need]
    omega
  | group inner => exact need_fold_le inner
  | array elements =>
    have helements := needAll_foldAll_le elements
    simp only [fold, need]
    omega
  | object properties =>
    have hproperties := needProperties_foldProperties_le properties
    simp only [fold, need]
    omega
  | unknown kind => exact Nat.le_refl _

theorem needArgs_foldAll_le (xs : List Expr) : needArgs (foldAll xs) ≤ needArgs xs := by
  cases xs with
  | nil => exact Nat.le_refl _
  | cons x xs =>
    have hx := need_fold_le x
    have hxs := needArgs_foldAll_le xs
    simp only [foldAll, needArgs, length_foldAll]
    omega

theorem needAll_foldAll_le (xs : List Expr) : needAll (foldAll xs) ≤ needAll xs := by
  cases xs with
  | nil => exact Nat.le_refl _
  | cons x xs =>
    have hx := need_fold_le x
    have hxs := needAll_foldAll_le xs
    simp only [foldAll, needAll]
    omega

theorem needProperties_foldProperties_le (xs : List (Text × Expr)) :
    needProperties (foldProperties xs) ≤ needProperties xs := by
  cases xs with
  | nil => exact Nat.le_refl _
  | cons p xs =>
    have hx := need_fold_le p.2
    have hxs := needProperties_foldProperties_le xs
    simp only [foldProperties, needProperties]
    omega

end

theorem instructions_fold_le (x : Expr) : x.fold.instructions ≤ x.instructions := by
  have hlines := length_lines_fold_le [] x
  rwa [length_lines, length_lines] at hlines

/-! ## Programs of folded trees -/

/-- If code runs out before a pool does, the constants that folding makes find their place:
    there are fewer of them than instructions. -/
theorem failure_compile_fold {o : CompileOptions} {x : Expr}
    (hlimits : o.maxInstructions ≤ min o.maxPoolEntries Pool.capacity)
    (hok : (x.compile { o with optimize := false }).failure = none) :
    (x.compile { o with optimize := true }).failure = none := by
  have hfits : ∀ b, (x.compile { o with optimize := b }).failure = none ↔
      ((x.target { o with optimize := b }).instructions : Int) < o.maxInstructions := by
    intro b
    rw [← length_code]
    exact failure_compile_eq_none_iff_of_le hlimits
  have hplain : (x.instructions : Int) < o.maxInstructions := (hfits false).1 hok
  exact (hfits true).2 (Int.lt_of_le_of_lt (Int.ofNat_le.2 x.instructions_fold_le) hplain)

/-- A tree that compiles without folding compiles with folding, too, to a program that has
    no more instructions and needs no more values on the stack. The limits are such that code
    runs out before a pool does, as it is with the default limit of the pools for up to 65536
    instructions. -/
theorem compile_fold_le (o : CompileOptions) (x : Expr)
    (hlimits : o.maxInstructions ≤ min o.maxPoolEntries Pool.capacity)
    (hok : (x.compile { o with optimize := false }).failure = none) :
    (x.compile { o with optimize := true }).failure = none ∧
    (x.compile { o with optimize := true }).count ≤
      (x.compile { o with optimize := false }).count ∧
    (x.compile { o with optimize := true }).stackNeed ≤
      (x.compile { o with optimize := false }).stackNeed := by
  have hfolded := failure_compile_fold hlimits hok
  refine ⟨hfolded, ?_, ?_⟩
  · rw [count_compile _ _ hfolded, count_compile _ _ hok]
    exact Int.add_le_add_right (Int.ofNat_le.2 x.instructions_fold_le) 1
  · rw [stackNeed_compile hfolded, stackNeed_compile hok]
    exact x.need_fold_le

/-- `["a" .. 3, 4000000000 * 2, (n ? 1 - 1 : m)]` -/
def wordy : Expr :=
  .array [.binary .concat (.lit (.string "a")) (.lit (.int 3)),
    .binary .mul (.lit (.int 4000000000)) (.lit (.int 2)),
    .group (.cond (.var "n") (.binary .sub (.lit (.int 1)) (.lit (.int 1))) (.var "m"))]

theorem compile_wordy_le :
    (wordy.compile {}).failure = none ∧ (wordy.compile {}).count = 15 ∧
    (wordy.compile { optimize := true }).failure = none ∧
    (wordy.compile { optimize := true }).strings = ["a3", "n", "m"] ∧
    (wordy.compile { optimize := true }).count ≤ (wordy.compile {}).count ∧
    (wordy.compile { optimize := true }).stackNeed ≤ (wordy.compile {}).stackNeed := by
  have hok : (wordy.compile { optimize := false }).failure = none := by decide
  obtain ⟨hfolded, hcount, hneed⟩ := compile_fold_le {} wordy (by decide) hok
  exact ⟨hok, by decide, hfolded, by decide, hcount, hneed⟩

-- With less room in the pools, a text that folding makes may be one too many.
example :
    ((binary .concat (lit (.int 1)) (lit (.int 2))).compile { maxPoolEntries := 0 }).failure =
      none ∧
    ((binary .concat (lit (.int 1)) (lit (.int 2))).compile
      { optimize := true, maxPoolEntries := 0 }).failure = some (.compile .stringPool) := by
  decide

end Reckon.Expr
