-- SUMMARY: Trees with the same key compile to the same program, but for its source text, and name the same variables.
import Reckon.Proofs.Emission
import Reckon.Proofs.Keys

/-!
# Trees that share a key

The name of an unknown kind, which the key of a tree does not tell, goes into no
instruction: the node is compiled to null, and the message that would cite the
name is never needed. So one program, found by its key, serves all trees with
that key. Only the source text of the program may differ; no run looks at it.
-/

namespace Reckon

namespace Expr

open Emitter (balanced)

theorem balanced_emit (x : Expr) {e : Emitter} {depth : Int} (h : e.depth = depth) :
    balanced x depth (x.emit e) = x.emit e :=
  h ▸ balanced_eq (emits_lines x rfl)

theorem length_anonymousAll (xs : List Expr) : (anonymousAll xs).length = xs.length := by
  rw [anonymousAll_eq_map, List.length_map]

theorem length_anonymousProperties (xs : List (Text × Expr)) :
    (anonymousProperties xs).length = xs.length := by
  rw [anonymousProperties_eq_map, List.length_map]

mutual

theorem emit_anonymous (x : Expr) (e : Emitter) : x.anonymous.emit e = x.emit e := by
  cases x with
  | lit l => rfl
  | var name => rfl
  | field owner name => rfl
  | member target property =>
    simp only [anonymous, emit, balanced_emit]
    rw [emit_anonymous target]
  | computed target key =>
    simp only [anonymous, emit, balanced_emit]
    rw [emit_anonymous target, emit_anonymous key]
  | index target position =>
    simp only [anonymous, emit, balanced_emit]
    rw [emit_anonymous target, emit_anonymous position]
  | binary op left right =>
    simp only [anonymous, emit, balanced_emit]
    rw [emit_anonymous left, emit_anonymous right]
  | unary op operand =>
    simp only [anonymous, emit, balanced_emit]
    rw [emit_anonymous operand]
  | cond test consequent alternate =>
    simp only [anonymous, emit, balanced_emit]
    rw [emit_anonymous test, emit_anonymous consequent, emit_anonymous alternate]
  | call callee args =>
    simp only [anonymous, emit, emitArgs_anonymousAll args, length_anonymousAll]
  | method receiver name args =>
    simp only [anonymous, emit, balanced_emit, length_anonymousAll]
    rw [emit_anonymous receiver, emitArgs_anonymousAll args]
  | group inner => simp only [anonymous, emit, emit_anonymous inner]
  | array elements =>
    simp only [anonymous, emit, emitAll_anonymousAll elements, length_anonymousAll]
  | object properties =>
    simp only [anonymous, emit, emitProperties_anonymousProperties properties,
      length_anonymousProperties]
  | unknown kind => rfl

theorem emitArgs_anonymousAll (xs : List Expr) (e : Emitter) :
    emitArgs (anonymousAll xs) e = emitArgs xs e := by
  cases xs with
  | nil => rfl
  | cons x xs =>
    simp only [anonymousAll, emitArgs, balanced_emit]
    rw [emitArgs_anonymousAll xs, emit_anonymous x]

theorem emitAll_anonymousAll (xs : List Expr) (e : Emitter) :
    emitAll (anonymousAll xs) e = emitAll xs e := by
  cases xs with
  | nil => rfl
  | cons x xs =>
    simp only [anonymousAll, emitAll, balanced_emit]
    rw [emit_anonymous x, emitAll_anonymousAll xs]

theorem emitProperties_anonymousProperties (xs : List (Text × Expr)) (e : Emitter) :
    emitProperties (anonymousProperties xs) e = emitProperties xs e := by
  cases xs with
  | nil => rfl
  | cons p xs =>
    simp only [anonymousProperties, emitProperties, balanced_emit]
    rw [emit_anonymous p.2, emitProperties_anonymousProperties xs]

end

theorem foldBinary_anonymous (op : BinaryOp) (left right : Expr) :
    foldBinary op left.anonymous right.anonymous = (foldBinary op left right).anonymous := by
  cases left with
  | lit a =>
    cases right with
    | lit b =>
      simp only [anonymous, foldBinary]
      cases Literal.ofValue? (op.apply a.value b.value) <;> rfl
    | _ => rfl
  | _ => rfl

theorem foldUnary_anonymous (op : UnaryOp) (operand : Expr) :
    foldUnary op operand.anonymous = (foldUnary op operand).anonymous := by
  cases operand with
  | lit a =>
    simp only [anonymous, foldUnary]
    cases Literal.ofValue? (op.apply a.value) <;> rfl
  | _ => rfl

mutual

theorem fold_anonymous (x : Expr) : x.anonymous.fold = x.fold.anonymous := by
  cases x with
  | lit l => rfl
  | var name => rfl
  | field owner name => rfl
  | member target property => simp only [anonymous, fold, fold_anonymous target]
  | computed target key => simp only [anonymous, fold, fold_anonymous target, fold_anonymous key]
  | index target position =>
    simp only [anonymous, fold, fold_anonymous target, fold_anonymous position]
  | binary op left right =>
    simp only [anonymous, fold, fold_anonymous left, fold_anonymous right, foldBinary_anonymous]
  | unary op operand => simp only [anonymous, fold, fold_anonymous operand, foldUnary_anonymous]
  | cond test consequent alternate =>
    simp only [anonymous, fold, fold_anonymous test, fold_anonymous consequent,
      fold_anonymous alternate]
    cases test.fold with
    | lit l =>
      simp only [anonymous]
      split <;> rfl
    | _ => rfl
  | call callee args => simp only [anonymous, fold, foldAll_anonymousAll args]
  | method receiver name args =>
    simp only [anonymous, fold, fold_anonymous receiver, foldAll_anonymousAll args]
  | group inner => simp only [anonymous, fold, fold_anonymous inner]
  | array elements => simp only [anonymous, fold, foldAll_anonymousAll elements]
  | object properties =>
    simp only [anonymous, fold, foldProperties_anonymousProperties properties]
  | unknown kind => rfl

theorem foldAll_anonymousAll (xs : List Expr) :
    foldAll (anonymousAll xs) = anonymousAll (foldAll xs) := by
  cases xs with
  | nil => rfl
  | cons x xs => simp only [anonymousAll, foldAll, fold_anonymous x, foldAll_anonymousAll xs]

theorem foldProperties_anonymousProperties (xs : List (Text × Expr)) :
    foldProperties (anonymousProperties xs) = anonymousProperties (foldProperties xs) := by
  cases xs with
  | nil => rfl
  | cons p xs =>
    simp only [anonymousProperties, foldProperties, fold_anonymous p.2,
      foldProperties_anonymousProperties xs]

end

mutual

theorem reads_anonymous (x : Expr) : x.anonymous.reads = x.reads := by
  cases x with
  | lit l => rfl
  | var name => rfl
  | field owner name => rfl
  | member target property => simp only [anonymous, reads, reads_anonymous target]
  | computed target key => simp only [anonymous, reads, reads_anonymous target, reads_anonymous key]
  | index target position =>
    simp only [anonymous, reads, reads_anonymous target, reads_anonymous position]
  | binary op left right =>
    simp only [anonymous, reads, reads_anonymous left, reads_anonymous right]
  | unary op operand => simp only [anonymous, reads, reads_anonymous operand]
  | cond test consequent alternate =>
    simp only [anonymous, reads, reads_anonymous test, reads_anonymous consequent,
      reads_anonymous alternate]
  | call callee args => simp only [anonymous, reads, readsAll_anonymousAll args]
  | method receiver name args =>
    simp only [anonymous, reads, reads_anonymous receiver, readsAll_anonymousAll args]
  | group inner => simp only [anonymous, reads, reads_anonymous inner]
  | array elements => simp only [anonymous, reads, readsAll_anonymousAll elements]
  | object properties =>
    simp only [anonymous, reads, readsProperties_anonymousProperties properties]
  | unknown kind => rfl

theorem readsAll_anonymousAll (xs : List Expr) : readsAll (anonymousAll xs) = readsAll xs := by
  cases xs with
  | nil => rfl
  | cons x xs => simp only [anonymousAll, readsAll, reads_anonymous x, readsAll_anonymousAll xs]

theorem readsProperties_anonymousProperties (xs : List (Text × Expr)) :
    readsProperties (anonymousProperties xs) = readsProperties xs := by
  cases xs with
  | nil => rfl
  | cons p xs =>
    simp only [anonymousProperties, readsProperties, reads_anonymous p.2,
      readsProperties_anonymousProperties xs]

end

theorem emitProgram_anonymous (o : CompileOptions) (x : Expr) :
    x.anonymous.emitProgram o = x.emitProgram o := by
  have hbalanced : ∀ x : Expr, balanced x 0 (x.emit o.emitter) = x.emit o.emitter :=
    fun x => x.balanced_emit rfl
  simp only [emitProgram, fold_anonymous]
  split
  · rw [hbalanced, hbalanced, emit_anonymous]
  · rw [hbalanced, hbalanced, emit_anonymous]

end Expr

/-! ## Programs without their source -/

/-- The program without its source text. -/
def Program.bare (p : Program) : Program := { p with source := none }

namespace Expr

variable {x y : Expr}

/-- Trees with the same key compile alike, whatever their source texts are. -/
theorem bare_compile_of_key_eq (h : x.key = y.key) (o : CompileOptions) (echo : Echo) :
    (x.compile { o with echo }).bare = (y.compile o).bare := by
  have hprogram : x.emitProgram { o with echo } = y.emitProgram o := by
    have hecho : x.emitProgram { o with echo } = x.emitProgram o := rfl
    rw [hecho, ← x.emitProgram_anonymous, anonymous_of_key_eq h, emitProgram_anonymous]
  simp only [compile, hprogram]
  split <;> rfl

theorem variableNames_of_key_eq (h : x.key = y.key) : x.variableNames = y.variableNames := by
  rw [variableNames, ← reads_anonymous, anonymous_of_key_eq h, reads_anonymous, variableNames]

end Expr

namespace Machine

theorem runFrom_bare (env : Environment) (p : Program) (pc : Nat) (c : Context) :
    runFrom env p.bare pc c = runFrom env p pc c := by
  have hexec : ∀ pc c, exec env p.bare pc (p.bare.fetch pc) c = exec env p pc (p.fetch pc) c :=
    fun _ _ => rfl
  have hcount : p.bare.count = p.count := rfl
  fun_induction runFrom env p pc c with
  | case1 pc c hlt skip c' hnext ih =>
    rw [runFrom, hcount, if_pos hlt, hexec, hnext]
    exact ih
  | case2 pc c hlt c' hstop => rw [runFrom, hcount, if_pos hlt, hexec, hstop]
  | case3 pc c hlt message c' hraise => rw [runFrom, hcount, if_pos hlt, hexec, hraise]
  | case4 pc c hge => rw [runFrom, hcount, if_neg hge]

end Machine

/-- A run does not look at the source text. -/
theorem Context.run_bare (c : Context) (env : Environment) (p : Program) :
    c.run env p.bare = c.run env p := by
  unfold run
  rw [Machine.runFrom_bare]

end Reckon
