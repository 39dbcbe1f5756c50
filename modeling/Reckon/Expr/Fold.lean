-- SUMMARY: Constant folding: operators on literals become literals, conditionals with a literal test become an arm, groups vanish.
import Reckon.Expr

/-!
# Constant folding

Folding works bottom-up with the operators themselves, so that a folded literal
is what the unfolded tree would compute. A conditional whose test folds to a
literal is replaced by the arm that it takes; the other arm is not looked at.
-/

namespace Reckon.Expr

/-- A binary node over folded operands. -/
def foldBinary (op : BinaryOp) (left right : Expr) : Expr :=
  match left, right with
  | .lit a, .lit b =>
    (Literal.ofValue? (op.apply a.value b.value)).elim (.binary op left right) .lit
  | _, _ => .binary op left right

/-- A unary node over a folded operand. -/
def foldUnary (op : UnaryOp) (operand : Expr) : Expr :=
  match operand with
  | .lit a => (Literal.ofValue? (op.apply a.value)).elim (.unary op operand) .lit
  | _ => .unary op operand

mutual

/-- The tree with its constant parts computed. -/
def fold : Expr → Expr
  | .lit l => .lit l
  | .var name => .var name
  | .field owner name => .field owner name
  | .member target property => .member (fold target) property
  | .computed target key => .computed (fold target) (fold key)
  | .index target position => .index (fold target) (fold position)
  | .binary op left right => foldBinary op (fold left) (fold right)
  | .unary op operand => foldUnary op (fold operand)
  | .cond test consequent alternate =>
    match fold test with
    | .lit l => if l.value.isTruthy then fold consequent else fold alternate
    | folded => .cond folded (fold consequent) (fold alternate)
  | .call callee args => .call callee (foldAll args)
  | .method receiver name args => .method (fold receiver) name (foldAll args)
  | .group inner => fold inner
  | .array elements => .array (foldAll elements)
  | .object properties => .object (foldProperties properties)
  | .unknown kind => .unknown kind

def foldAll : List Expr → List Expr
  | [] => []
  | e :: es => fold e :: foldAll es

def foldProperties : List (Text × Expr) → List (Text × Expr)
  | [] => []
  | (k, e) :: es => (k, fold e) :: foldProperties es

end

end Reckon.Expr
