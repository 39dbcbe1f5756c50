-- SUMMARY: Symbolic code: instructions with their constants spelled out, what they do, and the lines of a tree.
import Reckon.Code.Compile
import Reckon.Machine

/-!
# Assembly

A line is an instruction before its constant has a place in a pool: it holds the
constant itself. Lines have a meaning of their own, and since every jump says
how many lines it passes over, a jump that does not go forward cannot be
written. The code of a tree is a list of lines; a list that was cut off has its
jumps shortened to the end.
-/

namespace Reckon

/-! ## Lines -/

/-- An instruction with its constant spelled out. -/
inductive Line where
  | push (l : Literal)
  | load (name : Text)
  | property (name : Text)
  | computed
  | index
  | binary (op : BinaryOp)
  | unary (op : UnaryOp)
  /-- Passes over `skip` lines if the top value, which it pops, is false. -/
  | jumpIfFalse (skip : Nat)
  /-- Passes over `skip` lines. -/
  | jump (skip : Nat)
  | callBuiltin (name : Text) (argc : Nat)
  | callFunction (name : Text) (argc : Nat)
  | callMethod (name : Text) (argc : Nat)
  | buildArray (count : Nat)
  | buildObject (count : Nat)

namespace Line

/-- What a line does. -/
def perform (env : Environment) : Line → Context → Flow
  | .push l, c => .next 0 (c.push env l.value)
  | .load name, c => .next 0 (c.push env (c.resolve env name))
  | .property name, c =>
    let (target, c) := c.pop
    .next 0 (c.push env (target.property name))
  | .computed, c | .index, c =>
    let (key, c) := c.pop
    let (target, c) := c.pop
    .next 0 (c.push env (target.computed key))
  | .binary op, c =>
    let (right, c) := c.pop
    let (left, c) := c.pop
    .next 0 (c.push env (op.apply left right))
  | .unary op, c =>
    let (operand, c) := c.pop
    .next 0 (c.push env (op.apply operand))
  | .jumpIfFalse skip, c =>
    let (test, c) := c.pop
    .next (if test.isTruthy then 0 else skip) c
  | .jump skip, c => .next skip c
  | .callBuiltin name argc, c =>
    let (args, c) := c.popArgs argc
    Machine.callBuiltin env c name args
  | .callFunction _ argc, c =>
    let (_, c) := c.popArgs argc
    .next 0 (c.push env .null)
  | .callMethod name argc, c =>
    let (args, c) := c.popArgs argc
    let (receiver, c) := c.pop
    .next 0 (c.push env (receiver.callMethod name args))
  | .buildArray count, c =>
    let (items, c) := c.popMany count
    .next 0 (c.push env (.array items))
  | .buildObject count, c =>
    let (pushed, c) := c.popMany (2 * count)
    .next 0 (c.push env (.object (Machine.objectOf pushed [])))

end Line

namespace Machine

/-- Runs lines to their end. -/
def runLines (env : Environment) : List Line → Context → Option Text × Context
  | [], c => (none, c)
  | l :: ls, c =>
    match l.perform env c with
    | .next skip c => runLines env (ls.drop skip) c
    | .stop c => (none, c)
    | .raise message c => (some message, c)
termination_by ls => ls.length
decreasing_by
  simp only [List.length_drop, List.length_cons]
  omega

theorem runLines_next {env : Environment} {l : Line} {c c' : Context} {skip : Nat}
    (ls : List Line) (h : l.perform env c = .next skip c') :
    runLines env (l :: ls) c = runLines env (ls.drop skip) c' := by
  rw [runLines, h]

theorem runLines_stop {env : Environment} {l : Line} {c c' : Context} (ls : List Line)
    (h : l.perform env c = .stop c') : runLines env (l :: ls) c = (none, c') := by
  rw [runLines, h]

theorem runLines_raise {env : Environment} {l : Line} {c c' : Context} {message : Text}
    (ls : List Line) (h : l.perform env c = .raise message c') :
    runLines env (l :: ls) c = (some message, c') := by
  rw [runLines, h]

end Machine

/-! ## The lines of a tree -/

/-- The line that calls a function. -/
def Line.call (prefixes : List Text) (callee : Text) (argc : Nat) : Line :=
  if prefixes.any callee.startsWith then .callBuiltin callee argc else .callFunction callee argc

namespace Expr

variable (prefixes : List Text)

mutual

/-- The code of a tree. -/
def lines : Expr → List Line
  | .lit l => [.push l]
  | .var name => [.load name]
  | .field owner name => [.load owner, .property name]
  | .member target property => lines target ++ [.property property]
  | .computed target key => lines target ++ (lines key ++ [.computed])
  | .index target position => lines target ++ (lines position ++ [.index])
  | .binary op left right => lines left ++ (lines right ++ [.binary op])
  | .unary op operand => lines operand ++ [.unary op]
  | .cond test consequent alternate =>
    lines test ++ .jumpIfFalse ((lines consequent).length + 1) ::
      (lines consequent ++ .jump (lines alternate).length :: lines alternate)
  | .call callee args => linesArgs args ++ [.call prefixes callee args.length]
  | .method receiver name args =>
    lines receiver ++ (linesArgs args ++ [.callMethod name args.length])
  | .group inner => lines inner
  | .array elements => linesAll elements ++ [.buildArray elements.length]
  | .object properties => linesProperties properties ++ [.buildObject properties.length]
  | .unknown _ => [.push .null]

/-- The code of arguments, last to first. -/
def linesArgs : List Expr → List Line
  | [] => []
  | x :: xs => linesArgs xs ++ lines x

/-- The code of elements, first to last. -/
def linesAll : List Expr → List Line
  | [] => []
  | x :: xs => lines x ++ linesAll xs

/-- A key and the code of a value for each property. -/
def linesProperties : List (Text × Expr) → List Line
  | [] => []
  | (k, x) :: xs => .push (.string k) :: (lines x ++ linesProperties xs)

end

end Expr

/-! ## Cutting off -/

/-- The line with a jump of at most `most` lines. -/
def Line.clip (most : Nat) : Line → Line
  | .jumpIfFalse skip => .jumpIfFalse (min skip most)
  | .jump skip => .jump (min skip most)
  | l => l

namespace Line

/-- The first `k` lines, with the jumps beyond them shortened to their end. -/
def cut : Nat → List Line → List Line
  | 0, _ => []
  | _, [] => []
  | k + 1, l :: ls => l.clip k :: cut k ls

end Line

end Reckon
