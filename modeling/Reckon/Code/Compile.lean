-- SUMMARY: Compilation of expressions to programs, with limits on instructions and constants.
import Reckon.Expr.Fold
import Reckon.Expr.Source
import Reckon.Code.Pool
import Reckon.Code.Reach
import Reckon.Code.Program

/-!
# Compilation

The code of a node leaves the node's value on the stack. Operands come in
order, and the arguments of a call last to first, so that the call pops them in
order. A conditional jumps over the arm that it does not take.

Failing is sticky: after the first error nothing is emitted but the closing
halt, for which a slot is always kept. Jumps that were emitted before still
land inside the program. Constants are collected to the end.
-/

namespace Reckon

-- ---------------------------------------------------------------------------
-- Options
-- ---------------------------------------------------------------------------

/-- Which source text a program keeps. -/
inductive Echo where
  | none
  /-- The infix text of the tree. -/
  | tree
  | text (t : Text)

/-- Calls of functions whose names start with one of these go to the builtins. -/
def defaultPrefixes : List Text := ["string_", "array_", "math_", "type_"]

def defaultMaxInstructions : Int := 65536

structure CompileOptions where
  /-- Fold constants first. -/
  optimize : Bool := false
  /-- Clear unreachable instructions at the end. -/
  eliminateDeadCode : Bool := false
  prefixes : List Text := defaultPrefixes
  maxInstructions : Int := defaultMaxInstructions
  /-- Entries of a pool; never more than an instruction can refer to. -/
  maxPoolEntries : Int := Pool.capacity
  echo : Echo := .none

-- ---------------------------------------------------------------------------
-- Emitting instructions
-- ---------------------------------------------------------------------------

/-- An instruction to be emitted, with operands of any size. -/
structure Draft where
  op : Opcode
  flag : Nat := 0
  index : Nat := 0
  imm : Int := 0

def Draft.instruction (d : Draft) : Instruction :=
  .ofInts d.op.toByte.toNat d.flag d.index d.imm

/-- Whether flag and index fit their fields. -/
def Draft.fits (d : Draft) : Bool := d.flag ≤ 0xFF && d.index ≤ 0xFFFF

/-- Code under construction. -/
structure Emitter where
  maxInstructions : Int
  prefixes : List Text
  code : Array Instruction := #[]
  /-- Values on the stack at this point. -/
  depth : Int := 0
  maxDepth : Nat := 0
  error : Option CompileError := none
  strings : Pool Text
  ints : Pool Int

namespace Emitter

/-- Records an error, unless there is one already. -/
def fail (e : Emitter) (error : CompileError) : Emitter :=
  match e.error with
  | some _ => e
  | none => { e with error := some error }

/-- The number of slots that an operation may fill: the last one is for the closing
    halt. -/
def slots (e : Emitter) (op : Opcode) : Int :=
  if op = .halt then e.maxInstructions else e.maxInstructions - 1

/-- Appends an instruction that changes the depth of the stack by `effect`, and
    gives its slot. After an error only a halt is appended. -/
def emit (e : Emitter) (effect : Int) (d : Draft) : Option Nat × Emitter :=
  if e.error.isSome && d.op ≠ .halt then (none, e)
  else if e.slots d.op ≤ e.code.size then (none, e.fail (.instructionLimit e.maxInstructions))
  else if !d.fits then (none, e.fail (.operandRange d.op))
  else
    let pc := e.code.size
    let depth := e.depth + effect
    (some pc, { e with
      code := e.code.push d.instruction
      depth := depth
      maxDepth := max e.maxDepth depth.toNat })

/-- Appends an instruction whose slot does not matter. -/
def append (e : Emitter) (effect : Int) (d : Draft) : Emitter := (e.emit effect d).2

/-- Directs the jump in a slot to the slot that comes next. -/
def land (e : Emitter) (slot : Option Nat) : Emitter :=
  match slot with
  | none => e
  | some pc =>
    let offset : Int := e.code.size - pc
    { e with code := e.code.modify pc fun i => { i with imm := .ofInt offset } }

/-- Adds a text to the constants. -/
def addString (e : Emitter) (s : Text) : Option Nat × Emitter :=
  match e.strings.add s with
  | (some i, pool) => (some i, { e with strings := pool })
  | (none, pool) => (none, { e with strings := pool }.fail .stringPool)

/-- Adds an integer to the constants. -/
def addInt (e : Emitter) (n : Int) : Option Nat × Emitter :=
  match e.ints.add n with
  | (some i, pool) => (some i, { e with ints := pool })
  | (none, pool) => (none, { e with ints := pool }.fail .integerPool)

/-- Appends an instruction that refers to a text. -/
def appendNamed (e : Emitter) (effect : Int) (op : Opcode) (name : Text) (imm : Int) : Emitter :=
  match e.addString name with
  | (some i, e) => e.append effect { op, index := i, imm }
  | (none, e) => e

/-- Whether an integer fits an immediate of 32 bits. -/
def fitsImmediate (n : Int) : Bool := -2147483648 ≤ n && n ≤ 2147483647

/-- Appends the push of an integer: as an immediate, or wrapped and pooled. -/
def appendInt (e : Emitter) (n : Int) : Emitter :=
  if fitsImmediate n then e.append 1 { op := .pushInt, imm := n }
  else match e.addInt (wrap64 n) with
    | (some i, e) => e.append 1 { op := .pushInt, flag := 1, index := i }
    | (none, e) => e

def appendLiteral (e : Emitter) : Literal → Emitter
  | .int n => e.appendInt n
  | .float x => e.appendNamed 1 .pushFloat x.constantText 0
  | .string s => e.appendNamed 1 .pushString s 0
  | .bool b => e.append 1 { op := .pushBool, flag := if b then 1 else 0 }
  | .null => e.append 1 { op := .pushNull }

/-- Checks that the code of a node, emitted at depth `before`, left one value. -/
def balanced (node : Expr) (before : Int) (e : Emitter) : Emitter :=
  if e.error.isNone && e.depth ≠ before + 1 then e.fail (.stackImbalance node.kind) else e

/-- The operation that calls a function. -/
def callOpcode (e : Emitter) (callee : Text) : Opcode :=
  if e.prefixes.any callee.startsWith then .callBuiltin else .callFunction

end Emitter

/-- An emitter before the first instruction. -/
def CompileOptions.emitter (o : CompileOptions) : Emitter :=
  let limit := min o.maxPoolEntries Pool.capacity
  { maxInstructions := o.maxInstructions, prefixes := o.prefixes,
    strings := ⟨limit, []⟩, ints := ⟨limit, []⟩ }

-- ---------------------------------------------------------------------------
-- The code of a tree
-- ---------------------------------------------------------------------------

namespace Expr

open Emitter (balanced)

mutual

/-- Emits the code of a node. -/
def emit : Expr → Emitter → Emitter
  | .lit l, e => e.appendLiteral l
  | .var name, e => e.appendNamed 1 .loadVar name 0
  | .field owner name, e => (e.appendNamed 1 .loadVar owner 0).appendNamed 0 .getProp name 0
  | .member target property, e =>
    (balanced target e.depth (emit target e)).appendNamed 0 .getProp property 0
  | .computed target key, e =>
    let e := balanced target e.depth (emit target e)
    (balanced key e.depth (emit key e)).append (-1) { op := .getComputed }
  | .index target position, e =>
    let e := balanced target e.depth (emit target e)
    (balanced position e.depth (emit position e)).append (-1) { op := .getIndex }
  | .binary op left right, e =>
    let e := balanced left e.depth (emit left e)
    (balanced right e.depth (emit right e)).append (-1) { op := .binary op }
  | .unary op operand, e =>
    (balanced operand e.depth (emit operand e)).append 0 { op := .unary op }
  | .cond test consequent alternate, e =>
    let e := balanced test e.depth (emit test e)
    let (toElse, e) := e.emit (-1) { op := .jumpIfFalse }
    let armDepth := e.depth
    let e := balanced consequent e.depth (emit consequent e)
    let (toEnd, e) := e.emit 0 { op := .jump }
    let e := { e.land toElse with depth := armDepth }
    (balanced alternate e.depth (emit alternate e)).land toEnd
  | .call callee args, e =>
    let e := emitArgs args e
    e.appendNamed (1 - args.length) (e.callOpcode callee) callee args.length
  | .method receiver name args, e =>
    let e := emitArgs args (balanced receiver e.depth (emit receiver e))
    e.appendNamed (-args.length) .callMethod name args.length
  | .group inner, e => emit inner e
  | .array elements, e =>
    (emitAll elements e).append (1 - elements.length) { op := .buildArray, imm := elements.length }
  | .object properties, e =>
    (emitProperties properties e).append (1 - 2 * properties.length)
      { op := .buildObject, imm := properties.length }
  | .unknown _, e => e.append 1 { op := .pushNull }

/-- Emits the code of arguments, last to first. -/
def emitArgs : List Expr → Emitter → Emitter
  | [], e => e
  | x :: xs, e =>
    let e := emitArgs xs e
    balanced x e.depth (emit x e)

/-- Emits the code of elements, first to last. -/
def emitAll : List Expr → Emitter → Emitter
  | [], e => e
  | x :: xs, e => emitAll xs (balanced x e.depth (emit x e))

/-- Emits a key and the code of a value for each property. -/
def emitProperties : List (Text × Expr) → Emitter → Emitter
  | [], e => e
  | (k, x) :: xs, e =>
    let e := e.appendNamed 1 .pushString k 0
    emitProperties xs (balanced x e.depth (emit x e))

end

-- ---------------------------------------------------------------------------
-- Programs
-- ---------------------------------------------------------------------------

/-- The code of the whole tree with the closing halt. -/
def emitProgram (o : CompileOptions) (x : Expr) : Emitter :=
  let x := if o.optimize then x.fold else x
  (balanced x 0 (emit x o.emitter)).append 0 { op := .halt }

/-- Compiles a tree. -/
def compile (o : CompileOptions) (x : Expr) : Program :=
  let e := emitProgram o x
  let words := Words.assemble e.code
  let (words, eliminated) :=
    if o.eliminateDeadCode then words.eliminate e.code.size else (words, 0)
  { words, count := e.code.size, strings := e.strings.entries, ints := e.ints.entries,
    stackNeed := e.maxDepth
    source := match o.echo with
      | .none => none
      | .tree => some x.source
      | .text t => some t
    failure := e.error.map .compile
    eliminated }

end Expr

end Reckon
