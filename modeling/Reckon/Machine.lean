-- SUMMARY: The machine: evaluation contexts, the effect of one instruction, and runs of a program.
import Reckon.Value.Access
import Reckon.Double.Reader
import Reckon.Machine.Builtin
import Reckon.Machine.Stack
import Reckon.Report

/-!
# The machine

The machine runs a program over a stack of values and yields one value.
Variables are looked up among the local bindings and then in the state. A fault
is remembered, the first one only, and does not stop the run: it makes the
result null. A run ends at a halt, when control leaves the program, or at a jump
that does not go forward. Since control only moves forward, every run ends.
-/

namespace Reckon

-- ---------------------------------------------------------------------------
-- Environments and contexts
-- ---------------------------------------------------------------------------

def defaultMaxStack : Nat := 1024

/-- What a run is given. -/
structure Environment where
  state : Entries Value := []
  builtins : BuiltinTable := []
  /-- The most values on the stack. -/
  maxStack : Int := defaultMaxStack
  onError : Option Handler := none

/-- The state of an evaluation, good for one run. -/
structure Context where
  locals : Entries Value := []
  stack : Stack := .empty
  /-- The first fault. -/
  fault : Option Fault := none
  used : Bool := false
  log : Log := []
deriving Inhabited

namespace Context

/-- Binds a local variable. -/
def bind (c : Context) (name : Text) (v : Value) : Context :=
  { c with locals := Entries.insert c.locals name v }

/-- Binds local variables in order. -/
def bindAll (c : Context) (binds : List (Text × Value)) : Context :=
  binds.foldl (fun c (name, v) => c.bind name v) c

/-- The value of a variable: a local one, then one of the state, then null. -/
def resolve (c : Context) (env : Environment) (name : Text) : Value :=
  ((Entries.get? c.locals name).or (Entries.get? env.state name)).getD .null

/-- Remembers a fault, unless there is one already. -/
def fail (c : Context) (f : Fault) : Context :=
  match c.fault with
  | some _ => c
  | none => { c with fault := some f }

/-- Pushes a value; a full stack stays as it is. -/
def push (c : Context) (env : Environment) (v : Value) : Context :=
  if env.maxStack ≤ c.stack.size then c.fail (.stackOverflow env.maxStack)
  else { c with stack := c.stack.push v }

/-- Pops a value, null if there is none. -/
def pop (c : Context) : Value × Context :=
  match c.stack.pop? with
  | some (v, stack) => (v, { c with stack })
  | none => (.null, c.fail .stackUnderflow)

/-- Pops `n` values in front of `popped`, which was popped before. The result is in
    the order in which the values were pushed. -/
def popOnto (popped : List Value) : Nat → Context → List Value × Context
  | 0, c => (popped, c)
  | n + 1, c =>
    let (v, c) := c.pop
    popOnto (v :: popped) n c

/-- Pops `n` values and gives them in the order in which they were pushed. -/
def popMany (c : Context) (n : Nat) : List Value × Context := popOnto [] n c

/-- Pops `n` arguments, which were pushed last to first. -/
def popArgs (c : Context) (n : Nat) : List Value × Context :=
  let (args, c) := c.popMany n
  (args.reverse, c)

end Context

-- ---------------------------------------------------------------------------
-- One instruction
-- ---------------------------------------------------------------------------

/-- Where control goes after an instruction. -/
inductive Flow where
  /-- Past `skip` slots after the current one. -/
  | next (skip : Nat) (c : Context)
  | stop (c : Context)
  /-- An error handler threw an error with the given message. -/
  | raise (message : Text) (c : Context)

namespace Machine

/-- The object of keys and values that were pushed in turn. Keys that are not
    strings are dropped with their values. -/
def objectOf : List Value → Entries Value → Entries Value
  | .string k :: v :: rest, entries => objectOf rest (Entries.insert entries k v)
  | _ :: _ :: rest, entries => objectOf rest entries
  | _, entries => entries

/-- Calls a builtin. What is not registered or does not accept the arguments gives
    null, and so does a builtin that throws once the throw was reported. -/
def callBuiltin (env : Environment) (c : Context) (name : Text) (args : List Value) : Flow :=
  let scope : Scope := ⟨c.resolve env, c.stack.size⟩
  match env.builtins.call name scope args with
  | .unregistered => .next 0 (c.push env .null)
  | .refused => .next 0 (c.push env .null)
  | .replied reply =>
    let c := { c with log := .called name args c.stack.size :: c.log }
    let c := c.bindAll reply.binds
    match reply.result with
    | .ok v => .next 0 (c.push env v)
    | .error error =>
      match c.log.deliver env.onError (.builtinThrew name error) with
      | .ok log => .next 0 ({ c with log }.push env .null)
      | .error message => .raise message c

/-- The context behind a builtin that was called and gave a reply. -/
def replied (c : Context) (name : Text) (args : List Value) (reply : Reply) : Context :=
  Context.bindAll { c with log := .called name args c.stack.size :: c.log } reply.binds

/-- All that a call of a builtin can come to. -/
inductive Calls (env : Environment) (c : Context) (name : Text) (args : List Value) :
    Flow → Prop where
  /-- No builtin is reached. -/
  | unreached : Calls env c name args (.next 0 (c.push env .null))
  | returned {reply : Reply} {v : Value}
    (hcall : env.builtins.call name ⟨c.resolve env, c.stack.size⟩ args = .replied reply)
    (hresult : reply.result = .ok v) :
    Calls env c name args (.next 0 ((replied c name args reply).push env v))
  /-- The builtin throws, and the host is told. -/
  | reported {reply : Reply} {error : Text} {log : Log}
    (hcall : env.builtins.call name ⟨c.resolve env, c.stack.size⟩ args = .replied reply)
    (hresult : reply.result = .error error)
    (hdeliver : (replied c name args reply).log.deliver env.onError (.builtinThrew name error) =
      .ok log) :
    Calls env c name args (.next 0 ({ replied c name args reply with log }.push env .null))
  /-- The builtin throws, and so does the handler. -/
  | raised {reply : Reply} {error message : Text}
    (hcall : env.builtins.call name ⟨c.resolve env, c.stack.size⟩ args = .replied reply)
    (hresult : reply.result = .error error)
    (hdeliver : (replied c name args reply).log.deliver env.onError (.builtinThrew name error) =
      .error message) :
    Calls env c name args (.raise message (replied c name args reply))

theorem calls_callBuiltin (env : Environment) (c : Context) (name : Text) (args : List Value) :
    Calls env c name args (callBuiltin env c name args) := by
  simp only [callBuiltin]
  split
  · exact .unreached
  · exact .unreached
  next hcall =>
    split
    next hresult => exact .returned hcall hresult
    next hresult =>
      split
      next hdeliver => exact .reported hcall hresult hdeliver
      next hdeliver => exact .raised hcall hresult hdeliver

/-- A jump by `offset` if `taken` says so of the context. -/
def jump (pc : Nat) (offset : Int) (c : Context) (taken : Context → Bool × Context) : Flow :=
  if offset ≤ 0 then .stop (c.fail (.nonForwardJump pc))
  else
    let (go, c) := taken c
    .next (if go then offset.toNat - 1 else 0) c

/-- The effect of the instruction in slot `pc`. -/
def exec (env : Environment) (p : Program) (pc : Nat) (i : Instruction) (c : Context) : Flow :=
  let string? := p.strings[i.index.toNat]?
  let operands := i.imm.toInt.toNat
  match i.opcode? with
  | some .nop => .next 0 c
  | some .halt => .stop c
  | some .pushInt =>
    let n? := if i.flag = 0 then some i.imm.toInt else p.ints[i.index.toNat]?
    .next 0 (c.push env (n?.elim .null .ofInt))
  | some .pushFloat => .next 0 (c.push env (string?.elim .null fun t => .float t.toDouble))
  | some .pushString => .next 0 (c.push env (string?.elim .null .string))
  | some .pushBool => .next 0 (c.push env (.bool (i.flag ≠ 0)))
  | some .pushNull => .next 0 (c.push env .null)
  | some .dup =>
    match c.stack.pop? with
    | some (v, _) => .next 0 (c.push env v)
    | none => .next 0 ((c.fail .stackUnderflow).push env .null)
  | some .pop => .next 0 c.pop.2
  | some .swap =>
    match c.stack.swap? with
    | some stack => .next 0 { c with stack }
    | none => .next 0 (c.fail .stackUnderflow)
  | some .loadVar => .next 0 (c.push env (string?.elim .null (c.resolve env)))
  | some .getProp =>
    let (target, c) := c.pop
    .next 0 (c.push env (string?.elim .null target.property))
  | some .getComputed | some .getIndex =>
    let (key, c) := c.pop
    let (target, c) := c.pop
    .next 0 (c.push env (target.computed key))
  | some .callMethod =>
    let (args, c) := c.popArgs operands
    let (receiver, c) := c.pop
    .next 0 (c.push env (string?.elim .null fun name => receiver.callMethod name args))
  | some .callBuiltin =>
    let (args, c) := c.popArgs operands
    match string? with
    | some name => callBuiltin env c name args
    | none => .next 0 (c.push env .null)
  | some .callFunction =>
    let (_, c) := c.popArgs operands
    .next 0 (c.push env .null)
  | some (.binary op) =>
    let (right, c) := c.pop
    let (left, c) := c.pop
    .next 0 (c.push env (op.apply left right))
  | some (.unary op) =>
    let (operand, c) := c.pop
    .next 0 (c.push env (op.apply operand))
  | some .jump => jump pc i.imm.toInt c fun c => (true, c)
  | some .jumpIfFalse => jump pc i.imm.toInt c fun c => let (v, c) := c.pop; (!v.isTruthy, c)
  | some .jumpIfTrue => jump pc i.imm.toInt c fun c => let (v, c) := c.pop; (v.isTruthy, c)
  | some .buildArray =>
    let (items, c) := c.popMany operands
    .next 0 (c.push env (.array items))
  | some .buildObject =>
    let (pushed, c) := c.popMany (2 * operands)
    .next 0 (c.push env (.object (objectOf pushed [])))
  | none => .next 0 ((c.fail (.unknownOpcode i.op pc)).push env .null)

-- ---------------------------------------------------------------------------
-- Runs
-- ---------------------------------------------------------------------------

/-- Runs from slot `pc` to the end. The result has the message of the error that a
    handler threw, if one did. -/
def runFrom (env : Environment) (p : Program) (pc : Nat) (c : Context) : Option Text × Context :=
  if (pc : Int) < p.count then
    match exec env p pc (p.fetch pc) c with
    | .next skip c => runFrom env p (pc + 1 + skip) c
    | .stop c => (none, c)
    | .raise message c => (some message, c)
  else (none, c)
termination_by (p.count - pc).toNat

end Machine

namespace Context

/-- The result of a run that has ended: the top of the stack, and null after a
    fault. -/
def result (c : Context) : Value :=
  match c.fault with
  | some _ => .null
  | none => c.stack.items.head?.getD .null

/-- Runs a program in a fresh context. A context that was run before faults. The
    result is the message of the error that a handler threw, or a value. -/
def run (c : Context) (env : Environment) (p : Program) : Except Text Value × Context :=
  if c.used then (.ok .null, c.fail .contextUsed)
  else
    match Machine.runFrom env p 0 { c with used := true } with
    | (some message, c) => (.error message, c)
    | (none, c) => (.ok c.result, { c with stack := .empty, locals := [] })

end Context

end Reckon
