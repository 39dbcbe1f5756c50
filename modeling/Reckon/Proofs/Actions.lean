-- SUMMARY: What an instruction asks of the machine, in a few actions, and that faults stay.
import Reckon.Proofs.Heights

/-!
# Actions

The machine has many instructions, but it does only a few kinds of things. An
action says which of them an instruction asks for, with its constants looked up
and its offset checked. Facts about runs of arbitrary programs are shown for
actions and carried to instructions by one equation.
-/

namespace Reckon

/-- What an instruction asks of the machine. -/
inductive Action where
  | stop
  /-- Stops with a fault. -/
  | refuse (f : Fault)
  | pass (skip : Nat)
  /-- Pops a value, and passes over `skip` slots if it is one of the given. -/
  | branch (skip : Nat) (taken : Value → Bool)
  | drop
  | duplicate
  | exchange
  | load (name : Text)
  /-- Pops values and pushes the one that they determine. -/
  | compute (arity : Nat) (f : List Value → Value)
  | call (name : Text) (argc : Nat)
  /-- Remembers a fault and pushes null. -/
  | mistake (f : Fault)

namespace Action

/-- What the machine does for an action. -/
def perform (env : Environment) : Action → Context → Flow
  | .stop, c => .stop c
  | .refuse f, c => .stop (c.fail f)
  | .pass skip, c => .next skip c
  | .branch skip taken, c =>
    let (v, c) := c.pop
    .next (if taken v then skip else 0) c
  | .drop, c => .next 0 c.pop.2
  | .duplicate, c =>
    match c.stack.pop? with
    | some (v, _) => .next 0 (c.push env v)
    | none => .next 0 ((c.fail .stackUnderflow).push env .null)
  | .exchange, c =>
    match c.stack.swap? with
    | some stack => .next 0 { c with stack }
    | none => .next 0 (c.fail .stackUnderflow)
  | .load name, c => .next 0 (c.push env (c.resolve env name))
  | .compute arity f, c =>
    let (vs, c) := c.popMany arity
    .next 0 (c.push env (f vs))
  | .call name argc, c =>
    let (args, c) := c.popArgs argc
    Machine.callBuiltin env c name args
  | .mistake f, c => .next 0 ((c.fail f).push env .null)

/-- Pushes a constant. -/
def constant (v : Value) : Action := .compute 0 fun _ => v

/-- A jump by `offset` from slot `pc`, which has to go forward. -/
def forward (pc : Nat) (offset : Int) (go : Nat → Action) : Action :=
  if offset ≤ 0 then .refuse (.nonForwardJump pc) else go (offset.toNat - 1)

end Action

/-- The action that an instruction in slot `pc` asks for. -/
def Program.action (p : Program) (pc : Nat) (i : Instruction) : Action :=
  let string? := p.strings[i.index.toNat]?
  let operands := i.imm.toInt.toNat
  match i.opcode? with
  | some .nop => .pass 0
  | some .halt => .stop
  | some .pushInt =>
    .constant ((if i.flag = 0 then some i.imm.toInt else p.ints[i.index.toNat]?).elim .null .ofInt)
  | some .pushFloat => .constant (string?.elim .null fun t => .float t.toDouble)
  | some .pushString => .constant (string?.elim .null .string)
  | some .pushBool => .constant (.bool (i.flag ≠ 0))
  | some .pushNull => .constant .null
  | some .dup => .duplicate
  | some .pop => .drop
  | some .swap => .exchange
  | some .loadVar => string?.elim (.constant .null) .load
  | some .getProp => .compute 1 fun vs => string?.elim .null (vs.headD .null).property
  | some .getComputed | some .getIndex =>
    .compute 2 fun vs => (vs.headD .null).computed (vs.getD 1 .null)
  | some .callMethod =>
    .compute (operands + 1) fun vs =>
      string?.elim .null fun name => (vs.headD .null).callMethod name vs.tail.reverse
  | some .callBuiltin =>
    string?.elim (.compute operands fun _ => .null) fun name => .call name operands
  | some .callFunction => .compute operands fun _ => .null
  | some (.binary op) => .compute 2 fun vs => op.apply (vs.headD .null) (vs.getD 1 .null)
  | some (.unary op) => .compute 1 fun vs => op.apply (vs.headD .null)
  | some .jump => .forward pc i.imm.toInt .pass
  | some .jumpIfFalse => .forward pc i.imm.toInt fun skip => .branch skip fun v => !v.isTruthy
  | some .jumpIfTrue => .forward pc i.imm.toInt fun skip => .branch skip Value.isTruthy
  | some .buildArray => .compute operands .array
  | some .buildObject => .compute (2 * operands) fun vs => .object (Machine.objectOf vs [])
  | none => .mistake (.unknownOpcode i.op pc)

/-! ## Instructions as actions -/

theorem Context.popOnto_succ (vs : List Value) (n : Nat) (c : Context) :
    popOnto vs (n + 1) c =
      ((popOnto vs n c).2.pop.1 :: (popOnto vs n c).1, (popOnto vs n c).2.pop.2) := by
  induction n generalizing vs c with
  | zero => rfl
  | succ n ih => exact ih (c.pop.1 :: vs) c.pop.2

theorem Action.perform_forward (env : Environment) (pc : Nat) (offset : Int) (go : Nat → Action)
    (taken : Context → Bool × Context) (c : Context)
    (hgo : ∀ skip, (go skip).perform env c =
      .next (if (taken c).1 then skip else 0) (taken c).2) :
    (forward pc offset go).perform env c = Machine.jump pc offset c taken := by
  unfold forward Machine.jump
  split
  · rfl
  · exact hgo _

/-- The machine does for an instruction what its action says. -/
theorem Machine.exec_eq_perform (env : Environment) (p : Program) (pc : Nat) (i : Instruction)
    (c : Context) : exec env p pc i c = (p.action pc i).perform env c := by
  unfold exec Program.action
  cases hop : i.opcode? with
  | none => rfl
  | some op =>
    cases op with
    | loadVar => cases p.strings[i.index.toNat]? <;> rfl
    | callBuiltin => cases p.strings[i.index.toNat]? <;> rfl
    | callMethod =>
      simp only [Action.perform, Context.popMany, Context.popOnto_succ]
      rfl
    | jump => exact (Action.perform_forward env pc _ _ _ c fun skip => rfl).symm
    | jumpIfFalse => exact (Action.perform_forward env pc _ _ _ c fun skip => rfl).symm
    | jumpIfTrue => exact (Action.perform_forward env pc _ _ _ c fun skip => rfl).symm
    | _ => rfl

/-! ## The instructions of actions -/

namespace Instruction

def isJump (i : Instruction) : Bool :=
  i.opcode? = some .jump || i.opcode? = some .jumpIfFalse || i.opcode? = some .jumpIfTrue

/-- A run goes no further than this instruction: it is a halt, or a jump that does not go
    forward. -/
def Final (i : Instruction) : Prop :=
  i.opcode? = some .halt ∨ i.isJump = true ∧ i.imm.toInt ≤ 0

theorem not_final {i : Instruction}
    (hop : i.opcode? ∉ [some .halt, some .jump, some .jumpIfFalse, some .jumpIfTrue]) :
    ¬ i.Final := by
  simp_all [Final, isJump]

end Instruction

namespace Program

variable (p : Program) (pc : Nat) (i : Instruction)

/-- What is known of the instruction in slot `pc` from the action that it asks for. -/
def AsksFor : Action → Prop
  | .stop => i.opcode? = some .halt
  | .refuse f => i.isJump = true ∧ i.imm.toInt ≤ 0 ∧ f = .nonForwardJump pc
  | .load name => i.opcode? = some .loadVar ∧ p.strings[i.index.toNat]? = some name
  | .call name argc =>
    i.opcode? = some .callBuiltin ∧ p.strings[i.index.toNat]? = some name ∧
      argc = i.imm.toInt.toNat
  | _ => ¬ i.Final

theorem asksFor_forward {go : Nat → Action} (hjump : i.isJump = true)
    (hgo : ∀ skip, ¬ i.Final → p.AsksFor pc i (go skip)) :
    p.AsksFor pc i (.forward pc i.imm.toInt go) := by
  unfold Action.forward
  split
  next hoffset => exact ⟨hjump, hoffset, rfl⟩
  next hoffset =>
    refine hgo _ ?_
    rintro (hop | ⟨-, hback⟩)
    · simp [Instruction.isJump, hop] at hjump
    · exact hoffset hback

theorem asksFor_action : p.AsksFor pc i (p.action pc i) := by
  unfold action
  cases hop : i.opcode? with
  | none => exact Instruction.not_final (by simp [hop])
  | some op =>
    cases op with
    | halt => exact hop
    | jump => exact p.asksFor_forward pc i (by simp [Instruction.isJump, hop]) fun _ h => h
    | jumpIfFalse => exact p.asksFor_forward pc i (by simp [Instruction.isJump, hop]) fun _ h => h
    | jumpIfTrue => exact p.asksFor_forward pc i (by simp [Instruction.isJump, hop]) fun _ h => h
    | loadVar =>
      cases hstring : p.strings[i.index.toNat]? with
      | none => exact Instruction.not_final (by simp [hop])
      | some name => exact ⟨hop, hstring⟩
    | callBuiltin =>
      cases hstring : p.strings[i.index.toNat]? with
      | none => exact Instruction.not_final (by simp [hop])
      | some name => exact ⟨hop, hstring, rfl⟩
    | _ => exact Instruction.not_final (by simp [hop])

end Program

/-! ## Faults stay -/

/-- The context that an instruction leaves. -/
def Flow.context : Flow → Context
  | .next _ c => c
  | .stop c => c
  | .raise _ c => c

section

variable {env : Environment} {c : Context} {f : Fault}

theorem Context.fault_fail (g : Fault) (hc : c.fault = some f) : (c.fail g).fault = some f := by
  rw [fail_of_some hc, hc]

theorem Context.fault_bindAll (binds : List (Text × Value)) :
    (c.bindAll binds).fault = c.fault := by
  induction binds generalizing c with
  | nil => rfl
  | cons b binds ih => exact ih

theorem Context.fault_popMany (n : Nat) (hc : c.fault = some f) :
    (c.popMany n).2.fault = some f := by
  rw [popMany, popOnto_snd]
  exact fault_popped n hc

theorem Machine.fault_callBuiltin (name : Text) (args : List Value) (hc : c.fault = some f) :
    (callBuiltin env c name args).context.fault = some f := by
  have hreplied : ∀ reply, (replied c name args reply).fault = some f :=
    fun reply => (Context.fault_bindAll _).trans hc
  have hcalls := calls_callBuiltin env c name args
  generalize callBuiltin env c name args = flow at hcalls ⊢
  cases hcalls with
  | unreached => exact Context.fault_push _ hc
  | returned hcall hresult => exact Context.fault_push _ (hreplied _)
  | reported hcall hresult hdeliver => exact Context.fault_push _ (hreplied _)
  | raised hcall hresult hdeliver => exact hreplied _

theorem Action.fault_perform (a : Action) (hc : c.fault = some f) :
    (a.perform env c).context.fault = some f := by
  cases a with
  | stop => exact hc
  | refuse g => exact Context.fault_fail g hc
  | pass skip => exact hc
  | branch skip taken => exact Context.fault_pop hc
  | drop => exact Context.fault_pop hc
  | duplicate =>
    simp only [perform]
    split
    · exact Context.fault_push _ hc
    · exact Context.fault_push _ (Context.fault_fail _ hc)
  | exchange =>
    simp only [perform]
    split
    · exact hc
    · exact Context.fault_fail _ hc
  | load name => exact Context.fault_push _ hc
  | compute arity g => exact Context.fault_push _ (Context.fault_popMany arity hc)
  | call name argc => exact Machine.fault_callBuiltin name _ (Context.fault_popMany argc hc)
  | mistake g => exact Context.fault_push _ (Context.fault_fail g hc)

/-- A run keeps the fault that it starts with. -/
theorem Machine.fault_runFrom (p : Program) (pc : Nat) (hc : c.fault = some f) :
    (runFrom env p pc c).2.fault = some f := by
  have hstep : ∀ pc c, c.fault = some f →
      (exec env p pc (p.fetch pc) c).context.fault = some f := by
    intro pc c hc
    rw [exec_eq_perform]
    exact (p.action pc (p.fetch pc)).fault_perform hc
  fun_induction runFrom env p pc c with
  | case1 pc c hlt skip c' hexec ih =>
    have hnext := hstep pc c hc
    rw [hexec] at hnext
    exact ih hnext
  | case2 pc c hlt c' hexec =>
    have hnext := hstep pc c hc
    rwa [hexec] at hnext
  | case3 pc c hlt message c' hexec =>
    have hnext := hstep pc c hc
    rwa [hexec] at hnext
  | case4 pc c hge => exact hc

end

end Reckon
