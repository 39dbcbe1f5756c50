-- SUMMARY: Executions of arbitrary programs: the slots that a run enters, in ascending order, and why it ends.
import Reckon.Proofs.Agreement

/-!
# Executions

A program need not be that of a tree: its words, its count and its constants may
be anything. Whatever they are, control moves forward with each instruction. So
no slot is entered twice, and every run ends: at a halt, at a jump that does not
go forward, or when control has left the program. There is one exception. If a
builtin throws, the handler is told, and if the handler throws in turn, its error
leaves the run at once.
-/

namespace Reckon

/-! ## Executions -/

/-- Called in context `c` with these arguments, the builtin throws, and the handler that is told
    of it throws `message`. -/
def Environment.Throws (env : Environment) (c : Context) (name : Text) (args : List Value)
    (message : Text) : Prop :=
  ∃ reply error handler,
    env.builtins.call name ⟨c.resolve env, c.stack.size⟩ args = .replied reply ∧
    reply.result = .error error ∧ env.onError = some handler ∧
    handler (.builtinThrew name error) = some message

/-- Why a run is over, and at which slot. -/
inductive Ending where
  /-- There is no such slot in the program. -/
  | left (pc : Nat)
  | halted (pc : Nat)
  /-- The jump does not go forward. -/
  | refused (pc : Nat)
  /-- A builtin threw, and so did the handler that was told. -/
  | raised (pc : Nat) (message : Text)

/-- The message of the error that the run ends with. -/
def Ending.message? : Ending → Option Text
  | .raised _ message => some message
  | _ => none

/-- From slot `pc` on, the machine enters the slots of the list, each in the context that
    stands with it, and is left with the last context when the run is over. -/
inductive Executes (env : Environment) (p : Program) :
    Nat → Context → List (Nat × Context) → Ending → Context → Prop where
  | left {pc : Nat} {c : Context} (hpc : p.count ≤ pc) : Executes env p pc c [] (.left pc) c
  | halted {pc : Nat} {c : Context} (hpc : (pc : Int) < p.count)
    (hop : (p.fetch pc).opcode? = some .halt)
    (hexec : Machine.exec env p pc (p.fetch pc) c = .stop c) :
    Executes env p pc c [(pc, c)] (.halted pc) c
  | refused {pc : Nat} {c : Context} (hpc : (pc : Int) < p.count)
    (hjump : (p.fetch pc).isJump = true) (hoffset : (p.fetch pc).imm.toInt ≤ 0)
    (hexec : Machine.exec env p pc (p.fetch pc) c = .stop (c.fail (.nonForwardJump pc))) :
    Executes env p pc c [(pc, c)] (.refused pc) (c.fail (.nonForwardJump pc))
  | raised {pc argc : Nat} {c c' : Context} {name message : Text} (hpc : (pc : Int) < p.count)
    (hop : (p.fetch pc).opcode? = some .callBuiltin)
    (hname : p.strings[(p.fetch pc).index.toNat]? = some name)
    (hargc : argc = (p.fetch pc).imm.toInt.toNat)
    (hthrows : env.Throws (c.popArgs argc).2 name (c.popArgs argc).1 message)
    (hexec : Machine.exec env p pc (p.fetch pc) c = .raise message c') :
    Executes env p pc c [(pc, c)] (.raised pc message) c'
  | next {pc skip : Nat} {c c' c'' : Context} {visits : List (Nat × Context)} {ending : Ending}
    (hpc : (pc : Int) < p.count) (hgo : ¬ (p.fetch pc).Final)
    (hexec : Machine.exec env p pc (p.fetch pc) c = .next skip c')
    (hrest : Executes env p (pc + 1 + skip) c' visits ending c'') :
    Executes env p pc c ((pc, c) :: visits) ending c''

/-! ## Every run is an execution -/

theorem Log.deliver_error {log : Log} {handler? : Option Handler} {r : Report} {message : Text}
    (h : log.deliver handler? r = .error message) :
    ∃ handler, handler? = some handler ∧ handler r = some message := by
  unfold deliver at h
  split at h
  · cases h
  next handler =>
    split at h
    · cases h
    next hmessage =>
      cases h
      exact ⟨handler, rfl, hmessage⟩

namespace Machine

variable (env : Environment) (p : Program) (pc : Nat) (i : Instruction) (c : Context)

/-- All that the machine can do at an instruction: halt, refuse to jump, end with the error of a
    handler, or go forward. -/
inductive Allows : Flow → Prop where
  | halt (hop : i.opcode? = some .halt) : Allows (.stop c)
  | refuse (hjump : i.isJump = true) (hoffset : i.imm.toInt ≤ 0) :
    Allows (.stop (c.fail (.nonForwardJump pc)))
  | raise {argc : Nat} {name message : Text} {c' : Context} (hop : i.opcode? = some .callBuiltin)
    (hname : p.strings[i.index.toNat]? = some name) (hargc : argc = i.imm.toInt.toNat)
    (hthrows : env.Throws (c.popArgs argc).2 name (c.popArgs argc).1 message) :
    Allows (.raise message c')
  | next {skip : Nat} {c' : Context} (hgo : ¬ i.Final) : Allows (.next skip c')

theorem allows_exec : Allows env p pc i c (exec env p pc i c) := by
  rw [exec_eq_perform]
  have hasks := p.asksFor_action pc i
  generalize p.action pc i = a at hasks ⊢
  cases a with
  | stop => exact .halt hasks
  | refuse f =>
    obtain ⟨hjump, hoffset, rfl⟩ := hasks
    exact .refuse hjump hoffset
  | load name => exact .next (Instruction.not_final (by simp [hasks.1]))
  | call name argc =>
    obtain ⟨hop, hname, hargc⟩ := hasks
    have hgo : ¬ i.Final := Instruction.not_final (by simp [hop])
    have hcalls := calls_callBuiltin env (c.popArgs argc).2 name (c.popArgs argc).1
    simp only [Action.perform]
    generalize callBuiltin env (c.popArgs argc).2 name (c.popArgs argc).1 = flow at hcalls ⊢
    cases hcalls with
    | unreached => exact .next hgo
    | returned hcall hresult => exact .next hgo
    | reported hcall hresult hdeliver => exact .next hgo
    | raised hcall hresult hdeliver =>
      obtain ⟨handler, hhandler, hthrown⟩ := Log.deliver_error hdeliver
      exact .raise hop hname hargc ⟨_, _, handler, hcall, hresult, hhandler, hthrown⟩
  | duplicate =>
    simp only [Action.perform]
    split <;> exact .next hasks
  | exchange =>
    simp only [Action.perform]
    split <;> exact .next hasks
  | _ => exact .next hasks

/-- Every run is over after an execution of finitely many instructions. -/
theorem exists_executes :
    ∃ visits ending c', Executes env p pc c visits ending c' ∧
      runFrom env p pc c = (ending.message?, c') := by
  fun_induction runFrom env p pc c with
  | case1 pc c hpc skip c' hexec ih =>
    obtain ⟨visits, ending, c'', hrest, hrun⟩ := ih
    cases hexec ▸ allows_exec env p pc (p.fetch pc) c with
    | next hgo => exact ⟨_, ending, c'', .next hpc hgo hexec hrest, hrun⟩
  | case2 pc c hpc c' hexec =>
    cases hexec ▸ allows_exec env p pc (p.fetch pc) c with
    | halt hop => exact ⟨_, _, _, .halted hpc hop hexec, rfl⟩
    | refuse hjump hoffset => exact ⟨_, _, _, .refused hpc hjump hoffset hexec, rfl⟩
  | case3 pc c hpc message c' hexec =>
    cases hexec ▸ allows_exec env p pc (p.fetch pc) c with
    | raise hop hname hargc hthrows =>
      exact ⟨_, _, _, .raised hpc hop hname hargc hthrows hexec, rfl⟩
  | case4 pc c hpc => exact ⟨_, _, _, .left (Int.not_lt.1 hpc), rfl⟩

end Machine

/-! ## What is logged -/

def Event.isCall : Event → Bool
  | .called .. => true
  | _ => false

/-- How many calls of builtins the log tells of. -/
def Log.calls (log : Log) : Nat := log.countP Event.isCall

namespace Context

variable (c : Context)

theorem log_fail (f : Fault) : (c.fail f).log = c.log := by
  unfold fail
  split <;> rfl

theorem log_push (env : Environment) (v : Value) : (c.push env v).log = c.log := by
  unfold push
  split
  · exact c.log_fail _
  · rfl

theorem log_pop : c.pop.2.log = c.log := by
  unfold pop
  split
  · rfl
  · exact c.log_fail _

theorem log_popped (n : Nat) : (c.popped n).log = c.log := by
  induction n generalizing c with
  | zero => rfl
  | succ n ih => exact (ih c.pop.2).trans c.log_pop

theorem log_popMany (n : Nat) : (c.popMany n).2.log = c.log := by
  rw [popMany, popOnto_snd, log_popped]

theorem log_bindAll (binds : List (Text × Value)) : (c.bindAll binds).log = c.log := by
  induction binds generalizing c with
  | nil => rfl
  | cons b binds ih => exact ih (c.bind b.1 b.2)

end Context

theorem Log.deliver_ok {log log' : Log} {handler : Option Handler} {r : Report}
    (h : log.deliver handler r = .ok log') :
    ∃ event, event.isCall = false ∧ log' = event :: log := by
  unfold deliver at h
  split at h
  · cases h
    exact ⟨.printed r, rfl, rfl⟩
  · split at h
    · cases h
      exact ⟨.handled r, rfl, rfl⟩
    · cases h

/-- A builtin that is not reached leaves the log alone. One that is reached logs its call,
    and after it what the host is told. -/
theorem Machine.log_callBuiltin (env : Environment) (c : Context) (name : Text)
    (args : List Value) :
    (callBuiltin env c name args).context.log = c.log ∨
      ∃ reports : Log, reports.calls = 0 ∧ (callBuiltin env c name args).context.log =
        reports ++ .called name args c.stack.size :: c.log := by
  have hreplied : ∀ reply,
      (replied c name args reply).log = .called name args c.stack.size :: c.log :=
    fun reply => Context.log_bindAll _ reply.binds
  have hcalls := calls_callBuiltin env c name args
  generalize callBuiltin env c name args = flow at hcalls ⊢
  cases hcalls with
  | unreached => exact .inl (c.log_push env _)
  | returned hcall hresult =>
    exact .inr ⟨[], rfl, (Context.log_push _ env _).trans (hreplied _)⟩
  | reported hcall hresult hdeliver =>
    obtain ⟨event, hevent, rfl⟩ := Log.deliver_ok hdeliver
    refine .inr ⟨[event], by simp [Log.calls, hevent], (Context.log_push _ env _).trans ?_⟩
    exact congrArg (event :: ·) (hreplied _)
  | raised hcall hresult hdeliver => exact .inr ⟨[], rfl, hreplied _⟩

/-- Nothing is logged but calls of builtins, with the arguments that are popped. -/
theorem Action.log_perform (env : Environment) (a : Action) (c : Context) :
    (a.perform env c).context.log = c.log ∨
      ∃ name argc depth, a = .call name argc ∧ ∃ reports : Log, reports.calls = 0 ∧
        (a.perform env c).context.log =
          reports ++ .called name (c.popArgs argc).1 depth :: c.log := by
  cases a with
  | stop => exact .inl rfl
  | refuse f => exact .inl (c.log_fail f)
  | pass skip => exact .inl rfl
  | branch skip taken => exact .inl c.log_pop
  | drop => exact .inl c.log_pop
  | duplicate =>
    refine .inl ?_
    simp only [perform]
    split
    · exact c.log_push env _
    · exact (Context.log_push _ env _).trans (c.log_fail _)
  | exchange =>
    refine .inl ?_
    simp only [perform]
    split
    · rfl
    · exact c.log_fail _
  | load name => exact .inl (c.log_push env _)
  | compute arity f => exact .inl ((Context.log_push _ env _).trans (c.log_popMany arity))
  | call name argc =>
    have hpopped : (c.popArgs argc).2.log = c.log := c.log_popMany argc
    refine (Machine.log_callBuiltin env (c.popArgs argc).2 name (c.popArgs argc).1).imp ?_ ?_
    · exact fun hlog => hlog.trans hpopped
    · rintro ⟨reports, hreports, hlog⟩
      exact ⟨name, argc, _, rfl, reports, hreports, hpopped ▸ hlog⟩
  | mistake f => exact .inl ((Context.log_push _ env _).trans (c.log_fail f))

theorem Machine.calls_exec (env : Environment) (p : Program) (pc : Nat) (i : Instruction)
    (c : Context) :
    (exec env p pc i c).context.log.calls ≤
      c.log.calls + if i.opcode? = some .callBuiltin then 1 else 0 := by
  rw [exec_eq_perform]
  rcases (p.action pc i).log_perform env c with
    hlog | ⟨name, argc, depth, hcall, reports, hreports, hlog⟩
  · rw [hlog]
    exact Nat.le_add_right _ _
  · have hasks := p.asksFor_action pc i
    rw [hcall] at hasks
    rw [hlog, if_pos hasks.1]
    simp only [Log.calls] at hreports ⊢
    refine Nat.le_of_eq ?_
    rw [List.countP_append, hreports, Nat.zero_add, List.countP_cons_of_pos rfl]

/-! ## Control moves forward -/

/-- How many of the visits are to calls of builtins. -/
def Program.dispatches (p : Program) (visits : List (Nat × Context)) : Nat :=
  visits.countP fun visit => (p.fetch visit.1).opcode? = some .callBuiltin

namespace Executes

variable {env : Environment} {p : Program} {pc : Nat} {c c' : Context}
  {visits : List (Nat × Context)} {ending : Ending}

/-- What every instruction preserves holds throughout and at the end. -/
theorem invariant {P : Context → Prop}
    (hstep : ∀ pc c, P c → P (Machine.exec env p pc (p.fetch pc) c).context)
    (h : Executes env p pc c visits ending c') (hc : P c) :
    (∀ visit ∈ visits, P visit.2) ∧ P c' := by
  have hnext : ∀ {pc c flow}, Machine.exec env p pc (p.fetch pc) c = flow → P c →
      P flow.context := by
    rintro pc c flow rfl hc
    exact hstep pc c hc
  induction h with
  | left hpc => exact ⟨by simp, hc⟩
  | halted hpc hop hexec => exact ⟨by simpa using hc, hnext hexec hc⟩
  | refused hpc hjump hoffset hexec => exact ⟨by simpa using hc, hnext hexec hc⟩
  | raised hpc hop hname hargc hthrows hexec => exact ⟨by simpa using hc, hnext hexec hc⟩
  | next hpc hgo hexec hrest ih =>
    obtain ⟨hvisits, hend⟩ := ih (hnext hexec hc)
    exact ⟨List.forall_mem_cons.2 ⟨hc, hvisits⟩, hend⟩

theorem range (h : Executes env p pc c visits ending c') :
    ∀ visit ∈ visits, pc ≤ visit.1 ∧ (visit.1 : Int) < p.count := by
  induction h with
  | left hpc => simp
  | halted hpc hop hexec => simpa using hpc
  | refused hpc hjump hoffset hexec => simpa using hpc
  | raised hpc hop hname hargc hthrows hexec => simpa using hpc
  | next hpc hgo hexec hrest ih =>
    refine List.forall_mem_cons.2 ⟨⟨Nat.le_refl _, hpc⟩, fun visit hvisit => ?_⟩
    have hvisit := ih visit hvisit
    omega

theorem ascending (h : Executes env p pc c visits ending c') : visits.Pairwise (·.1 < ·.1) := by
  induction h with
  | left hpc => exact .nil
  | halted hpc hop hexec => exact List.pairwise_singleton _ _
  | refused hpc hjump hoffset hexec => exact List.pairwise_singleton _ _
  | raised hpc hop hname hargc hthrows hexec => exact List.pairwise_singleton _ _
  | next hpc hgo hexec hrest ih =>
    refine .cons (fun visit hvisit => ?_) ih
    have hvisit := (hrest.range visit hvisit).1
    omega

theorem length_le (h : Executes env p pc c visits ending c') :
    visits.length ≤ (p.count - pc).toNat := by
  induction h with
  | left hpc => exact Nat.zero_le _
  | halted hpc hop hexec => simp only [List.length_singleton]; omega
  | refused hpc hjump hoffset hexec => simp only [List.length_singleton]; omega
  | raised hpc hop hname hargc hthrows hexec => simp only [List.length_singleton]; omega
  | next hpc hgo hexec hrest ih => simp only [List.length_cons]; omega

theorem calls_le (h : Executes env p pc c visits ending c') :
    c'.log.calls ≤ c.log.calls + p.dispatches visits := by
  induction h with
  | left hpc => exact Nat.le_refl _
  | halted hpc hop hexec => exact Nat.le_add_right _ _
  | refused hpc hjump hoffset hexec =>
    rw [Context.log_fail]
    exact Nat.le_add_right _ _
  | @raised pc argc c c' name message hpc hop hname hargc hthrows hexec =>
    have hcalls := Machine.calls_exec env p pc (p.fetch pc) c
    simpa [hexec, hop, Flow.context, Program.dispatches] using hcalls
  | @next pc skip c c' c'' visits ending hpc hgo hexec hrest ih =>
    have hcalls := Machine.calls_exec env p pc (p.fetch pc) c
    simp only [hexec, Flow.context] at hcalls
    simp only [Program.dispatches, List.countP_cons, decide_eq_true_eq] at ih ⊢
    omega

/-- The machine has no execution but its run. -/
theorem runFrom_eq (h : Executes env p pc c visits ending c') :
    Machine.runFrom env p pc c = (ending.message?, c') := by
  induction h with
  | left hpc =>
    rw [Machine.runFrom, if_neg (Int.not_lt.2 hpc)]
    rfl
  | next hpc hgo hexec hrest ih =>
    rw [Machine.runFrom, if_pos hpc, hexec]
    exact ih
  | halted hpc hop hexec =>
    rw [Machine.runFrom, if_pos hpc, hexec]
    rfl
  | refused hpc hjump hoffset hexec =>
    rw [Machine.runFrom, if_pos hpc, hexec]
    rfl
  | raised hpc hop hname hargc hthrows hexec =>
    rw [Machine.runFrom, if_pos hpc, hexec]
    rfl

/-- What a run throws, the handler has thrown when it was told that a builtin threw. -/
theorem handler_throws {message : Text} (h : Executes env p pc c visits ending c')
    (hmessage : ending.message? = some message) :
    ∃ handler name error, env.onError = some handler ∧
      handler (.builtinThrew name error) = some message := by
  induction h with
  | @raised pc argc c c' name message hpc hop hname hargc hthrows hexec =>
    obtain ⟨reply, error, handler, -, -, hhandler, hthrown⟩ := hthrows
    cases hmessage
    exact ⟨handler, name, error, hhandler, hthrown⟩
  | next hpc hgo hexec hrest ih => exact ih hmessage
  | _ => cases hmessage

theorem message?_eq_none (hq : env.Quiet) (h : Executes env p pc c visits ending c') :
    ending.message? = none := by
  cases hmessage : ending.message? with
  | none => rfl
  | some message =>
    obtain ⟨handler, name, error, hhandler, hthrown⟩ := h.handler_throws hmessage
    rw [hq handler hhandler] at hthrown
    cases hthrown

end Executes

/-- If words come in pairs, there are both words of a slot, or none. In the second case it does
    nothing. -/
theorem Program.fetch_of_paired {p : Program} (hpaired : p.words.Paired) (pc : Nat) :
    2 * pc + 1 < p.words.size ∨ (p.fetch pc).opcode? = some .nop := by
  by_cases hslot : 2 * pc + 1 < p.words.size
  · exact .inl hslot
  · have hfirst : p.words[2 * pc]? = none := by
      rw [Words.Paired] at hpaired
      exact Array.getElem?_eq_none (by omega)
    right
    simp only [fetch, hfirst, Instruction.opcode?]
    decide

namespace Context

theorem exists_run (c : Context) (env : Environment) (p : Program) (hused : c.used = false) :
    ∃ visits ending c', Executes env p 0 { c with used := true } visits ending c' ∧
      c.run env p = finish (ending.message?, c') := by
  obtain ⟨visits, ending, c', hexecutes, hrun⟩ :=
    Machine.exists_executes env p 0 { c with used := true }
  exact ⟨visits, ending, c', hexecutes, by rw [run_eq_finish env p hused, hrun]⟩

/-- Whatever the words, the count and the constants of the program are, a run enters slots of
    the program only, in ascending order, and hence each at most once. Those that lie behind the
    words do nothing. The run calls at most one builtin in each slot that asks for a call. It is
    over at the first halt or jump that does not go forward, or when control has left the
    program, unless a builtin throws and the handler throws again. Words are taken to come in
    pairs. -/
theorem run_moves_forward (c : Context) (env : Environment) (p : Program)
    (hused : c.used = false) (hpaired : p.words.Paired) :
    ∃ visits ending c',
      Executes env p 0 { c with used := true } visits ending c' ∧
      c.run env p = finish (ending.message?, c') ∧
      (∀ message, ending.message? = some message →
        ∃ handler name error, env.onError = some handler ∧
          handler (.builtinThrew name error) = some message) ∧
      visits.Pairwise (·.1 < ·.1) ∧ (∀ visit ∈ visits, (visit.1 : Int) < p.count) ∧
      (∀ visit ∈ visits, 2 * visit.1 + 1 < p.words.size ∨
        (p.fetch visit.1).opcode? = some .nop) ∧
      visits.length ≤ p.count.toNat ∧
      c'.log.calls ≤ c.log.calls + p.dispatches visits ∧
      p.dispatches visits ≤ p.count.toNat := by
  obtain ⟨visits, ending, c', hexecutes, hrun⟩ := c.exists_run env p hused
  have hlength : visits.length ≤ p.count.toNat := by
    simpa using hexecutes.length_le
  refine ⟨visits, ending, c', hexecutes, hrun, fun message => hexecutes.handler_throws,
    hexecutes.ascending, ?_, ?_, hlength, hexecutes.calls_le, ?_⟩
  · exact fun visit hvisit => (hexecutes.range visit hvisit).2
  · exact fun visit _ => Program.fetch_of_paired hpaired visit.1
  · exact Nat.le_trans List.countP_le_length hlength

/-- A jump over a halt, an unknown operation, a call and a jump backward, in a program that
    counts more slots than it has. -/
def wandering : Program where
  words := .assemble #[.ofInts 33 0 0 2, .ofInts 38 0 0 0, .ofInts 99 0 0 0, .ofInts 14 0 0 1,
    .ofInts 35 0 0 (-3)]
  count := 9
  strings := ["math_bump"]

theorem run_wandering :
    ∃ visits ending c',
      Executes {} wandering 0 { used := true } visits ending c' ∧
      Context.run {} {} wandering = finish (ending.message?, c') ∧
      ending.message? = none ∧ c'.fault = some (.unknownOpcode 99 2) ∧
      visits.Pairwise (·.1 < ·.1) ∧ visits.length ≤ 9 ∧ c'.log.calls ≤ 9 := by
  obtain ⟨visits, ending, c', hexecutes, hrun, hthrows, hascending, -, -, hlength, hcalls,
    hdispatches⟩ := run_moves_forward {} {} wandering rfl (by decide)
  have hnone : ending.message? = none := by
    cases hmessage : ending.message? with
    | none => rfl
    | some message =>
      obtain ⟨handler, name, error, hhandler, -⟩ := hthrows message hmessage
      cases hhandler
  have hfault : (Context.run {} {} wandering).2.fault = some (.unknownOpcode 99 2) := by
    decide +kernel
  refine ⟨visits, ending, c', hexecutes, hrun, hnone, ?_, hascending, hlength, ?_⟩
  · rwa [hrun, hnone] at hfault
  · exact Nat.le_trans hcalls (Nat.le_trans (Nat.le_of_eq (Nat.zero_add _)) hdispatches)

/-- A call of a builtin, and a halt behind it. -/
def calling : Program where
  words := .assemble #[.ofInts 14 0 0 0, .ofInts 38 0 0 0]
  count := 2
  strings := ["type_boom"]

/-- The builtin throws, and the handler throws again. -/
def escaping : Environment where
  builtins := [("type_boom", ⟨fun _ _ => { result := .error "boom:" }, {}⟩)]
  onError := some fun r => some ("handler: " ++ r.message)

/-- Neither the halt nor the end of the program is reached if a handler throws, and the error
    leaves the run. -/
theorem run_escaping :
    (Context.run {} escaping calling).1 = .error "handler: builtin \"type_boom\" threw" ∧
      ∀ visits ending c', Executes escaping calling 0 { used := true } visits ending c' →
        ∃ pc, ending = .raised pc "handler: builtin \"type_boom\" threw" := by
  have hthrown : (Machine.runFrom escaping calling 0 { used := true }).1 =
      some "handler: builtin \"type_boom\" threw" := by
    decide +kernel
  refine ⟨?_, fun visits ending c' hexecutes => ?_⟩
  · rw [run_eq_finish escaping calling rfl]
    generalize Machine.runFrom escaping calling 0 { used := true } = last at hthrown ⊢
    obtain ⟨message, c⟩ := last
    cases hthrown
    rfl
  · rw [hexecutes.runFrom_eq] at hthrown
    cases ending with
    | raised pc message =>
      cases hthrown
      exact ⟨pc, rfl⟩
    | _ => cases hthrown

end Context

end Reckon
