-- SUMMARY: A run looks at nothing that was logged before it, and leaves it where it is.
import Reckon.Proofs.Actions

/-!
# Runs and the log

Neither builtins nor handlers are shown the log. So a run goes the same way
whatever was logged before, and puts its own events in front.
-/

namespace Reckon

/-- The context with earlier events behind its own. -/
def Context.onto (c : Context) (earlier : Log) : Context := { c with log := c.log ++ earlier }

def Flow.onto (earlier : Log) : Flow → Flow
  | .next skip c => .next skip (c.onto earlier)
  | .stop c => .stop (c.onto earlier)
  | .raise message c => .raise message (c.onto earlier)

variable (earlier : Log)

theorem Log.deliver_append (log : Log) (handler : Option Handler) (r : Report) :
    Log.deliver (log ++ earlier) handler r = (log.deliver handler r).map (· ++ earlier) := by
  unfold deliver
  cases handler with
  | none => rfl
  | some h =>
    dsimp only
    cases h r <;> rfl

namespace Context

variable (c : Context)

theorem fail_onto (f : Fault) : (c.onto earlier).fail f = (c.fail f).onto earlier := by
  have hfault : (c.onto earlier).fault = c.fault := rfl
  cases hc : c.fault with
  | none =>
    unfold fail
    rw [hfault, hc]
    rfl
  | some g => rw [fail_of_some hc, fail_of_some (hfault.trans hc)]

theorem push_onto (env : Environment) (v : Value) :
    (c.onto earlier).push env v = (c.push env v).onto earlier := by
  unfold push
  rw [fail_onto]
  show (if env.maxStack ≤ c.stack.size then _ else _) = _
  split <;> rfl

theorem pop_onto : (c.onto earlier).pop = (c.pop.1, c.pop.2.onto earlier) := by
  have hstack : (c.onto earlier).stack = c.stack := rfl
  unfold pop
  rw [fail_onto, hstack]
  cases c.stack.pop? <;> rfl

theorem popOnto_onto (vs : List Value) (n : Nat) :
    popOnto vs n (c.onto earlier) = ((popOnto vs n c).1, (popOnto vs n c).2.onto earlier) := by
  induction n generalizing vs c with
  | zero => rfl
  | succ n ih =>
    rw [popOnto, pop_onto]
    exact ih c.pop.2 _

theorem bindAll_onto (binds : List (Text × Value)) :
    (c.onto earlier).bindAll binds = (c.bindAll binds).onto earlier := by
  induction binds generalizing c with
  | nil => rfl
  | cons b binds ih => exact ih (c.bind b.1 b.2)

end Context

theorem Machine.callBuiltin_onto (env : Environment) (c : Context) (name : Text)
    (args : List Value) :
    callBuiltin env (c.onto earlier) name args = (callBuiltin env c name args).onto earlier := by
  have hscope : (⟨(c.onto earlier).resolve env, (c.onto earlier).stack.size⟩ : Scope) =
      ⟨c.resolve env, c.stack.size⟩ := rfl
  have hlogged : { c.onto earlier with
      log := .called name args (c.onto earlier).stack.size :: (c.onto earlier).log } =
      ({ c with log := .called name args c.stack.size :: c.log } : Context).onto earlier := rfl
  simp only [callBuiltin, hscope, hlogged, Context.bindAll_onto, Context.push_onto]
  cases env.builtins.call name ⟨c.resolve env, c.stack.size⟩ args with
  | unregistered => rfl
  | refused => rfl
  | replied reply =>
    dsimp only
    generalize Context.bindAll { c with log := .called name args c.stack.size :: c.log }
      reply.binds = bound
    have hlog : (bound.onto earlier).log = bound.log ++ earlier := rfl
    cases reply.result with
    | ok v => rfl
    | error error =>
      simp only [hlog, Log.deliver_append]
      cases bound.log.deliver env.onError (.builtinThrew name error) with
      | error message => rfl
      | ok log =>
        exact congrArg (Flow.next 0) (Context.push_onto earlier { bound with log } env .null)

theorem Action.perform_onto (env : Environment) (a : Action) (c : Context) :
    a.perform env (c.onto earlier) = (a.perform env c).onto earlier := by
  have hstack : (c.onto earlier).stack = c.stack := rfl
  cases a with
  | stop => rfl
  | refuse f => simp only [perform, Context.fail_onto, Flow.onto]
  | pass skip => rfl
  | branch skip taken => simp only [perform, Context.pop_onto, Flow.onto]
  | drop => simp only [perform, Context.pop_onto, Flow.onto]
  | duplicate =>
    simp only [perform, hstack]
    cases c.stack.pop? <;> simp only [Context.fail_onto, Context.push_onto, Flow.onto]
  | exchange =>
    simp only [perform, hstack, Context.fail_onto]
    cases c.stack.swap? <;> rfl
  | load name => exact congrArg (Flow.next 0) (Context.push_onto earlier c env _)
  | compute arity f =>
    simp only [perform, Context.popMany, Context.popOnto_onto, Context.push_onto, Flow.onto]
  | call name argc =>
    simp only [perform, Context.popArgs, Context.popMany, Context.popOnto_onto,
      Machine.callBuiltin_onto]
  | mistake f => simp only [perform, Context.fail_onto, Context.push_onto, Flow.onto]

theorem Machine.runFrom_onto (env : Environment) (p : Program) (pc : Nat) (c : Context) :
    runFrom env p pc (c.onto earlier) =
      ((runFrom env p pc c).1, (runFrom env p pc c).2.onto earlier) := by
  have hexec : ∀ pc c, exec env p pc (p.fetch pc) (c.onto earlier) =
      (exec env p pc (p.fetch pc) c).onto earlier := by
    intro pc c
    rw [exec_eq_perform, exec_eq_perform, Action.perform_onto]
  fun_induction runFrom env p pc c with
  | case1 pc c hlt skip c' hnext ih =>
    rw [runFrom, if_pos hlt, hexec, hnext]
    exact ih
  | case2 pc c hlt c' hstop =>
    rw [runFrom, if_pos hlt, hexec, hstop]
    rfl
  | case3 pc c hlt message c' hraise =>
    rw [runFrom, if_pos hlt, hexec, hraise]
    rfl
  | case4 pc c hge => rw [runFrom, if_neg hge]

/-- What was logged before makes no difference to a run. -/
theorem Context.run_onto (env : Environment) (p : Program) (c : Context) :
    (c.onto earlier).run env p = ((c.run env p).1, (c.run env p).2.onto earlier) := by
  have hstart : { c.onto earlier with used := true } =
      ({ c with used := true } : Context).onto earlier := rfl
  have hused : (c.onto earlier).used = c.used := rfl
  unfold run
  rw [hused, hstart, Machine.runFrom_onto, fail_onto]
  split
  · rfl
  · generalize Machine.runFrom env p 0 { c with used := true } = r
    obtain ⟨message?, c'⟩ := r
    cases message? <;> rfl

end Reckon
