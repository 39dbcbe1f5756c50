-- SUMMARY: When two runs of one program agree: same builtins, enough room, and the same values of the variables that it loads.
import Reckon.Proofs.Actions

/-!
# Agreement of runs

Two runs of a program go the same way if every variable that the program loads
has the same value in both, and their builtins are the same and look at no other
variables. The second run may have more room on its stack than the first, if the
first meets no fault. If their logs are to agree, too, the handlers have to be the
same; else the runs part where a handler throws.
-/

namespace Reckon

/-- The builtins see nothing of the variables. -/
def BuiltinTable.Blind (t : BuiltinTable) : Prop :=
  ∀ name b, Entries.get? t name = some b →
    ∀ resolve resolve' depth args, b.fn ⟨resolve, depth⟩ args = b.fn ⟨resolve', depth⟩ args

/-- The builtins see no other variables than those among `names`. -/
def BuiltinTable.Sees (t : BuiltinTable) (names : Text → Prop) : Prop :=
  ∀ name b, Entries.get? t name = some b →
    ∀ resolve resolve' depth args, (∀ name, names name → resolve name = resolve' name) →
      b.fn ⟨resolve, depth⟩ args = b.fn ⟨resolve', depth⟩ args

theorem BuiltinTable.Blind.sees {t : BuiltinTable} (h : t.Blind) (names : Text → Prop) :
    t.Sees names :=
  fun name b hget resolve resolve' depth args _ => h name b hget resolve resolve' depth args

theorem BuiltinTable.Sees.mono {t : BuiltinTable} {names names' : Text → Prop} (h : t.Sees names)
    (hnames : ∀ name, names name → names' name) : t.Sees names' :=
  fun name b hget resolve resolve' depth args hagree =>
    h name b hget resolve resolve' depth args fun name hname => hagree name (hnames name hname)

/-- The program loads the variable in one of its slots. -/
def Program.Loads (p : Program) (name : Text) : Prop :=
  ∃ pc : Nat, (pc : Int) < p.count ∧ (p.fetch pc).opcode? = some .loadVar ∧
    p.strings[(p.fetch pc).index.toNat]? = some name

section

variable (names : Text → Prop) (logged : Prop) (e e' : Environment)

/-- The builtins of two environments are the same and cannot tell apart variables that
    differ outside of `names`; the handlers are the same if logs are compared. -/
structure Environment.Similar : Prop where
  builtins : e'.builtins = e.builtins
  sees : e.builtins.Sees names
  handler : logged → e'.onError = e.onError

/-- The second environment has the room of the first, or more and the first run did not
    fail in `c`. -/
def Environment.Roomy (c : Context) : Prop :=
  e'.maxStack = e.maxStack ∨ e.maxStack ≤ e'.maxStack ∧ c.fault = none

/-- The contexts of two runs agree in all but variables that are not among the names. -/
structure Context.Agree (c c' : Context) : Prop where
  stack : c'.stack = c.stack
  fault : c'.fault = c.fault
  resolve : ∀ name, names name → c'.resolve e' name = c.resolve e name
  log : logged → c'.log = c.log

/-- Two instructions go the same way, or differ because a handler threw. -/
inductive Flow.Agree : Flow → Flow → Prop where
  | next {c c' : Context} (skip : Nat) (h : c.Agree names logged e e' c') :
    Agree (.next skip c) (.next skip c')
  | stop {c c' : Context} (h : c.Agree names logged e e' c') : Agree (.stop c) (.stop c')
  | raise {c c' : Context} (message : Text) (h : c.Agree names logged e e' c') :
    Agree (.raise message c) (.raise message c')
  | raiseLeft {c : Context} {message : Text} {f : Flow} (h : ¬ logged) :
    Agree (.raise message c) f
  | raiseRight {c : Context} {message : Text} {f : Flow} (h : ¬ logged) :
    Agree f (.raise message c)

end

variable {names : Text → Prop} {logged : Prop} {e e' : Environment} {c c' : Context}

/-! ## What keeps contexts in agreement -/

theorem Context.resolve_bind (c : Context) (env : Environment) (key : Text) (v : Value)
    (name : Text) :
    (c.bind key v).resolve env name = if key = name then v else c.resolve env name := by
  simp only [resolve, bind, Entries.get?_insert]
  split <;> rfl

namespace Context.Agree

theorem fail (hc : c.Agree names logged e e' c') (f : Fault) :
    (c.fail f).Agree names logged e e' (c'.fail f) := by
  unfold Context.fail
  rw [hc.fault]
  cases c.fault with
  | some g => exact hc
  | none => exact ⟨hc.stack, rfl, hc.resolve, hc.log⟩

theorem push (hc : c.Agree names logged e e' c') {v v' : Value} (hv : v' = v)
    (hroom : e.Roomy e' (c.push e v)) : (c.push e v).Agree names logged e e' (c'.push e' v') := by
  subst hv
  unfold Context.push at hroom ⊢
  rw [hc.stack]
  by_cases hfull : e.maxStack ≤ c.stack.size
  · rw [if_pos hfull] at hroom ⊢
    rcases hroom with hsame | ⟨-, hfault⟩
    · rw [hsame, if_pos hfull]
      exact hc.fail _
    · cases hnone : c.fault with
      | none => rw [fail_of_none hnone] at hfault; cases hfault
      | some f => rw [fault_fail _ hnone] at hfault; cases hfault
  · have hfree : ¬ e'.maxStack ≤ c.stack.size := by
      rcases hroom with hsame | ⟨hle, -⟩ <;> omega
    rw [if_neg hfull, if_neg hfree]
    exact ⟨rfl, hc.fault, hc.resolve, hc.log⟩

theorem pop (hc : c.Agree names logged e e' c') :
    c'.pop.1 = c.pop.1 ∧ c.pop.2.Agree names logged e e' c'.pop.2 := by
  unfold Context.pop
  rw [hc.stack]
  cases c.stack.pop? with
  | none => exact ⟨rfl, hc.fail _⟩
  | some p => exact ⟨rfl, rfl, hc.fault, hc.resolve, hc.log⟩

theorem popOnto (hc : c.Agree names logged e e' c') (vs : List Value) (n : Nat) :
    (Context.popOnto vs n c').1 = (Context.popOnto vs n c).1 ∧
      (Context.popOnto vs n c).2.Agree names logged e e' (Context.popOnto vs n c').2 := by
  induction n generalizing vs c c' with
  | zero => exact ⟨rfl, hc⟩
  | succ n ih =>
    have hnext : Context.popOnto vs (n + 1) c' = Context.popOnto (c.pop.1 :: vs) n c'.pop.2 := by
      rw [← hc.pop.1]
      rfl
    rw [hnext]
    exact ih hc.pop.2 _

theorem bind (hc : c.Agree names logged e e' c') (key : Text) (v : Value) :
    (c.bind key v).Agree names logged e e' (c'.bind key v) := by
  refine ⟨hc.stack, hc.fault, ?_, hc.log⟩
  intro name hname
  rw [resolve_bind, resolve_bind, hc.resolve name hname]

theorem bindAll (hc : c.Agree names logged e e' c') (binds : List (Text × Value)) :
    (c.bindAll binds).Agree names logged e e' (c'.bindAll binds) := by
  induction binds generalizing c c' with
  | nil => exact hc
  | cons b binds ih => exact ih (hc.bind b.1 b.2)

end Context.Agree

/-! ## Steps -/

/-- Builtins answer both runs alike. -/
theorem Environment.Similar.call (he : Environment.Similar names logged e e')
    (hc : c.Agree names logged e e' c') (name : Text) (args : List Value) :
    e'.builtins.call name ⟨c'.resolve e', c'.stack.size⟩ args =
      e.builtins.call name ⟨c.resolve e, c.stack.size⟩ args := by
  rw [he.builtins, hc.stack]
  unfold BuiltinTable.call
  cases hget : Entries.get? e.builtins name with
  | none => rfl
  | some b => simp only [he.sees name b hget _ _ c.stack.size args hc.resolve]

/-- A report brings no disagreement, but a handler may throw. -/
theorem Flow.agree_deliver (he : Environment.Similar names logged e e')
    (hc : c.Agree names logged e e' c') (r : Report)
    (hroom : ∀ log, c.log.deliver e.onError r = .ok log →
      e.Roomy e' ({ c with log }.push e .null)) :
    Flow.Agree names logged e e'
      (match c.log.deliver e.onError r with
        | .ok log => .next 0 ({ c with log }.push e .null)
        | .error message => .raise message c)
      (match c'.log.deliver e'.onError r with
        | .ok log => .next 0 ({ c' with log }.push e' .null)
        | .error message => .raise message c') := by
  by_cases hsame : logged
  · rw [hc.log hsame, he.handler hsame]
    cases hdeliver : c.log.deliver e.onError r with
    | error message => exact .raise message hc
    | ok log =>
      have hlog : ({ c with log } : Context).Agree names logged e e' { c' with log } :=
        ⟨hc.stack, hc.fault, hc.resolve, fun _ => rfl⟩
      exact .next 0 (hlog.push rfl (hroom log hdeliver))
  · cases hdeliver : c.log.deliver e.onError r with
    | error message => exact .raiseLeft hsame
    | ok log =>
      cases c'.log.deliver e'.onError r with
      | error message => exact .raiseRight hsame
      | ok log' =>
        have hlog : ({ c with log } : Context).Agree names logged e e' { c' with log := log' } :=
          ⟨hc.stack, hc.fault, hc.resolve, fun h => absurd h hsame⟩
        exact .next 0 (hlog.push rfl (hroom log hdeliver))

theorem Environment.Similar.symm (he : Environment.Similar names logged e e') :
    Environment.Similar names logged e' e :=
  ⟨he.builtins.symm, he.builtins.symm ▸ he.sees, fun h => (he.handler h).symm⟩

theorem Machine.callBuiltin_agree (he : Environment.Similar names logged e e')
    (hc : c.Agree names logged e e' c') (name : Text) (args : List Value)
    (hroom : e.Roomy e' (callBuiltin e c name args).context) :
    Flow.Agree names logged e e' (callBuiltin e c name args) (callBuiltin e' c' name args) := by
  simp only [callBuiltin, he.call hc] at hroom ⊢
  cases hcall : e.builtins.call name ⟨c.resolve e, c.stack.size⟩ args with
  | unregistered =>
    rw [hcall] at hroom
    exact .next 0 (hc.push rfl hroom)
  | refused =>
    rw [hcall] at hroom
    exact .next 0 (hc.push rfl hroom)
  | replied reply =>
    simp only [hcall] at hroom ⊢
    have hlogged : ({ c with log := .called name args c.stack.size :: c.log } : Context).Agree
        names logged e e' { c' with log := .called name args c'.stack.size :: c'.log } :=
      ⟨hc.stack, hc.fault, hc.resolve, fun h => by rw [hc.log h, hc.stack]⟩
    have hbound := hlogged.bindAll reply.binds
    cases hresult : reply.result with
    | ok v =>
      rw [hresult] at hroom
      exact .next 0 (hbound.push rfl hroom)
    | error error =>
      simp only [hresult] at hroom
      refine Flow.agree_deliver he hbound _ fun log hdeliver => ?_
      rw [hdeliver] at hroom
      exact hroom

/-- Two runs in agreement do an action alike. -/
theorem Action.perform_agree (he : Environment.Similar names logged e e')
    (hc : c.Agree names logged e e' c') (a : Action) (hload : ∀ name, a = .load name → names name)
    (hroom : e.Roomy e' (a.perform e c).context) :
    Flow.Agree names logged e e' (a.perform e c) (a.perform e' c') := by
  cases a with
  | stop => exact .stop hc
  | refuse f => exact .stop (hc.fail f)
  | pass skip => exact .next skip hc
  | branch skip taken =>
    simp only [perform, hc.pop.1]
    exact .next _ hc.pop.2
  | drop => exact .next 0 hc.pop.2
  | duplicate =>
    simp only [perform, hc.stack] at hroom ⊢
    cases hpop : c.stack.pop? with
    | none =>
      rw [hpop] at hroom
      exact .next 0 ((hc.fail _).push rfl hroom)
    | some p =>
      rw [hpop] at hroom
      exact .next 0 (hc.push rfl hroom)
  | exchange =>
    simp only [perform, hc.stack]
    cases c.stack.swap? with
    | none => exact .next 0 (hc.fail _)
    | some stack => exact .next 0 ⟨rfl, hc.fault, hc.resolve, hc.log⟩
  | load name => exact .next 0 (hc.push (hc.resolve name (hload name rfl)) hroom)
  | compute arity f =>
    have hpop := hc.popOnto [] arity
    exact .next 0 (hpop.2.push (congrArg f hpop.1) hroom)
  | call name argc =>
    have hpop := hc.popOnto [] argc
    simp only [perform, Context.popArgs, Context.popMany, hpop.1] at hroom ⊢
    exact Machine.callBuiltin_agree he hpop.2 name _ hroom
  | mistake f => exact .next 0 ((hc.fail f).push rfl hroom)

/-! ## Runs -/

theorem Program.loads_of_action {p : Program} {pc : Nat} {name : Text} (hpc : (pc : Int) < p.count)
    (h : p.action pc (p.fetch pc) = .load name) : p.Loads name := by
  have hasks := p.asksFor_action pc (p.fetch pc)
  rw [h] at hasks
  exact ⟨pc, hpc, hasks.1, hasks.2⟩

namespace Machine

/-- How two runs end: alike, or one of them with what a handler threw. -/
def RunsAgree (names : Text → Prop) (logged : Prop) (e e' : Environment)
    (r r' : Option Text × Context) : Prop :=
  r'.1 = r.1 ∧ r.2.Agree names logged e e' r'.2 ∨
    ¬ logged ∧ (r.1.isSome ∨ r'.1.isSome)

theorem exec_agree (he : Environment.Similar names logged e e') {p : Program}
    (hload : ∀ name, p.Loads name → names name) {pc : Nat} (hpc : (pc : Int) < p.count)
    (hc : c.Agree names logged e e' c') (hroom : e.Roomy e' (exec e p pc (p.fetch pc) c).context) :
    Flow.Agree names logged e e' (exec e p pc (p.fetch pc) c) (exec e' p pc (p.fetch pc) c') := by
  rw [exec_eq_perform] at hroom ⊢
  rw [exec_eq_perform]
  exact Action.perform_agree he hc _
    (fun name h => hload name (Program.loads_of_action hpc h)) hroom

/-- Two runs in agreement end in agreement. -/
theorem runFrom_agree (he : Environment.Similar names logged e e') {p : Program}
    (hload : ∀ name, p.Loads name → names name) (pc : Nat) (hc : c.Agree names logged e e' c')
    (hroom : e.Roomy e' (runFrom e p pc c).2) :
    RunsAgree names logged e e' (runFrom e p pc c) (runFrom e' p pc c') := by
  fun_induction runFrom e p pc c generalizing c' with
  | case1 pc c hlt skip c₁ hexec ih =>
    -- The first run has no fault here, since it has none at its end.
    have hstep : e.Roomy e' c₁ := by
      refine hroom.imp_right fun hend => ⟨hend.1, ?_⟩
      cases hfault : c₁.fault with
      | none => rfl
      | some f => rw [fault_runFrom p _ hfault] at hend; cases hend.2
    have hagree := exec_agree he hload hlt hc (by rw [hexec]; exact hstep)
    rw [runFrom.eq_def e' p pc c', if_pos hlt]
    rw [hexec] at hagree
    generalize exec e' p pc (p.fetch pc) c' = flow at hagree ⊢
    cases hagree with
    | next _ hnext => exact ih hnext hroom
    | raiseRight hdiffer => exact .inr ⟨hdiffer, .inr rfl⟩
  | case2 pc c hlt c₁ hexec =>
    have hagree := exec_agree he hload hlt hc (by rw [hexec]; exact hroom)
    rw [runFrom, if_pos hlt]
    rw [hexec] at hagree
    generalize exec e' p pc (p.fetch pc) c' = flow at hagree ⊢
    cases hagree with
    | stop hstop => exact .inl ⟨rfl, hstop⟩
    | raiseRight hdiffer => exact .inr ⟨hdiffer, .inr rfl⟩
  | case3 pc c hlt message c₁ hexec =>
    have hagree := exec_agree he hload hlt hc (by rw [hexec]; exact hroom)
    rw [runFrom, if_pos hlt]
    rw [hexec] at hagree
    generalize exec e' p pc (p.fetch pc) c' = flow at hagree ⊢
    cases hagree with
    | raise _ hraise => exact .inl ⟨rfl, hraise⟩
    | raiseLeft hdiffer => exact .inr ⟨hdiffer, .inl rfl⟩
    | raiseRight hdiffer => exact .inr ⟨hdiffer, .inr rfl⟩
  | case4 pc c hge =>
    rw [runFrom, if_neg hge]
    exact .inl ⟨rfl, hc⟩

end Machine

namespace Context

theorem Agree.result (hc : c.Agree names logged e e' c') : c'.result = c.result := by
  unfold Context.result
  rw [hc.fault, hc.stack]

/-- What a run that has ended gives, and the context that it leaves. -/
def finish : Option Text × Context → Except Text Value × Context
  | (some message, c) => (.error message, c)
  | (none, c) => (.ok c.result, { c with stack := .empty, locals := [] })

theorem run_eq_finish (env : Environment) (p : Program) (hused : c.used = false) :
    c.run env p = finish (Machine.runFrom env p 0 { c with used := true }) := by
  have hfresh : ¬ c.used = true := by
    rw [hused]
    exact Bool.false_ne_true
  exact if_neg hfresh

/-- Two fresh contexts in agreement run a program alike, unless a handler throws. -/
theorem run_agree (he : Environment.Similar names logged e e') {p : Program}
    (hload : ∀ name, p.Loads name → names name) (hused : c.used = false) (hused' : c'.used = false)
    (hc : c.Agree names logged e e' c') (hroom : e.Roomy e' (c.run e p).2) :
    (c'.run e' p).1 = (c.run e p).1 ∧ (c'.run e' p).2.fault = (c.run e p).2.fault ∧
        (logged → (c'.run e' p).2.log = (c.run e p).2.log) ∨
      ¬ logged ∧
        ((∃ message, (c.run e p).1 = .error message) ∨
          ∃ message, (c'.run e' p).1 = .error message) := by
  have hstart : ({ c with used := true } : Context).Agree names logged e e'
      { c' with used := true } :=
    ⟨hc.stack, hc.fault, hc.resolve, hc.log⟩
  have hruns := fun hroom => Machine.runFrom_agree he hload 0 hstart hroom
  rw [run_eq_finish e p hused] at hroom ⊢
  rw [run_eq_finish e' p hused']
  generalize Machine.runFrom e p 0 { c with used := true } = r at hroom hruns ⊢
  generalize Machine.runFrom e' p 0 { c' with used := true } = r' at hruns ⊢
  obtain ⟨m?, d⟩ := r
  obtain ⟨m'?, d'⟩ := r'
  have hend : e.Roomy e' d := by
    cases m? with
    | none => exact hroom
    | some message => exact hroom
  rcases hruns hend with ⟨hsame, hagree⟩ | ⟨hdiffer, hraised⟩
  · cases hsame
    cases m? with
    | none => exact .inl ⟨congrArg Except.ok hagree.result, hagree.fault, hagree.log⟩
    | some message => exact .inl ⟨rfl, hagree.fault, hagree.log⟩
  · refine .inr ⟨hdiffer, hraised.imp ?_ ?_⟩
    · intro h
      obtain ⟨message, rfl⟩ := Option.isSome_iff_exists.1 h
      exact ⟨message, rfl⟩
    · intro h
      obtain ⟨message, rfl⟩ := Option.isSome_iff_exists.1 h
      exact ⟨message, rfl⟩

theorem Agree.symm (hc : c.Agree names logged e e' c') : c'.Agree names logged e' e c :=
  ⟨hc.stack.symm, hc.fault.symm, fun name h => (hc.resolve name h).symm, fun h => (hc.log h).symm⟩

/-- Runs in agreement that end without a fault and without an error from a handler give
    the same value, whatever the room on their stacks and their handlers are. -/
theorem run_eq_of_faultless (he : Environment.Similar names logged e e') {p : Program}
    (hload : ∀ name, p.Loads name → names name) (hused : c.used = false) (hused' : c'.used = false)
    (hc : c.Agree names logged e e' c') {v v' : Value} {d d' : Context}
    (hrun : c.run e p = (.ok v, d)) (hfault : d.fault = none) (hrun' : c'.run e' p = (.ok v', d'))
    (hfault' : d'.fault = none) : v = v' := by
  rcases Int.le_total e.maxStack e'.maxStack with hle | hle
  · have hagree := run_agree he hload hused hused' hc (.inr ⟨hle, by rw [hrun]; exact hfault⟩)
    rw [hrun, hrun'] at hagree
    rcases hagree with ⟨hvalue, -⟩ | ⟨-, ⟨_, ⟨⟩⟩ | ⟨_, ⟨⟩⟩⟩
    exact (Except.ok.inj hvalue).symm
  · have hagree := run_agree he.symm hload hused' hused hc.symm
      (.inr ⟨hle, by rw [hrun']; exact hfault'⟩)
    rw [hrun, hrun'] at hagree
    rcases hagree with ⟨hvalue, -⟩ | ⟨-, ⟨_, ⟨⟩⟩ | ⟨_, ⟨⟩⟩⟩
    exact Except.ok.inj hvalue

end Context

end Reckon
