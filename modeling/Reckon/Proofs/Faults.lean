-- SUMMARY: Faults of arbitrary programs: the stack keeps its limit, the first fault stays, and more room changes no good run.
import Reckon.Proofs.Correctness
import Reckon.Proofs.Execution

/-!
# Faults

What goes wrong at an instruction can be told from the height of the stack that
it finds: there are too few values, there is no room for one more, or the
instruction is wrong in itself. A run goes on after a fault, on a stack that may
be damaged, but it remembers the first fault and forgets its value. The stack
never outgrows its limit. The limit matters to a run only by the overflows that
it causes, so a run without a fault is the same with more room.
-/

namespace Reckon

/-! ## What goes wrong at an instruction -/

namespace Fault

/-- Taking `n` values off a stack of the given height. -/
def underflow? (height n : Nat) : Option Fault :=
  if height < n then some .stackUnderflow else none

/-- Putting a value onto a stack of the given height. -/
def overflow? (limit : Int) (height : Nat) : Option Fault :=
  if limit ≤ height then some (.stackOverflow limit) else none

theorem underflow?_zero (height : Nat) : underflow? height 0 = none :=
  if_neg (Nat.not_lt_zero height)

theorem underflow?_succ (height n : Nat) :
    (underflow? height 1).or (underflow? (height - 1) n) = underflow? height (n + 1) := by
  unfold underflow?
  by_cases hempty : height < 1
  · rw [if_pos hempty, Option.some_or, if_pos (show height < n + 1 by omega)]
  · rw [if_neg hempty, Option.none_or]
    by_cases hlow : height - 1 < n
    · rw [if_pos hlow, if_pos (by omega)]
    · rw [if_neg hlow, if_neg (by omega)]

end Fault

open Fault (underflow? overflow?)

/-- The first thing that goes wrong when an action is performed on a stack of the given
    height. Values are taken before one is pushed. -/
def Action.mishap (limit : Int) (height : Nat) : Action → Option Fault
  | .stop | .pass _ => none
  | .refuse f | .mistake f => some f
  | .branch _ _ | .drop => underflow? height 1
  | .duplicate => (underflow? height 1).or (overflow? limit height)
  | .exchange => underflow? height 2
  | .load _ => overflow? limit height
  | .compute n _ | .call _ n => (underflow? height n).or (overflow? limit (height - n))

namespace Program

/-- What goes wrong in a slot, on the stack that the machine enters it with. -/
def mishap (p : Program) (limit : Int) (visit : Nat × Context) : Option Fault :=
  (p.action visit.1 (p.fetch visit.1)).mishap limit visit.2.stack.size

/-- What goes wrong first in slots that are entered one after the other. -/
def firstMishap (p : Program) (limit : Int) (visits : List (Nat × Context)) : Option Fault :=
  visits.findSome? (p.mishap limit)

theorem firstMishap_cons (p : Program) (limit : Int) (visit : Nat × Context)
    (visits : List (Nat × Context)) :
    p.firstMishap limit (visit :: visits) =
      (p.mishap limit visit).or (p.firstMishap limit visits) := by
  rw [firstMishap, List.findSome?_cons]
  cases p.mishap limit visit <;> rfl

end Program

/-! ## Faults and heights of contexts -/

namespace Stack

theorem pop?_cases (s : Stack) :
    (∃ v t, s.pop? = some (v, t) ∧ s.size = t.size + 1) ∨ s.pop? = none ∧ s.size = 0 := by
  obtain ⟨items, size, hsize⟩ := s
  subst hsize
  cases items with
  | nil => exact .inr ⟨rfl, rfl⟩
  | cons v items => exact .inl ⟨v, _, rfl, rfl⟩

theorem swap?_cases (s : Stack) :
    (∃ t, s.swap? = some t ∧ t.size = s.size ∧ 2 ≤ s.size) ∨ s.swap? = none ∧ s.size < 2 := by
  obtain ⟨items, size, hsize⟩ := s
  subst hsize
  match items with
  | [] => exact .inr ⟨rfl, Nat.zero_lt_two⟩
  | [v] => exact .inr ⟨rfl, Nat.one_lt_two⟩
  | v :: w :: items => exact .inl ⟨_, rfl, rfl, Nat.le_add_left 2 _⟩

end Stack

namespace Context

variable (c : Context) (env : Environment)

theorem fault_fail_eq (f : Fault) : (c.fail f).fault = c.fault.or (some f) := by
  cases hc : c.fault with
  | none => exact fail_of_none hc
  | some g => exact fault_fail f hc

theorem stack_fail (f : Fault) : (c.fail f).stack = c.stack := by
  unfold fail
  split <;> rfl

theorem fault_push_eq (v : Value) :
    (c.push env v).fault = c.fault.or (overflow? env.maxStack c.stack.size) := by
  unfold push overflow?
  split
  · exact c.fault_fail_eq _
  · exact Option.or_none.symm

theorem size_push_le (v : Value) (hc : c.stack.size ≤ env.room) :
    (c.push env v).stack.size ≤ env.room := by
  by_cases hroom : c.stack.size < env.room
  · rw [push_of_lt v hroom]
    exact hroom
  · rw [push_of_le v (Nat.le_of_not_lt hroom), stack_fail]
    exact hc

theorem fault_pop_eq : c.pop.2.fault = c.fault.or (underflow? c.stack.size 1) := by
  unfold pop
  rcases c.stack.pop?_cases with ⟨v, t, hpop, hsize⟩ | ⟨hpop, hsize⟩
  · rw [hpop, hsize, underflow?, if_neg (by omega), Option.or_none]
  · rw [hpop, hsize]
    exact c.fault_fail_eq _

theorem size_pop : c.pop.2.stack.size = c.stack.size - 1 := by
  unfold pop
  rcases c.stack.pop?_cases with ⟨v, t, hpop, hsize⟩ | ⟨hpop, hsize⟩
  · rw [hpop, hsize]
    rfl
  · rw [hpop]
    exact (congrArg Stack.size (c.stack_fail _)).trans (by rw [hsize])

theorem fault_popped_eq (n : Nat) :
    (c.popped n).fault = c.fault.or (underflow? c.stack.size n) := by
  induction n generalizing c with
  | zero => rw [Fault.underflow?_zero, Option.or_none, popped]
  | succ n ih =>
    rw [popped, ih, fault_pop_eq, size_pop, Option.or_assoc, Fault.underflow?_succ]

theorem size_popped (n : Nat) : (c.popped n).stack.size = c.stack.size - n := by
  induction n generalizing c with
  | zero => rfl
  | succ n ih =>
    rw [popped, ih, size_pop]
    omega

/-- Taking values and pushing one: what is missing is noticed before what is too much. -/
theorem fault_push_popped (n : Nat) (s : Store) (v : Value) :
    (((c.popped n).withStore s).push env v).fault =
      c.fault.or ((underflow? c.stack.size n).or (overflow? env.maxStack (c.stack.size - n))) := by
  have hpopped : ((c.popped n).withStore s).fault = c.fault.or (underflow? c.stack.size n) :=
    c.fault_popped_eq n
  have hsize : ((c.popped n).withStore s).stack.size = c.stack.size - n := c.size_popped n
  rw [fault_push_eq, hpopped, hsize, Option.or_assoc]

end Context

/-! ## Steps -/

namespace Action

variable {env : Environment}

/-- To compute is to take values and to push one; variables and log stay. -/
theorem perform_compute (n : Nat) (f : List Value → Value) (c : Context) :
    (compute n f).perform env c =
      .next 0 (((c.popped n).withStore (c.popped n).store).push env (f (c.popMany n).1)) := by
  rw [← Context.popOnto_snd []]
  rfl

/-- A call takes its arguments and pushes a value, whatever the builtin does to variables
    and log. -/
theorem perform_call (hq : env.Quiet) (name : Text) (n : Nat) (c : Context) :
    ∃ s v, (call name n).perform env c = .next 0 (((c.popped n).withStore s).push env v) := by
  simp only [perform, Context.popArgs, Context.popMany, Context.popOnto_snd,
    Machine.callBuiltin_eq hq]
  exact ⟨_, _, rfl⟩

/-- A context keeps its fault, and without one it gets the fault of the action, if any. -/
theorem fault_perform_eq (hq : env.Quiet) (a : Action) (c : Context) :
    (a.perform env c).context.fault = c.fault.or (a.mishap env.maxStack c.stack.size) := by
  cases a with
  | stop => exact Option.or_none.symm
  | refuse f => exact c.fault_fail_eq f
  | pass skip => exact Option.or_none.symm
  | branch skip taken => exact c.fault_pop_eq
  | drop => exact c.fault_pop_eq
  | duplicate =>
    simp only [perform, mishap]
    rcases c.stack.pop?_cases with ⟨v, t, hpop, hsize⟩ | ⟨hpop, hsize⟩
    · rw [hpop, underflow?, if_neg (by omega), Option.none_or]
      exact c.fault_push_eq env v
    · -- The null that is pushed after all may overflow, but that is the second fault.
      rw [hpop, underflow?, if_pos (by omega), Option.some_or]
      refine ((c.fail _).fault_push_eq env .null).trans ?_
      rw [Context.fault_fail_eq, Option.or_assoc, Option.some_or]
  | exchange =>
    simp only [perform, mishap]
    rcases c.stack.swap?_cases with ⟨t, hswap, -, hsize⟩ | ⟨hswap, hsize⟩
    · rw [hswap, underflow?, if_neg (Nat.not_lt.2 hsize), Option.or_none]
      rfl
    · rw [hswap, underflow?, if_pos hsize]
      exact c.fault_fail_eq _
  | load name => exact c.fault_push_eq env _
  | compute n f =>
    rw [perform_compute]
    exact c.fault_push_popped env n _ _
  | call name n =>
    obtain ⟨s, v, hcall⟩ := perform_call hq name n c
    rw [hcall]
    exact c.fault_push_popped env n s v
  | mistake f =>
    refine ((c.fail f).fault_push_eq env .null).trans ?_
    rw [Context.fault_fail_eq, Option.or_assoc, Option.some_or]
    rfl

/-- A stack that has kept its limit keeps it. -/
theorem size_perform_le (hq : env.Quiet) (a : Action) {c : Context}
    (hc : c.stack.size ≤ env.room) : (a.perform env c).context.stack.size ≤ env.room := by
  have hfail : ∀ f, (c.fail f).stack.size ≤ env.room := fun f => c.stack_fail f ▸ hc
  have hpop : c.pop.2.stack.size ≤ env.room := by
    rw [Context.size_pop]
    omega
  have hpush : ∀ n s v, (((c.popped n).withStore s).push env v).stack.size ≤ env.room := by
    intro n s v
    refine Context.size_push_le _ env v (Nat.le_trans (Nat.le_of_eq (c.size_popped n)) ?_)
    omega
  cases a with
  | stop => exact hc
  | refuse f => exact hfail f
  | pass skip => exact hc
  | branch skip taken => exact hpop
  | drop => exact hpop
  | duplicate =>
    simp only [perform]
    split
    · exact c.size_push_le env _ hc
    · exact Context.size_push_le _ env _ (hfail _)
  | exchange =>
    simp only [perform]
    rcases c.stack.swap?_cases with ⟨t, hswap, hsize, -⟩ | ⟨hswap, -⟩
    · rw [hswap]
      exact hsize ▸ hc
    · rw [hswap]
      exact hfail _
  | load name => exact c.size_push_le env _ hc
  | compute n f =>
    rw [perform_compute]
    exact hpush n _ _
  | call name n =>
    obtain ⟨s, v, hcall⟩ := perform_call hq name n c
    rw [hcall]
    exact hpush n s v
  | mistake f => exact Context.size_push_le _ env _ (hfail f)

end Action

theorem Machine.fault_of_exec {env : Environment} (hq : env.Quiet) {p : Program} {pc : Nat}
    {c : Context} {flow : Flow} (hexec : exec env p pc (p.fetch pc) c = flow) :
    flow.context.fault = c.fault.or (p.mishap env.maxStack (pc, c)) := by
  rw [← hexec, exec_eq_perform]
  exact Action.fault_perform_eq hq _ c

/-! ## Runs -/

namespace Executes

/-- The contexts that an execution passes through, the last one included. -/
def contexts (visits : List (Nat × Context)) (last : Context) : List Context :=
  visits.map (·.2) ++ [last]

variable {env : Environment} {p : Program} {pc : Nat} {c c' : Context}
  {visits : List (Nat × Context)} {ending : Ending}

theorem forall_contexts {P : Context → Prop} (hvisits : ∀ visit ∈ visits, P visit.2)
    (hend : P c') : ∀ d ∈ contexts visits c', P d := by
  intro d hd
  rcases List.mem_append.1 hd with hd | hd
  · obtain ⟨visit, hvisit, rfl⟩ := List.mem_map.1 hd
    exact hvisits visit hvisit
  · exact List.mem_singleton.1 hd ▸ hend

theorem size_le (hq : env.Quiet) (h : Executes env p pc c visits ending c')
    (hc : c.stack.size ≤ env.room) : ∀ d ∈ contexts visits c', d.stack.size ≤ env.room := by
  have hkept := h.invariant (P := (·.stack.size ≤ env.room)) (fun pc c hc => ?_) hc
  · exact forall_contexts hkept.1 hkept.2
  · rw [Machine.exec_eq_perform]
    exact Action.size_perform_le hq _ hc

/-- At every point the fault is the one at the start, or else what went wrong first in the
    slots entered so far. -/
def Explained (p : Program) (limit : Int) (start : Option Fault) (visits : List (Nat × Context))
    (last : Context) : Prop :=
  ∀ k d, (contexts visits last)[k]? = some d →
    d.fault = start.or (p.firstMishap limit (visits.take k))

theorem Explained.nil {limit : Int} : Explained p limit c.fault [] c := by
  intro k d hk
  cases k with
  | zero =>
    cases hk
    exact Option.or_none.symm
  | succ k => cases hk

theorem Explained.cons {limit : Int} {f : Option Fault}
    (hstep : f = c.fault.or (p.mishap limit (pc, c))) (h : Explained p limit f visits c') :
    Explained p limit c.fault ((pc, c) :: visits) c' := by
  intro k d hk
  cases k with
  | zero =>
    cases hk
    exact Option.or_none.symm
  | succ k =>
    rw [h k d hk, hstep, List.take_succ_cons, Program.firstMishap_cons, Option.or_assoc]

/-- What goes wrong in an execution explains its faults. -/
theorem explained (hq : env.Quiet) (h : Executes env p pc c visits ending c') :
    Explained p env.maxStack c.fault visits c' := by
  induction h with
  | left hpc => exact .nil
  | halted hpc hop hexec => exact .cons (Machine.fault_of_exec hq hexec) .nil
  | refused hpc hjump hoffset hexec => exact .cons (Machine.fault_of_exec hq hexec) .nil
  | raised hpc hop hname hargc hthrows hexec => exact .cons (Machine.fault_of_exec hq hexec) .nil
  | next hpc hgo hexec hrest ih => exact .cons (Machine.fault_of_exec hq hexec) ih

/-- Without a fault at the start, the first one stays as it is to the end. -/
theorem Explained.pairwise {limit : Int} (h : Explained p limit none visits c') :
    (contexts visits c').Pairwise fun d later => ∀ f, d.fault = some f → later.fault = some f := by
  refine List.pairwise_iff_getElem.2 fun i j hi hj hij f hf => ?_
  rw [h i _ (List.getElem?_eq_getElem hi), Option.none_or] at hf
  rw [h j _ (List.getElem?_eq_getElem hj), Option.none_or]
  exact (List.take_prefix_take_left (Nat.le_of_lt hij)).findSome?_eq_some hf

end Executes

namespace Context

/-- Whether something went wrong, as the host reads it. -/
def hasError (c : Context) : Bool := c.fault.isSome

/-- The text of what went wrong, as the host reads it. -/
def error? (c : Context) : Option Text := c.fault.map Fault.message

theorem hasError_iff (c : Context) : c.hasError = true ↔ c.error? ≠ none := by
  rw [hasError, error?, ne_eq, Option.map_eq_none_iff, Option.isSome_iff_ne_none]

theorem exists_fault {c : Context} (h : c.hasError = true) : ∃ f, c.fault = some f :=
  Option.isSome_iff_exists.1 h

/-- A run whose handler does not throw gives the result of the last context of its
    execution, and keeps the fault and the log of that context. -/
theorem exists_run_of_quiet {env : Environment} (hq : env.Quiet) (c : Context) (p : Program)
    (hused : c.used = false) :
    ∃ visits ending c', Executes env p 0 { c with used := true } visits ending c' ∧
      c.run env p = (.ok c'.result, { c' with stack := .empty, locals := [] }) := by
  obtain ⟨visits, ending, c', hexecutes, hrun⟩ := c.exists_run env p hused
  rw [hexecutes.message?_eq_none hq] at hrun
  exact ⟨visits, ending, c', hexecutes, hrun⟩

/-- Whatever the program and the limit of the stack are, no stack in a run outgrows the
    limit. The error flag is set exactly if there is an error text, and both stay as they are
    once they are set. The text is that of what went wrong first in the slots entered so far.
    The run gives null after a fault, and else the top of the stack, null if that is empty. -/
theorem run_keeps_first_fault (env : Environment) (p : Program) (locals : Entries Value)
    (log : Log) (hq : env.Quiet) :
    ∃ visits ending c' v d,
      Executes env p 0 { locals, log, used := true } visits ending c' ∧
      Context.run { locals, log } env p = (.ok v, d) ∧
      (∀ c ∈ Executes.contexts visits c', (c.stack.items.length : Int) ≤ max 0 env.maxStack) ∧
      (∀ c ∈ Executes.contexts visits c', c.hasError = true ↔ c.error? ≠ none) ∧
      ((Executes.contexts visits c').Pairwise fun c later =>
        c.hasError = true → later.hasError = true ∧ later.error? = c.error?) ∧
      (∀ k c, (Executes.contexts visits c')[k]? = some c →
        c.error? = (p.firstMishap env.maxStack (visits.take k)).map Fault.message) ∧
      d.hasError = c'.hasError ∧ d.error? = c'.error? ∧
      (d.hasError = true → v = .null) ∧
      (d.hasError = false → v = c'.stack.items.head?.getD .null) := by
  obtain ⟨visits, ending, c', hexecutes, hrun⟩ := exists_run_of_quiet hq { locals, log } p rfl
  have hexplained : Executes.Explained p env.maxStack none visits c' := hexecutes.explained hq
  refine ⟨visits, ending, c', _, _, hexecutes, hrun, fun c hc => ?_, fun c _ => c.hasError_iff,
    ?_, fun k c hk => ?_, rfl, rfl, fun herror => ?_, fun hnone => ?_⟩
  · have hsize := hexecutes.size_le hq (Nat.zero_le _) c hc
    rw [← c.stack.size_eq]
    rw [Environment.room] at hsize
    omega
  · refine hexplained.pairwise.imp fun {c later} hstays herror => ?_
    obtain ⟨f, hf⟩ := exists_fault herror
    rw [hasError, error?, error?, hstays f hf, hf]
    exact ⟨rfl, rfl⟩
  · rw [error?, hexplained k c hk, Option.none_or]
  · obtain ⟨f, hf⟩ := exists_fault (c := c') herror
    rw [result, hf]
  · have hfault : c'.fault = none :=
      Option.isNone_iff_eq_none.1 (Option.isSome_eq_false_iff.1 hnone)
    rw [result, hfault]

/-- Adds on an empty stack, and pushes three values after that. -/
def stumbling : Program where
  words := .assemble #[.ofInts 16 0 0 0, .ofInts 1 0 0 1, .ofInts 1 0 0 2, .ofInts 1 0 0 3]
  count := 4

theorem run_stumbling :
    ∃ visits ending c' v d,
      Executes { maxStack := 2 } stumbling 0 { used := true } visits ending c' ∧
      Context.run {} { maxStack := 2 } stumbling = (.ok v, d) ∧
      (∀ c ∈ Executes.contexts visits c', (c.stack.items.length : Int) ≤ 2) ∧
      d.error? = some "stack underflow" ∧ v = .null := by
  have hquiet : Environment.Quiet { maxStack := 2 } := nofun
  obtain ⟨visits, ending, c', v, d, hexecutes, hrun, hsize, -, -, -, -, -, hnull, -⟩ :=
    run_keeps_first_fault { maxStack := 2 } stumbling [] [] hquiet
  have hfault : (Context.run {} { maxStack := 2 } stumbling).2.fault = some .stackUnderflow := by
    decide +kernel
  rw [hrun] at hfault
  refine ⟨visits, ending, c', v, d, hexecutes, hrun, hsize, ?_, hnull ?_⟩
  · rw [error?, hfault]
    rfl
  · rw [hasError, hfault]
    rfl

end Context

/-! ## More room on the stack -/

/-- Variables, builtins and handlers are the same, whatever the limits of the stack are. -/
theorem Environment.similar_maxStack (env : Environment) (m m' : Int) :
    Similar (fun _ => True) True { env with maxStack := m } { env with maxStack := m' } := by
  refine ⟨rfl, fun name b _ resolve resolve' depth args hsame => ?_, fun _ => rfl⟩
  rw [funext fun name => hsame name trivial]

namespace Context

/-- If a run meets no fault, a run with more room on the stack meets none either and gives
    the same value, with the same calls of builtins at the same depths and the same
    reports. -/
theorem run_with_more_room (env : Environment) (p : Program) (locals : Entries Value) (log : Log)
    {m m' : Int} (hle : m ≤ m') (hq : env.Quiet)
    (hfault : (Context.run { locals, log } { env with maxStack := m } p).2.fault = none) :
    ∃ v d d',
      Context.run { locals, log } { env with maxStack := m } p = (.ok v, d) ∧
      Context.run { locals, log } { env with maxStack := m' } p = (.ok v, d') ∧
      d'.fault = none ∧ d'.log = d.log := by
  have hstart : ({ locals, log } : Context).Agree (fun _ => True) True { env with maxStack := m }
      { env with maxStack := m' } { locals, log } :=
    ⟨rfl, rfl, fun _ _ => rfl, fun _ => rfl⟩
  have hreturns : ∀ n, ∃ c : Context, Context.run { locals, log } { env with maxStack := n } p =
      (.ok c.result, { c with stack := .empty, locals := [] }) := by
    intro n
    have hquiet : Environment.Quiet { env with maxStack := n } := hq
    obtain ⟨_, _, c, -, hrun⟩ := exists_run_of_quiet hquiet { locals, log } p rfl
    exact ⟨c, hrun⟩
  obtain ⟨c, hrun⟩ := hreturns m
  obtain ⟨c', hrun'⟩ := hreturns m'
  rcases run_agree (env.similar_maxStack m m') (fun _ _ => trivial) rfl rfl hstart
      (.inr ⟨hle, hfault⟩) with ⟨hvalue, hsame, hlog⟩ | ⟨hlogged, -⟩
  · rw [hrun, hrun'] at hvalue hsame hlog
    rw [hrun] at hfault
    rw [Except.ok.inj hvalue] at hrun'
    exact ⟨_, _, _, hrun, hrun', hsame.trans hfault, hlog trivial⟩
  · exact absurd trivial hlogged

/-- `math_bump(1, 2)` below a value, and the sum of the two. -/
def bumping : Program where
  words := .assemble #[.ofInts 1 0 0 5, .ofInts 1 0 0 2, .ofInts 1 0 0 1, .ofInts 14 0 0 2,
    .ofInts 16 0 0 0]
  count := 5
  strings := ["math_bump"]

theorem run_bumping :
    ∃ v d, Context.run {} { Expr.probes with maxStack := 1000 } bumping = (.ok v, d) ∧
      d.fault = none ∧ v.equal (.int 6) = true := by
  have hfault : (Context.run {} { Expr.probes with maxStack := 3 } bumping).2.fault = none := by
    decide +kernel
  have hvalue : (Context.run {} { Expr.probes with maxStack := 3 } bumping).1.toOption.any
      (·.equal (.int 6)) = true := by
    decide +kernel
  obtain ⟨v, d, d', hrun, hrun', hnone, -⟩ := run_with_more_room Expr.probes bumping [] []
    (show (3 : Int) ≤ 1000 by decide) Expr.quiet_probes hfault
  rw [hrun] at hvalue
  exact ⟨v, d', hrun', hnone, hvalue⟩

end Context

end Reckon
