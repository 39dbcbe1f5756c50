-- SUMMARY: Evaluating a tree whose compilation failed gives what the code before the limit leaves on the stack.
import Reckon.Proofs.Correctness
import Reckon.Proofs.Limits
import Reckon.Proofs.Reuse

/-!
# Truncated programs

An engine compiles with the limits that are usual, and with these a compilation
fails for want of instructions only. The program then consists of the lines of
the tree as far as there are slots, and of a halt. The failure is reported, but
unless the handler throws, the engine runs the program all the same. What it
returns is what these lines leave on top of the stack, which has little to do
with the value of the tree.
-/

namespace Reckon

/-! ## How far a program goes -/

namespace Expr

variable {o : CompileOptions} {x : Expr}

section

variable (hlimits : o.maxInstructions ≤ min o.maxPoolEntries Pool.capacity)

include hlimits

/-- No pool is full before the last slot is. -/
theorem has_take {n : Nat} (hn : (n : Int) ≤ o.maxInstructions) {l : Line}
    (hl : l ∈ (x.code o).take n) {a : Constant} (ha : a ∈ l.constant?) :
    (o.emitter.putAll ((x.code o).take n)).constants.Has a := by
  have hlength := (x.code o).length_take_le n
  have hroom : (0 + ((x.code o).take n).length : Nat) ≤ min o.maxPoolEntries Pool.capacity := by
    omega
  exact Emitter.has_putAll_of_le (e := o.emitter) hroom hroom hl ha

variable (hpos : 0 < o.maxInstructions) (hlong : o.maxInstructions ≤ (x.code o).length)

include hpos hlong

theorem extent_of_long : (x.extent o : Int) + 1 = o.maxInstructions := by
  obtain ⟨n, hn⟩ : ∃ n : Nat, (n : Int) + 1 = o.maxInstructions :=
    ⟨(o.maxInstructions - 1).toNat, by omega⟩
  have hlength : ((x.code o).take n).length = n := List.length_take_of_le (by omega)
  have hnone : (o.emitter.putAll ((x.code o).take n)).error = none := by
    refine (Emitter.error_putAll_eq_none_iff (capped_emitter o)).2 ⟨rfl, .inr ?_, ?_⟩
    · show (0 : Int) + ((x.code o).take n).length < o.maxInstructions
      omega
    · exact fun l hl a ha => has_take hlimits (by omega) hl ha
  have hsize : (o.emitter.putAll ((x.code o).take n)).code.size = 0 + ((x.code o).take n).length :=
    (Emitter.putAll_of_none hnone).2.1
  have hle := (Emitter.size_putAll_le (o.emitter.putAll ((x.code o).take n)) ((x.code o).drop n)).1
  rw [← Emitter.putAll_append, List.take_append_drop] at hle
  have hextent := x.extent_lt o
  have hwritten : x.extent o = (o.emitter.putAll (x.code o)).code.size := rfl
  omega

theorem failure_of_long :
    (x.compile o).failure = some (.compile (.instructionLimit o.maxInstructions)) := by
  obtain ⟨n, hn⟩ : ∃ n : Nat, (n : Int) = o.maxInstructions :=
    ⟨o.maxInstructions.toNat, by omega⟩
  have hlength : ((x.code o).take n).length = n := List.length_take_of_le (by omega)
  have hsome : (o.emitter.putAll ((x.code o).take n)).error ≠ none := by
    intro hnone
    have hsize : (o.emitter.putAll ((x.code o).take n)).code.size =
      0 + ((x.code o).take n).length := (Emitter.putAll_of_none hnone).2.1
    have hslots := o.emitter.size_putAll_lt ((x.code o).take n)
    have hempty : o.emitter.code.size = 0 := rfl
    have hmax : o.emitter.maxInstructions = o.maxInstructions := rfl
    omega
  obtain ⟨y, hy⟩ := Option.ne_none_iff_exists'.1 hsome
  have hheld : ∀ a ∈ Line.constants ((x.code o).take n),
      (o.emitter.putAll ((x.code o).take n)).constants.Has a := by
    intro a ha
    obtain ⟨l, hl, hconst⟩ := List.mem_filterMap.1 ha
    exact has_take hlimits (by omega) hl hconst
  have hlimit : y = .instructionLimit o.maxInstructions := by
    have hjustifies := Emitter.justifies_putAll (capped_emitter o) rfl hy
    cases y with
    | instructionLimit limit => rw [hjustifies.1]; rfl
    | stringPool =>
      obtain ⟨t, ht, hnot⟩ := hjustifies
      exact absurd (hheld _ ht) hnot
    | integerPool =>
      obtain ⟨m, hm, hnot⟩ := hjustifies
      exact absurd (hheld _ hm) hnot
    | operandRange op => exact hjustifies.elim
    | stackImbalance kind => exact hjustifies.elim
  have hsticky := (Emitter.putAll_of_error hsome ((x.code o).drop n)).sticky y hy
  rw [← Emitter.putAll_append, List.take_append_drop] at hsticky
  have herror : (x.emitProgram o).error = some y := (x.error_emitProgram o).trans hsticky
  show (x.emitProgram o).error.map Failure.compile = _
  rw [herror, hlimit]
  rfl

end

end Expr

/-! ## Running a program that failed -/

namespace Engine

variable {e : Engine} {tree : Expr}

/-- The local variables that an evaluation is given. -/
def bound (locals : Option (List (Text × HostData))) : Entries Value :=
  Entries.mapValues Value.ofHost (Entries.ofHost (locals.getD []))

/-- What the handler throws when it is given the report. -/
def objection? (e : Engine) (r : Report) : Option Text := e.config.onError.bind (· r)

/-- How an evaluation ends after a run: with the top of the stack, or after a fault with
    null. A handler may throw in the run, or when it is told of the fault. -/
def outcome (e : Engine) (source : Option Text) :
    Option Text × Context → Except EngineError Value
  | (some message, _) => .error (.raised message)
  | (none, c) =>
    match c.fault with
    | none => .ok (c.stack.items.head?.getD .null)
    | some fault =>
      match e.objection? (.evaluationFailed source fault) with
      | some message => .error (.raised message)
      | none => .ok .null

theorem deliver_eq (e : Engine) (log : Log) (r : Report) :
    (∃ message, e.objection? r = some message ∧ log.deliver e.config.onError r = .error message) ∨
      ∃ log', e.objection? r = none ∧ log.deliver e.config.onError r = .ok log' := by
  unfold objection? Log.deliver
  cases e.config.onError with
  | none => exact .inr ⟨_, rfl, rfl⟩
  | some handler =>
    dsimp only [Option.bind_some]
    cases handler r with
    | none => exact .inr ⟨_, rfl, rfl⟩
    | some message => exact .inl ⟨message, rfl, rfl⟩

/-- Executing a failed program changes nothing but the log. -/
theorem run_execute_of_failed (e : Engine) (tree : Expr) (memoize : Bool)
    (locals : Option (List (Text × HostData))) (compiled : Compiled)
    (hfailed : compiled.program.hasFailed = true) :
    ∃ log, (execute memoize tree locals compiled).run.run e =
      (e.outcome compiled.program.source
        (Machine.runFrom e.environment compiled.program 0 { locals := bound locals, used := true }),
        { e with log }) := by
  have hbound : Entries.mapValues Value.ofHost (Entries.ofHost (locals.getD [])) = bound locals :=
    rfl
  have hfinish : Context.run { locals := bound locals } e.environment compiled.program =
      Context.finish (Machine.runFrom e.environment compiled.program 0
        { locals := bound locals, used := true }) := Context.run_eq_finish _ _ rfl
  have hrun : Context.run { locals := bound locals, log := e.log } e.environment
      compiled.program = _ :=
    Context.run_onto e.log e.environment compiled.program { locals := bound locals }
  rw [hfinish] at hrun
  unfold execute
  rw [EngineM.run_bind_get, hbound]
  dsimp only
  rw [hrun]
  generalize Machine.runFrom e.environment compiled.program 0
    { locals := bound locals, used := true } = r
  obtain ⟨message?, c⟩ := r
  rw [EngineM.run_bind_set]
  cases message? with
  | some message => exact ⟨_, rfl⟩
  | none =>
    cases hfault : c.fault with
    | none =>
      simp only [Context.finish, Context.onto, Context.result, outcome, hfault, hfailed,
        Bool.not_true, Bool.and_false, Bool.false_eq_true, if_false]
      exact ⟨_, rfl⟩
    | some fault =>
      simp only [Context.finish, Context.onto, Context.result, outcome, hfault]
      rw [EngineM.run_bind, run_report]
      dsimp only
      rcases e.deliver_eq (c.log ++ e.log) (.evaluationFailed compiled.program.source fault) with
        ⟨message, hobjection, hdeliver⟩ | ⟨log, hobjection, hdeliver⟩
      · rw [hobjection, hdeliver]
        exact ⟨_, rfl⟩
      · rw [hobjection, hdeliver]
        exact ⟨_, rfl⟩

/-- A tree whose compilation fails is not in a cache that is right. -/
theorem get?_of_failed {R : Expr → Value → Prop}
    (h : e.cache.All (CacheEntry.Valid (e.config.compileOptions none) R))
    (hfailed : (tree.compile (e.config.compileOptions none)).failure ≠ none) :
    Entries.get? e.cache.entries tree.key = none := by
  cases hget : Entries.get? e.cache.entries tree.key with
  | none => rfl
  | some entry =>
    have hentry := h tree.key entry (Entries.mem_of_get? hget)
    have hfailure := congrArg Program.failure (hentry.program tree rfl)
    exact absurd (hfailure.symm.trans hentry.failure) hfailed

theorem run_memoized_of_missing (h : Entries.get? e.cache.entries tree.key = none) :
    (memoized tree).run.run e = (.ok none, e) := by
  have hresult : e.cache.result? tree = (none, e.cache) := by
    unfold Cache.result? Cache.touch
    rw [h]
  unfold memoized
  rw [EngineM.run_bind_get, hresult]
  rfl

/-- A tree that is not cached and cannot be compiled is run as far as it goes, unless the
    handler throws when it is told. It is not cached afterwards, either. -/
theorem run_evaluate_of_failed (hmissing : Entries.get? e.cache.entries tree.key = none)
    {failure : Failure}
    (hfailure : (tree.compile (e.config.compileOptions none)).failure = some failure)
    (locals : Option (List (Text × HostData))) :
    ∃ e', e'.cache.has tree = false ∧
      (evaluate tree locals).run.run e =
        ((e.refusal? (tree.compile (e.config.compileOptions none))).elim
          (e.outcome (some tree.source)
            (Machine.runFrom e.environment (tree.compile (e.config.compileOptions none)) 0
              { locals := bound locals, used := true }))
          fun message => .error (.raised message), e') := by
  obtain ⟨cache, hlookup, hget⟩ : ∃ cache, e.cache.lookup tree = (none, cache) ∧
      Entries.get? cache.entries tree.key = none := by
    unfold Cache.lookup Cache.touch
    rw [hmissing]
    exact ⟨_, rfl, hmissing⟩
  have hhas : cache.has tree = false := by
    unfold Cache.has Entries.contains
    rw [hget]
    rfl
  have hfailed : (tree.compile (e.config.compileOptions none)).hasFailed = true := by
    rw [Program.hasFailed, hfailure]
    rfl
  have hcompile := run_compile_of_failure hlookup hfailure
  unfold evaluate
  rw [EngineM.run_bind_get, EngineM.run_bind]
  cases hrefusal : e.refusal? (tree.compile (e.config.compileOptions none)) with
  | some message =>
    rw [hrefusal] at hcompile
    rw [hcompile]
    exact ⟨{ e with cache, compilations := e.compilations + 1 }, hhas, rfl⟩
  | none =>
    rw [hrefusal] at hcompile
    obtain ⟨log, hcompile⟩ := hcompile
    rw [hcompile]
    dsimp only
    have hexecute := fun memoize => run_execute_of_failed
      { e with cache, compilations := e.compilations + 1, log } tree memoize locals
      ⟨e.compilations, tree.compile (e.config.compileOptions none)⟩ hfailed
    split
    next hmemoize =>
      rw [EngineM.run_bind, run_memoized_of_missing hget]
      obtain ⟨log', hrun⟩ := hexecute (e.config.memoize && locals.isNone)
      exact ⟨_, hhas, hrun⟩
    next =>
      obtain ⟨log', hrun⟩ := hexecute (e.config.memoize && locals.isNone)
      exact ⟨_, hhas, hrun⟩

/-- With the limits of an engine, a tree that has too many lines loses those behind the
    first 65535. -/
theorem truncated_of_long {config : EngineConfig}
    (hlong : (65536 : Int) ≤ (tree.code (config.compileOptions none)).length) :
    (tree.compile (config.compileOptions none)).failure =
      some (.compile (.instructionLimit 65536)) ∧
    tree.extent (config.compileOptions none) = 65535 := by
  have hlimits : (config.compileOptions none).maxInstructions ≤
      min (config.compileOptions none).maxPoolEntries Pool.capacity := Int.le_refl 65536
  have hpos : (0 : Int) < 65536 := by decide
  have hextent : (tree.extent (config.compileOptions none) : Int) + 1 = 65536 :=
    Expr.extent_of_long hlimits hpos hlong
  exact ⟨Expr.failure_of_long hlimits hpos hlong, by omega⟩

/-- After any calls in which no configuration was refused, a tree whose compilation fails
    has too many instructions. Its evaluation throws what the handler throws when it is told
    of the failure. Otherwise it ends as the run of the first 65535 lines of the tree ends:
    with what these leave on top of the stack, unless they meet a fault. The tree is not
    cached afterwards. -/
theorem evaluate_failed_eq {init : List (Text × HostData)} {o : EngineOptions} {production : Bool}
    {calls : List Call} {e₀ e : Engine} {tree : Expr} {failure : Failure}
    (hcreate : create init o production = .ok e₀) (hafter : e₀.after? calls = some e)
    (hfailure : (tree.compile (e.config.compileOptions none)).failure = some failure)
    (locals : Option (List (Text × HostData))) :
    failure = .compile (.instructionLimit 65536) ∧
    65536 < (tree.target (e.config.compileOptions none)).instructions + 1 ∧
    ∃ e', e'.cache.has tree = false ∧
      (evaluate tree locals).run.run e =
        ((e.refusal? (tree.compile (e.config.compileOptions none))).elim
          (e.outcome (some tree.source)
            (Machine.runLines e.environment
              (Line.cut 65535 (tree.code (e.config.compileOptions none)))
              { locals := bound locals, used := true }))
          fun message => .error (.raised message), e') := by
  obtain ⟨hcoherent, -⟩ := (coherent_create hcreate).1.after hafter
  have hfailed : (tree.compile (e.config.compileOptions none)).failure ≠ none := by
    rw [hfailure]
    exact Option.some_ne_none failure
  have hlong : (65536 : Int) ≤ (tree.code (e.config.compileOptions none)).length := by
    refine Int.not_lt.1 fun hroom => hfailed ?_
    exact (Expr.failure_compile_eq_none_iff_of_le (Int.le_refl 65536)).2 hroom
  obtain ⟨hlimit, hextent⟩ := truncated_of_long hlong
  have hrun := run_evaluate_of_failed (get?_of_failed hcoherent.valid hfailed) hfailure locals
  rw [Expr.runFrom_compile (by omega), hextent] at hrun
  rw [Expr.length_code] at hlong
  exact ⟨Option.some.inj (hfailure.symm.trans hlimit), by omega, hrun⟩

end Engine

/-! ## Copies of a tree -/

namespace Expr

section

variable {env : Environment} {prefixes : List Text} {x : Expr} {s : Store} {v : Value}

theorem linesAll_append (xs ys : List Expr) :
    linesAll prefixes (xs ++ ys) = linesAll prefixes xs ++ linesAll prefixes ys := by
  induction xs with
  | nil => rfl
  | cons x xs ih => rw [List.cons_append, linesAll, linesAll, ih, List.append_assoc]

theorem closed_linesAll (prefixes : List Text) (xs : List Expr) :
    Line.Closed (linesAll prefixes xs) := by
  have hemits := emits_linesAll xs (e := CompileOptions.emitter { prefixes }) rfl
  exact hemits.closed

theorem instructionsAll_replicate (n : Nat) (x : Expr) :
    instructionsAll (List.replicate n x) = n * x.instructions := by
  induction n with
  | zero => rw [List.replicate_zero, instructionsAll, Nat.zero_mul]
  | succ n ih => rw [List.replicate_succ, instructionsAll, ih, Nat.succ_mul, Nat.add_comm]

/-- Between two elements no jump is cut off. -/
theorem cut_linesAll_replicate (prefixes : List Text) (x : Expr) {n m : Nat} (hle : n ≤ m)
    (rest : List Line) :
    Line.cut (n * x.instructions) (linesAll prefixes (List.replicate m x) ++ rest) =
      linesAll prefixes (List.replicate n x) := by
  obtain ⟨k, rfl⟩ := Nat.exists_eq_add_of_le hle
  have hclosed := closed_linesAll prefixes (List.replicate n x)
  have hlength : (linesAll prefixes (List.replicate n x)).length = n * x.instructions := by
    rw [length_linesAll, instructionsAll_replicate]
  rw [List.replicate_add, linesAll_append, List.append_assoc, ← hlength,
    Line.cut_append_of_le (Nat.le_refl _), Line.cut_length hclosed]

variable (hx : ∀ d, x.eval env prefixes d s = (v, s))

include hx

theorem evalAll_replicate (n d : Nat) :
    evalAll env prefixes (List.replicate n x) d s = (List.replicate n v, s) := by
  induction n generalizing d with
  | zero => rfl
  | succ n ih => simp only [List.replicate_succ, evalAll, hx, ih]

theorem peakAll_replicate_le {m : Nat} (hpeak : ∀ d, x.peak env prefixes d s ≤ d + m) (n d : Nat) :
    peakAll env prefixes (List.replicate n x) d s ≤ d + n + m := by
  induction n generalizing d with
  | zero => exact Nat.zero_le _
  | succ n ih =>
    have hfirst := hpeak d
    have hrest := ih (d + 1)
    simp only [List.replicate_succ, peakAll, hx]
    omega

/-- Elements that are the same tree leave as many copies of its value. -/
theorem runLines_replicate {m : Nat} (hq : env.Quiet)
    (hpeak : ∀ d, x.peak env prefixes d s ≤ d + m) {n : Nat} (hroom : n + m ≤ env.room) :
    Machine.runLines env (linesAll prefixes (List.replicate n x)) (s.running .empty) =
      (none, s.running (Stack.empty.above (List.replicate n v))) := by
  have hle := peakAll_replicate_le hx hpeak n 0
  have hrun := (computes_linesAll prefixes hq (List.replicate n x) s .empty).run
    (by show peakAll env prefixes (List.replicate n x) 0 s ≤ env.room; omega) []
  rw [List.append_nil, evalAll_replicate hx, List.reverse_replicate, Machine.runLines] at hrun
  exact hrun

end

/-- `x && x && … && x`, with `n` operators. -/
def conjunction : Nat → Expr
  | 0 => .var "x"
  | n + 1 => .binary .and (conjunction n) (.var "x")

theorem fold_conjunction (n : Nat) : (conjunction n).fold = conjunction n := by
  induction n with
  | zero => rfl
  | succ n ih =>
    rw [conjunction, fold, ih]
    cases n <;> rfl

theorem eval_conjunction {env : Environment} {prefixes : List Text} {s : Store}
    (hx : s.resolve env "x" = .bool true) (n d : Nat) :
    (conjunction n).eval env prefixes d s = (.bool true, s) := by
  induction n with
  | zero => rw [conjunction, eval, hx]
  | succ n ih =>
    simp only [conjunction, eval, ih, hx, BinaryOp.apply, Value.isTruthy, Bool.and_true]

theorem peak_conjunction_le {env : Environment} {prefixes : List Text} {s : Store} (n d : Nat) :
    (conjunction n).peak env prefixes d s ≤ d + 2 := by
  induction n generalizing d with
  | zero => exact Nat.le_succ _
  | succ n ih =>
    have hleft := ih d
    simp only [conjunction, peak]
    omega

theorem instructions_conjunction (n : Nat) : (conjunction n).instructions = 2 * n + 1 := by
  induction n with
  | zero => rfl
  | succ n ih =>
    rw [conjunction, instructions, ih, instructions]
    omega

/-- An array of 258 elements with 255 instructions each. -/
def overlong : Expr := .array (List.replicate 258 (conjunction 127))

theorem foldAll_replicate (n : Nat) (x : Expr) :
    foldAll (List.replicate n x) = List.replicate n x.fold := by
  induction n with
  | zero => rfl
  | succ n ih => rw [List.replicate_succ, foldAll, ih, List.replicate_succ]

theorem target_overlong (o : CompileOptions) : overlong.target o = overlong := by
  unfold target
  split
  · rw [overlong, fold, foldAll_replicate, fold_conjunction]
  · rfl

theorem instructions_overlong : overlong.instructions = 65791 := by
  rw [overlong, instructions, instructionsAll_replicate, instructions_conjunction]

/-- The limit falls between two elements. -/
theorem cut_overlong (o : CompileOptions) :
    Line.cut 65535 (overlong.code o) =
      linesAll o.prefixes (List.replicate 257 (conjunction 127)) := by
  have hcut := cut_linesAll_replicate o.prefixes (conjunction 127) (Nat.le_succ 257)
    [.buildArray 258]
  rw [instructions_conjunction] at hcut
  rw [code, target_overlong, overlong, lines, List.length_replicate]
  exact hcut

end Expr

namespace Engine

/-- The elements that are left evaluate to true, and so does the whole array. -/
theorem evaluate_overlong :
    ∃ e e', create [("x", .bool true)] {} false = .ok e ∧
      (Expr.overlong.compile (e.config.compileOptions none)).failure =
        some (.compile (.instructionLimit 65536)) ∧
      (evaluate Expr.overlong none).run.run e = (.ok (.bool true), e') := by
  obtain ⟨e, hcreate, hconfig, hstate⟩ : ∃ e, create [("x", .bool true)] {} false = .ok e ∧
      e.config = {} ∧
      e.state = Entries.mapValues Value.ofHost (Entries.ofHost [("x", .bool true)]) :=
    ⟨_, rfl, rfl, rfl⟩
  have hx : Store.resolve e.environment ⟨[], []⟩ "x" = .bool true := by
    have hindex : Text.index? "x" = none := by decide
    simp [Store.resolve, environment, hstate, Entries.get?, Entries.mapValues, Entries.ofHost,
      Entries.ofList, Entries.insert, Entries.indexFirst, hindex, Value.ofHost]
  have hlong : (65536 : Int) ≤ (Expr.overlong.code (e.config.compileOptions none)).length := by
    rw [Expr.length_code, Expr.target_overlong, Expr.instructions_overlong]
    decide
  have hfailure := (truncated_of_long hlong).1
  have hrefusal : e.refusal? (Expr.overlong.compile (e.config.compileOptions none)) = none := by
    simp [refusal?, hconfig]
  have hrun : Machine.runLines e.environment
      (Line.cut 65535 (Expr.overlong.code (e.config.compileOptions none)))
      { locals := bound none, used := true } =
      (none, Store.running ⟨[], []⟩ (Stack.empty.above (List.replicate 257 (.bool true)))) := by
    have hroom : 257 + 2 ≤ e.environment.room := by
      simp only [Environment.room, environment, hconfig]
      decide
    have hquiet : e.environment.Quiet := by
      intro handler hhandler
      simp [environment, hconfig] at hhandler
    rw [Expr.cut_overlong, bound, Option.getD_none, mapValues_ofHost_nil]
    exact Expr.runLines_replicate (Expr.eval_conjunction hx 127) hquiet
      (Expr.peak_conjunction_le 127) hroom
  have hafter : e.after? [] = some e := rfl
  obtain ⟨-, -, e', -, heval⟩ := evaluate_failed_eq hcreate hafter hfailure none
  rw [hrefusal, hrun] at heval
  exact ⟨e, e', hcreate, hfailure, heval⟩

end Engine

end Reckon
