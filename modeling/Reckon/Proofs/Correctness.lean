-- SUMMARY: Compiled programs yield the value of their tree, and folding constants first makes no difference.
import Reckon.Proofs.Compilation
import Reckon.Proofs.Folding
import Reckon.Proofs.Simulation

/-!
# Correctness of compilation

A program that was compiled without failure yields the value of its tree, with
the same calls of builtins and the same reports, whenever the stack has room for
what the program says it needs. With the usual limits, a tree that compiles
without folding compiles with folding, too, and wherever the plain program does
not fault the folded one gives the same result.
-/

namespace Reckon

namespace Expr

variable {o : CompileOptions} {x : Expr} {env : Environment}

/-! ## Runs and evaluation -/

theorem eval_target (d : Nat) (s : Store) :
    (x.target o).eval env o.prefixes d s = x.eval env o.prefixes d s := by
  rw [target]
  split
  · exact eval_fold x d s
  · rfl

/-- A program runs the whole code of its tree. -/
theorem runFrom_code (hok : (x.compile o).failure = none) (hextent : x.extent o < 2147483648)
    (c : Context) :
    Machine.runFrom env (x.compile o) 0 c = Machine.runLines env (x.code o) c := by
  rw [runFrom_compile hextent, cut_code hok]

theorem computes_code (hq : env.Quiet) (locals : Entries Value) :
    Machine.Computes env (x.code o) { locals, used := true }
      ((x.target o).peak env o.prefixes 0 ⟨locals, []⟩)
      ((x.eval env o.prefixes 0 ⟨locals, []⟩).2.running
        (Stack.empty.push (x.eval env o.prefixes 0 ⟨locals, []⟩).1)) := by
  have hcomputes := computes_lines o.prefixes hq (x.target o) ⟨locals, []⟩ .empty
  rwa [eval_target] at hcomputes

/-- With room for what evaluation holds at once, a program yields the value. -/
theorem run_of_peak_le (hok : (x.compile o).failure = none) (hextent : x.extent o < 2147483648)
    (hq : env.Quiet) {locals : Entries Value}
    (hpeak : (x.target o).peak env o.prefixes 0 ⟨locals, []⟩ ≤ env.room) :
    Context.run { locals } env (x.compile o) =
      (.ok (x.eval env o.prefixes 0 ⟨locals, []⟩).1,
        { used := true, log := (x.eval env o.prefixes 0 ⟨locals, []⟩).2.log }) := by
  have hrun := (computes_code (o := o) (x := x) hq locals).run hpeak []
  rw [List.append_nil, ← runFrom_code hok hextent, Machine.runLines] at hrun
  simp only [Context.run, Bool.false_eq_true, if_false, hrun]
  rfl

/-- Without that room it faults and yields null. -/
theorem run_of_lt_peak (hok : (x.compile o).failure = none) (hextent : x.extent o < 2147483648)
    (hq : env.Quiet) {locals : Entries Value}
    (hpeak : env.room < (x.target o).peak env o.prefixes 0 ⟨locals, []⟩) :
    ∃ c, Context.run { locals } env (x.compile o) = (.ok .null, c) ∧
      c.fault = some (.stackOverflow env.maxStack) := by
  obtain ⟨c, hrun, hfault⟩ := (computes_code (o := o) (x := x) hq locals).overflow hpeak []
  rw [List.append_nil, ← runFrom_code hok hextent] at hrun
  have hresult : c.result = .null := by
    rw [Context.result, hfault]
  refine ⟨{ c with stack := .empty, locals := [] }, ?_, hfault⟩
  simp only [Context.run, Bool.false_eq_true, if_false, hrun, hresult]

theorem fault_of_lt_peak (hok : (x.compile o).failure = none) (hextent : x.extent o < 2147483648)
    (hq : env.Quiet) {locals : Entries Value}
    (hpeak : env.room < (x.target o).peak env o.prefixes 0 ⟨locals, []⟩) :
    (Context.run { locals } env (x.compile o)).2.fault = some (.stackOverflow env.maxStack) := by
  obtain ⟨c, hrun, hfault⟩ := run_of_lt_peak hok hextent hq hpeak
  rw [hrun]
  exact hfault

/-- The stack need that a program states is enough for what evaluation holds. -/
theorem peak_target_le (hok : (x.compile o).failure = none) (hq : env.Quiet)
    {locals : Entries Value} (hstack : ((x.compile o).stackNeed : Int) ≤ env.maxStack) :
    (x.target o).peak env o.prefixes 0 ⟨locals, []⟩ ≤ env.room := by
  have hneed := peak_le_stackNeed (o := o) (x := x)
  rw [cut_code hok] at hneed
  have hroom : Line.peak 0 (x.code o) ≤ env.room := by
    rw [Environment.room]
    omega
  have hstart : Context.At 0 { locals, used := true } := ⟨rfl, rfl⟩
  obtain ⟨c, hrun, hfault⟩ := Machine.runLines_typed hq hstart (typed_code (o := o) (x := x))
  -- A peak beyond the room would make the run overflow, which the heights of the lines exclude.
  refine Nat.le_of_not_lt fun hlt => ?_
  obtain ⟨c', hrun', hfault'⟩ := (computes_code hq locals).overflow hlt []
  rw [List.append_nil, hrun] at hrun'
  cases hrun'
  rcases hfault with hnone | ⟨hpeak, -⟩
  · cases hnone.symm.trans hfault'
  · exact absurd hpeak (Nat.not_lt.2 hroom)

end Expr

/-! ## Builtins that leave a trace -/

theorem Double.signedRank?_ofUnits (num den : Nat) :
    ∃ rank : Nat, rank ≤ topRank ∧ (ofUnits false num den).signedRank? = some (rank : Int) := by
  rw [ofUnits]
  split
  next hlt => exact ⟨_, Nat.le_of_lt hlt, rfl⟩
  next => exact ⟨topRank, Nat.le_refl _, rfl⟩

theorem Double.lt_eq_false {x y : Double} {p q : Int} (hx : x.signedRank? = some p)
    (hy : y.signedRank? = some q) (h : q ≤ p) : x.lt y = false := by
  simp only [lt, compare?, hx, hy, Option.some.injEq, Int.compare_eq_lt, decide_eq_false_iff_not]
  omega

/-- A builtin without bounds accepts any number of arguments. -/
theorem Builtin.accepts_unbounded (fn : BuiltinFn) (n : Nat) : accepts ⟨fn, {}⟩ n = true := by
  obtain ⟨rank, hle, hrank⟩ : ∃ rank : Nat, rank ≤ Double.topRank ∧
      (Double.ofNat n).signedRank? = some (rank : Int) := Double.signedRank?_ofUnits _ 1
  have hlow : (Double.ofNat n).lt (.zero false) = false :=
    Double.lt_eq_false hrank rfl (Int.natCast_nonneg rank)
  have hhigh : (Double.infinite false).lt (.ofNat n) = false :=
    Double.lt_eq_false rfl hrank (Int.ofNat_le.2 hle)
  simp only [accepts, hlow, hhigh]
  rfl

namespace Expr

/-- A builtin that binds a variable and tells at which depth it is called, and one that
    throws. -/
def probes : Environment where
  builtins := [
    ("math_bump",
      ⟨fun scope _ => { binds := [("n", .int 7)], result := .ok (.int scope.depth) }, {}⟩),
    ("math_fail", ⟨fun _ _ => { result := .error "failed" }, {}⟩)]

theorem quiet_probes : probes.Quiet := nofun

theorem call_bump (a b : Value) (d : Nat) (s : Store) :
    s.call probes "math_bump" [a, b] d =
      (.int d, ⟨Entries.insert s.locals "n" (.int 7), .called "math_bump" [a, b] d :: s.log⟩) := by
  simp only [Store.call, probes, BuiltinTable.call, Entries.get?, if_true,
    Builtin.accepts_unbounded]
  rfl

theorem call_fail (d : Nat) (s : Store) :
    s.call probes "math_fail" [] d =
      (.null, ⟨s.locals, .printed (.builtinThrew "math_fail" "failed") ::
        .called "math_fail" [] d :: s.log⟩) := by
  have hne : (("math_bump" : Text) = "math_fail") = False := by decide
  simp only [Store.call, probes, BuiltinTable.call, Entries.get?, hne, if_false, if_true,
    Builtin.accepts_unbounded]
  rfl

/-! ## Compilation is correct -/

/-- A program that was compiled without failure yields the value of its tree, with the
    calls and reports of evaluation, if the stack has the room that the program needs.
    Arrays, hence programs, have fewer than `2 ^ 32` words. -/
theorem run_compile_eq_eval (o : CompileOptions) (x : Expr) (env : Environment)
    (locals : Entries Value) (hok : (x.compile o).failure = none)
    (hsize : (x.compile o).words.size < 4294967296) (hq : env.Quiet)
    (hstack : ((x.compile o).stackNeed : Int) ≤ env.maxStack) :
    Context.run { locals } env (x.compile o) =
      (.ok (x.eval env o.prefixes 0 ⟨locals, []⟩).1,
        { used := true, log := (x.eval env o.prefixes 0 ⟨locals, []⟩).2.log }) := by
  have hextent : x.extent o < 2147483648 := by
    have hle := extent_le_size (o := o) (x := x)
    omega
  exact run_of_peak_le hok hextent hq (peak_target_le hok hq hstack)

/-- `[math_bump(n, 2), n, n ? math_fail() : m, other(n)]` -/
def probing : Expr :=
  .array [.call "math_bump" [.var "n", .lit (.int 2)], .var "n",
    .cond (.var "n") (.call "math_fail" []) (.var "m"), .call "other" [.var "n"]]

theorem run_probing :
    (probing.compile { optimize := true }).failure = none ∧
    Context.run { locals := [("n", .int 1)] } probes (probing.compile { optimize := true }) =
      (.ok (.array [.int 0, .int 7, .null, .null]),
        { used := true, log := [.printed (.builtinThrew "math_fail" "failed"),
          .called "math_fail" [] 2, .called "math_bump" [.int 1, .int 2] 0] }) := by
  have hok : (probing.compile { optimize := true }).failure = none := by decide
  have hrun := run_compile_eq_eval { optimize := true } probing probes [("n", .int 1)] hok
    (by decide) quiet_probes (by decide)
  have hbump : defaultPrefixes.any (Text.startsWith "math_bump") = true := by decide
  have hfail : defaultPrefixes.any (Text.startsWith "math_fail") = true := by decide
  have hother : defaultPrefixes.any (Text.startsWith "other") = false := by decide
  refine ⟨hok, hrun.trans ?_⟩
  simp only [probing, eval, evalAll, evalArgs, hbump, hfail, hother, call_bump, call_fail]
  rfl

/-! ## Folding makes no difference -/

/-- If a tree compiles without folding and the program does not fault, the tree compiles
    with folding, too, and both programs yield the same value with the same calls and
    reports. The limits are such that code runs out before a pool does, as it is with
    the default ones. -/
theorem run_compile_fold (o : CompileOptions) (x : Expr) (env : Environment)
    (locals : Entries Value) (hlimits : o.maxInstructions ≤ min o.maxPoolEntries Pool.capacity)
    (hq : env.Quiet) (hok : (x.compile { o with optimize := false }).failure = none)
    (hrun : (Context.run { locals } env (x.compile { o with optimize := false })).2.fault = none) :
    (x.compile { o with optimize := true }).failure = none ∧
    ∃ v c, c.fault = none ∧
      Context.run { locals } env (x.compile { o with optimize := true }) = (.ok v, c) ∧
      Context.run { locals } env (x.compile { o with optimize := false }) = (.ok v, c) := by
  have hlength : ((x.code { o with optimize := false }).length : Int) < o.maxInstructions :=
    (failure_compile_eq_none_iff_of_le (o := { o with optimize := false }) hlimits).1 hok
  have hshorter : (x.code { o with optimize := true }).length ≤
      (x.code { o with optimize := false }).length := length_lines_fold_le o.prefixes x
  have hfolded : (x.compile { o with optimize := true }).failure = none :=
    (failure_compile_eq_none_iff_of_le (o := { o with optimize := true }) hlimits).2
      (Int.lt_of_le_of_lt (Int.ofNat_le.2 hshorter) hlength)
  have hextent : ∀ b, x.extent { o with optimize := b } < 2147483648 := by
    intro b
    have hle := extent_le (o := { o with optimize := b }) (x := x)
    have hcap : (Pool.capacity : Int) = 65536 := rfl
    cases b <;> omega
  have hpeak : x.peak env o.prefixes 0 ⟨locals, []⟩ ≤ env.room := by
    refine Nat.le_of_not_lt fun hlt => ?_
    cases hrun.symm.trans (fault_of_lt_peak hok (hextent false) hq hlt)
  have hlower : x.fold.peak env o.prefixes 0 ⟨locals, []⟩ ≤ env.room :=
    Nat.le_trans (peak_fold_le x 0 _) hpeak
  exact ⟨hfolded, _, _, rfl, run_of_peak_le hfolded (hextent true) hq hlower,
    run_of_peak_le hok (hextent false) hq hpeak⟩

/-- `[math_bump(n, 2 * 3), 1 < 2 ? math_fail() : m, (4 - 5)]` -/
def foldable : Expr :=
  .array [.call "math_bump" [.var "n", .binary .mul (.lit (.int 2)) (.lit (.int 3))],
    .cond (.binary .lt (.lit (.int 1)) (.lit (.int 2))) (.call "math_fail" []) (.var "m"),
    .group (.binary .sub (.lit (.int 4)) (.lit (.int 5)))]

theorem run_foldable :
    (foldable.compile { optimize := true }).failure = none ∧
    Context.run { locals := [("n", .int 1)] } probes (foldable.compile { optimize := true }) =
      (.ok (.array [.int 0, .null, .int (-1)]),
        { used := true, log := [.printed (.builtinThrew "math_fail" "failed"),
          .called "math_fail" [] 1, .called "math_bump" [.int 1, .int 6] 0] }) := by
  have hbump : defaultPrefixes.any (Text.startsWith "math_bump") = true := by decide
  have hfail : defaultPrefixes.any (Text.startsWith "math_fail") = true := by decide
  have hok : (foldable.compile { optimize := false }).failure = none :=
    (failure_compile_eq_none_iff_of_le (by decide)).2 (by decide)
  have hextent : foldable.extent { optimize := false } < 2147483648 :=
    Nat.lt_of_le_of_lt extent_le (by decide)
  have hpeak : foldable.peak probes defaultPrefixes 0 ⟨[("n", .int 1)], []⟩ ≤ probes.room := by
    simp only [foldable, peak, peakAll, peakArgs, eval, evalArgs, hbump, call_bump]
    decide
  have hplain : Context.run { locals := [("n", .int 1)] } probes
      (foldable.compile { optimize := false }) = _ :=
    run_of_peak_le hok hextent quiet_probes hpeak
  obtain ⟨hfolded, v, c, -, hrun, hsame⟩ := run_compile_fold {} foldable probes [("n", .int 1)]
    (by decide) quiet_probes hok (congrArg (·.2.fault) hplain)
  refine ⟨hfolded, hrun.trans (hsame.symm.trans (hplain.trans ?_))⟩
  simp only [foldable, eval, evalAll, evalArgs, hbump, hfail, call_bump, call_fail]
  rfl

end Expr

end Reckon
