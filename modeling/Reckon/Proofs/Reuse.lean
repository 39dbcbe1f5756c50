-- SUMMARY: Compiling through the cache gives what a fresh compilation gives, and failed programs are never cached.
import Reckon.Proofs.Memoization

/-!
# Reuse of programs

An engine compiles a tree once and then finds the program in its cache, until it
is evicted or the cache is emptied or replaced. Whatever happened before, the
program is that of a fresh compilation with the present options. It may only
carry another source text, since trees with one key share a program. A program
whose compilation failed is compiled and reported each time.
-/

namespace Reckon

theorem Cache.has_eq {α : Type} (c : Cache α) (tree : Expr) :
    c.has tree = (c.lookup tree).1.isSome := by
  unfold Cache.has Cache.lookup Cache.touch Entries.contains
  cases Entries.get? c.entries tree.key <;> rfl

theorem Cache.has_lookup {α : Type} (c : Cache α) (tree : Expr) :
    (c.lookup tree).2.has tree = c.has tree := by
  unfold Cache.has Cache.lookup Cache.touch Entries.contains
  cases hget : Entries.get? c.entries tree.key with
  | none => simp only [hget]
  | some entry => simp [Entries.get?_append, Entries.get?]

theorem Cache.has_insert {α : Type} (c : Cache α) (tree : Expr) (compiled : α) :
    (c.insert tree compiled).has tree = true := by
  simp [Cache.has, Cache.insert, Entries.contains, Entries.get?_append, Entries.get?]

namespace Engine

variable {e : Engine} {R : Expr → Value → Prop}

/-- What the handler of the engine throws when it is told that the program has failed. -/
def refusal? (e : Engine) (program : Program) : Option Text := do
  let failure ← program.failure
  let handler ← e.config.onError
  handler (.compileFailed program.source failure)

theorem refusal?_of_not_failed {program : Program} (h : program.failure = none) :
    e.refusal? program = none := by
  simp only [refusal?, h, Option.bind_eq_bind, Option.bind_none]

theorem refusal?_eq {program : Program} {failure : Failure} (h : program.failure = some failure) :
    e.refusal? program =
      match e.log.deliver e.config.onError (.compileFailed program.source failure) with
      | .ok _ => none
      | .error message => some message := by
  simp only [refusal?, h, Option.bind_eq_bind, Option.bind_some, Log.deliver]
  cases e.config.onError with
  | none => rfl
  | some handler =>
    dsimp only [Option.bind_some]
    cases handler (.compileFailed program.source failure) <;> rfl

theorem run_report (e : Engine) (r : Report) :
    (report r).run.run e =
      match e.log.deliver e.config.onError r with
      | .ok log => (.ok (), { e with log })
      | .error message => (.error (.raised message), e) := by
  unfold report
  rw [EngineM.run_bind_get]
  cases e.log.deliver e.config.onError r <;> rfl

section

variable {tree : Expr} {source : Option Text} {cache : Cache Compiled}

theorem run_compile_of_found {compiled : Compiled}
    (hfound : e.cache.lookup tree = (some compiled, cache)) :
    (compile tree source).run.run e = (.ok compiled, { e with cache }) := by
  unfold compile
  rw [EngineM.run_bind_get]
  simp only [hfound]
  rfl

variable (hmissing : e.cache.lookup tree = (none, cache))

include hmissing

theorem run_compile_of_missing
    (hfailure : (tree.compile (e.config.compileOptions source)).failure = none) :
    (compile tree source).run.run e =
      (.ok ⟨e.compilations, tree.compile (e.config.compileOptions source)⟩,
        { e with
          cache := cache.insert tree ⟨e.compilations, tree.compile (e.config.compileOptions source)⟩
          compilations := e.compilations + 1 }) := by
  unfold compile
  rw [EngineM.run_bind_get]
  simp only [hmissing, hfailure]
  rfl

/-- A failed compilation is reported, and its program is returned unless the handler
    throws. -/
theorem run_compile_of_failure {failure : Failure}
    (hfailure : (tree.compile (e.config.compileOptions source)).failure = some failure) :
    match e.refusal? (tree.compile (e.config.compileOptions source)) with
    | some message =>
      (compile tree source).run.run e =
        (.error (.raised message), { e with cache, compilations := e.compilations + 1 })
    | none =>
      ∃ log, (compile tree source).run.run e =
        (.ok ⟨e.compilations, tree.compile (e.config.compileOptions source)⟩,
          { e with cache, compilations := e.compilations + 1, log }) := by
  unfold compile
  rw [EngineM.run_bind_get]
  simp only [hmissing, hfailure]
  rw [EngineM.run_bind_set, EngineM.run_bind, run_report, refusal?_eq hfailure]
  dsimp only
  cases e.log.deliver e.config.onError
      (.compileFailed (tree.compile (e.config.compileOptions source)).source failure) with
  | error message => rfl
  | ok log =>
    dsimp only
    cases e.config.debug with
    | false => exact ⟨log, rfl⟩
    | true => cases e.production with
      | false => exact ⟨_, rfl⟩
      | true => exact ⟨_, rfl⟩

end

/-- Compiling goes as it would go without a cache: it returns the program of a fresh
    compilation, but for its source text, or throws what the handler throws when that
    has failed. Afterwards the tree is cached, unless its compilation failed. -/
def CompilesAfresh (e : Engine) (tree : Expr) (source : Option Text) : Prop :=
  let fresh := tree.compile (e.config.compileOptions source)
  ∃ e', e'.cache.has tree = !fresh.hasFailed ∧
    match e.refusal? fresh with
    | some message => (compile tree source).run.run e = (.error (.raised message), e')
    | none =>
      ∃ compiled, (compile tree source).run.run e = (.ok compiled, e') ∧
        compiled.program.bare = fresh.bare

/-- What is found in a cache that is right is not a failed program, so that a fresh
    compilation would not fail, either. -/
theorem compilesAfresh_of_valid
    (h : e.cache.All (CacheEntry.Valid (e.config.compileOptions none) R)) (tree : Expr)
    (source : Option Text) : e.CompilesAfresh tree source := by
  have hlookup := h.lookup tree
  have hhas := e.cache.has_lookup tree
  rw [e.cache.has_eq] at hhas
  generalize hfound : e.cache.lookup tree = r at hlookup hhas
  obtain ⟨compiled?, cache⟩ := r
  unfold CompilesAfresh
  dsimp only
  cases compiled? with
  | some compiled =>
    obtain ⟨entry, hentry, rfl⟩ := hlookup.2 _ rfl
    have hbare : entry.compiled.program.bare =
        (tree.compile (e.config.compileOptions source)).bare :=
      (hentry.program tree rfl).trans
        (Expr.bare_compile_of_key_eq rfl (e.config.compileOptions none) _).symm
    have hfailure : (tree.compile (e.config.compileOptions source)).failure = none :=
      (congrArg Program.failure hbare).symm.trans hentry.failure
    rw [refusal?_of_not_failed hfailure]
    refine ⟨_, ?_, _, run_compile_of_found hfound, hbare⟩
    simpa [Program.hasFailed, hfailure] using hhas
  | none =>
    cases hfailure : (tree.compile (e.config.compileOptions source)).failure with
    | none =>
      rw [refusal?_of_not_failed hfailure]
      refine ⟨_, ?_, _, run_compile_of_missing hfound hfailure, rfl⟩
      simpa [Program.hasFailed, hfailure] using Cache.has_insert cache tree _
    | some failure =>
      have hfailed : (tree.compile (e.config.compileOptions source)).hasFailed = true := by
        simp [Program.hasFailed, hfailure]
      have hrun := run_compile_of_failure hfound hfailure
      cases hrefusal : e.refusal? (tree.compile (e.config.compileOptions source)) with
      | some message =>
        rw [hrefusal] at hrun
        exact ⟨_, by simpa [hfailed] using hhas, hrun⟩
      | none =>
        rw [hrefusal] at hrun
        obtain ⟨log, hrun⟩ := hrun
        exact ⟨_, by simpa [hfailed] using hhas, _, hrun, rfl⟩

/-- After any calls in which no configuration was refused, no failed program is in the cache,
    and compiling goes as it would go without a cache. -/
theorem compile_eq_fresh {init : List (Text × HostData)} {o : EngineOptions} {production : Bool}
    {calls : List Call} {e₀ e : Engine} (hcreate : create init o production = .ok e₀)
    (hafter : e₀.after? calls = some e) :
    (∀ key entry, (key, entry) ∈ e.cache.entries → entry.compiled.program.hasFailed = false) ∧
      ∀ tree source, e.CompilesAfresh tree source := by
  obtain ⟨hcoherent, -⟩ := (coherent_create hcreate).1.after hafter
  refine ⟨fun key entry hmem => ?_, compilesAfresh_of_valid hcoherent.valid⟩
  have hfailure := (hcoherent.valid key entry hmem).failure
  simp [Program.hasFailed, hfailure]

/-- `1 + 2` -/
def three : Expr := .binary .add (.lit (.int 1)) (.lit (.int 2))

/-- The program of `1 + 2` is dropped for another way of compiling, compiled anew, evicted,
    compiled a third time, and found. -/
theorem compile_three_again :
    ∃ e₀ e e' compiled,
      create [] { cacheSize := some (.ofNat 1) } false = .ok e₀ ∧
      e₀.after? [.compile three none, .configure { optimize := some false }, .compile three none,
        .compile bumping none, .compile three (some "1 + 2")] = some e ∧
      (compile three none).run.run e = (.ok compiled, e') ∧
      compiled.serial = 3 ∧ compiled.program.source = some "1 + 2" ∧ e.config.optimize = false ∧
      compiled.program.bare = (three.compile (e.config.compileOptions none)).bare := by
  have hsession :
      (match create [] { cacheSize := some (.ofNat 1) } false with
        | .error _ => false
        | .ok e₀ =>
          (e₀.after? [.compile three none, .configure { optimize := some false },
            .compile three none, .compile bumping none, .compile three (some "1 + 2")]).any fun e =>
              match ((compile three none).run.run e).1 with
              | .error _ => false
              | .ok compiled =>
                (three.compile (e.config.compileOptions none)).failure.isNone &&
                  decide (compiled.serial = 3 ∧ compiled.program.source = some "1 + 2" ∧
                    e.config.optimize = false)) = true := by
    decide +kernel
  generalize hcreate : create [] { cacheSize := some (.ofNat 1) } false = created at hsession
  cases created with
  | error error => cases hsession
  | ok e₀ =>
    obtain ⟨e, hafter, hfound⟩ := (Option.any_eq_true _ _).1 hsession
    obtain ⟨e', -, hcompile⟩ := (compile_eq_fresh hcreate hafter).2 three none
    generalize hrun : (compile three none).run.run e = r at hfound
    obtain ⟨_ | compiled, e''⟩ := r
    · cases hfound
    obtain ⟨hfailure, hfacts⟩ := Bool.and_eq_true_iff.1 hfound
    obtain ⟨hserial, hsource, hoptimize⟩ := of_decide_eq_true hfacts
    rw [refusal?_of_not_failed (Option.isNone_iff_eq_none.1 hfailure)] at hcompile
    obtain ⟨compiled', hrun', hbare⟩ := hcompile
    cases hrun.symm.trans hrun'
    exact ⟨e₀, e, e', compiled, rfl, hafter, hrun, hserial, hsource, hoptimize, hbare⟩

end Engine

end Reckon
