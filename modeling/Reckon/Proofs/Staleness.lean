-- SUMMARY: Which memoized results can be out of date: where they are from and what must have changed since.
import Reckon.Proofs.Reuse

/-!
# Results that are out of date

A memoized result depends on the variables that its tree names, and a write to one
of them drops it while the cache is attached to the state. Two things escape this.
A builtin may look at a variable that the tree does not name, and a disposed
engine goes on memoizing although no write reaches its cache. In either case a
result can be served that is not the one of a fresh evaluation. It is then one
that an earlier call gave, and a variable that it depends on has another value now.
-/

namespace Reckon

namespace Engine

variable {e₀ e e' : Engine} {R : Expr → Value → Prop} {tree : Expr} {v w : Value}

/-! ## Evaluating with memoized results -/

open EngineM (Spec)

/-- Evaluating the tree returns a value with `Q`, unless it cannot be compiled and the
    handler throws. -/
def Returns (e : Engine) (tree : Expr) (Q : Value → Prop) : Prop :=
  match e.refusal? (tree.compile (e.config.compileOptions none)) with
  | some message => ∃ e', (evaluate tree none).run.run e = (.error (.raised message), e')
  | none => ∃ v e', (evaluate tree none).run.run e = (.ok v, e') ∧ Q v

theorem Returns.mono {Q Q' : Value → Prop} (h : e.Returns tree Q) (hQ : ∀ v, Q v → Q' v) :
    e.Returns tree Q' := by
  unfold Returns at h ⊢
  split
  next hrefusal =>
    rw [hrefusal] at h
    exact h
  next hrefusal =>
    rw [hrefusal] at h
    obtain ⟨v, e', hrun, hv⟩ := h
    exact ⟨v, e', hrun, hQ v hv⟩

/-- Whether a fresh evaluation gives a value equal to `x` without a fault. -/
def checkGives (e : Engine) (tree : Expr) (x : Value) : Bool :=
  match Context.run {} e.environment (tree.compile (e.config.compileOptions none)) with
  | (.ok v, c) => v.equal x && c.fault.isNone
  | (.error _, _) => false

theorem gives_of_checkGives {x : Value} (h : e.checkGives tree x = true) :
    ∃ v, e.Gives tree v ∧ v.equal x = true := by
  unfold checkGives at h
  split at h
  next v c hrun =>
    obtain ⟨hequal, hfault⟩ := Bool.and_eq_true_iff.1 h
    exact ⟨v, ⟨c, hrun, Option.isNone_iff_eq_none.1 hfault⟩, hequal⟩
  next => cases h

/-- Whether an evaluation returns a value equal to `x`. -/
def checkEvaluate (e : Engine) (tree : Expr) (x : Value) : Bool :=
  match (evaluate tree none).run.run e with
  | (.ok v, _) => v.equal x
  | (.error _, _) => false

theorem run_of_checkEvaluate {x : Value} (h : e.checkEvaluate tree x = true) :
    ∃ v e', (evaluate tree none).run.run e = (.ok v, e') ∧ v.equal x = true := by
  unfold checkEvaluate at h
  split at h
  next v e' hrun => exact ⟨v, e', hrun, h⟩
  next => cases h

/-- A program that gives a value without a fault is executed without throwing. -/
theorem spec_execute_of_gives (hgives : e₀.Gives tree w) {memoize : Bool} {compiled : Compiled}
    (hprogram : compiled.program.bare = (tree.compile (e₀.config.compileOptions none)).bare)
    {Q : Value → Prop} (hw : Q w) :
    Spec (e₀.Within R) (execute memoize tree none compiled) (fun v _ => Q v) fun _ => False := by
  obtain ⟨c, hrun, hfault⟩ := hgives
  refine .bind_get fun e hwithin => ?_
  have hagain : Context.run { log := e.log } e.environment compiled.program =
      (.ok w, c.onto e.log) := by
    rw [hwithin.environment, run_onto_of_bare hprogram, hrun]
  have hgood : (c.onto e.log).fault = none := hfault
  simp only [Option.getD_none, mapValues_ofHost_nil, hagain]
  refine .seq (fun _ => True) (.set fun _ _ => trivial) fun _ => ?_
  rw [hgood]
  dsimp only
  split
  · exact .seq (fun _ => True) (.modifyCache fun _ _ => trivial) fun _ => .pure fun _ _ => hw
  · exact .pure fun _ _ => hw

section

variable (h : e.cache.All (CacheEntry.Valid (e.config.compileOptions none) R))

include h

theorem spec_compile_of_not_refused
    (hrefusal : e.refusal? (tree.compile (e.config.compileOptions none)) = none) :
    Spec (· = e) (compile tree none)
      (fun compiled e' => e.Within R e' ∧
        compiled.program.bare = (tree.compile (e.config.compileOptions none)).bare)
      fun _ => False := by
  intro e' hsame
  have hspec := spec_compile e tree none e ⟨rfl, rfl, rfl, h⟩
  obtain ⟨e₁, -, hcompile⟩ := compilesAfresh_of_valid h tree none
  simp only [hrefusal] at hcompile
  obtain ⟨compiled, hrun, -⟩ := hcompile
  rw [hrun] at hspec
  rw [hsame, hrun]
  exact hspec

theorem spec_evaluate_of_gives
    (hrefusal : e.refusal? (tree.compile (e.config.compileOptions none)) = none)
    (hgives : e.Gives tree w) :
    Spec (· = e) (evaluate tree none) (fun v _ => v = w ∨ e.config.memoize = true ∧ R tree v)
      fun _ => False := by
  refine .bind_get fun e' hsame => ?_
  rw [hsame]
  refine .bind (spec_compile_of_not_refused h hrefusal) fun compiled => .assume fun hprogram => ?_
  dsimp only
  split
  next hmemoize =>
    have hmemo : e.config.memoize = true := (Bool.and_eq_true_iff.1 hmemoize).1
    refine .bind (spec_memoized e tree) fun result => .assume fun hresult => ?_
    cases result with
    | some v => exact .pure fun _ _ => .inr ⟨hmemo, hresult v rfl⟩
    | none => exact spec_execute_of_gives hgives hprogram (.inl rfl)
  next => exact fun e' he => spec_execute_of_gives hgives hprogram (.inl rfl) e' he

/-- With a cache that is right, an evaluation returns what a fresh one would return or what
    is memoized. -/
theorem returns_of_valid (hgives : e.Gives tree w) :
    e.Returns tree fun v => v = w ∨ e.config.memoize = true ∧ R tree v := by
  unfold Returns
  split
  next message hrefusal =>
    obtain ⟨e₁, -, hcompile⟩ := compilesAfresh_of_valid h tree none
    simp only [hrefusal] at hcompile
    refine ⟨e₁, ?_⟩
    unfold evaluate
    rw [EngineM.run_bind_get]
    dsimp only
    rw [EngineM.run_bind, hcompile]
  next hrefusal =>
    have hreturns := spec_evaluate_of_gives h hrefusal hgives e rfl
    generalize (evaluate tree none).run.run e = r at hreturns ⊢
    obtain ⟨_ | v, e'⟩ := r
    · exact hreturns.elim
    · exact ⟨v, e', rfl, hreturns⟩

end

/-! ## Where memoized results are from -/

/-- One of the calls evaluated the tree in the engine `e₁`, where it gave the value. -/
def Recalls (e₀ : Engine) (calls : List Call) (tree : Expr) (v : Value) (e₁ : Engine) : Prop :=
  ∃ before call after, calls = before ++ call :: after ∧ e₀.after? before = some e₁ ∧
    call.Evaluates tree ∧ e₁.Gives tree v

/-- A call gave the value, and as long as the cache is attached, the variables of the tree
    have kept the values that they had at the call. -/
def Remembers (e₀ : Engine) (calls : List Call) (e : Engine) (tree : Expr) (v : Value) : Prop :=
  ∃ e₁, e₀.Recalls calls tree v e₁ ∧ e₁.config = e.config ∧
    (e.attached = true → ∀ name ∈ tree.variableNames,
      Context.resolve {} e.environment name = Context.resolve {} e₁.environment name)

theorem after?_concat {past : List Call} {call : Call} (hpast : e₀.after? past = some e)
    (hstep : call.step e = some e') : e₀.after? (past ++ [call]) = some e' := by
  unfold after? at hpast ⊢
  simp [hpast, hstep]

theorem Recalls.append {past calls : List Call} {e₁ : Engine} (h : e₀.Recalls past tree v e₁) :
    e₀.Recalls (past ++ calls) tree v e₁ := by
  obtain ⟨before, call, after, rfl, hrest⟩ := h
  exact ⟨before, call, after ++ calls, by simp, hrest⟩

/-- What a call gave is given again if the variables have the same values. -/
theorem Recalls.eq_of_agree {calls : List Call} {e₁ : Engine} {seen : Text → Prop}
    (h : e₀.Recalls calls tree v e₁) (hconfig : e₁.config = e.config)
    (hseen : e.environment.builtins.Sees seen)
    (hagree : ∀ name, name ∈ tree.variableNames ∨ seen name →
      Context.resolve {} e.environment name = Context.resolve {} e₁.environment name)
    (hgives : e.Gives tree w) : v = w := by
  obtain ⟨before, call, after, -, -, -, c₁, hrun₁, hfault₁⟩ := h
  obtain ⟨c, hrun, hfault⟩ := hgives
  have hbuiltins : e.environment.builtins = e₁.environment.builtins := by
    simp only [environment, hconfig]
  have hsees : e₁.environment.builtins.Sees fun name => name ∈ tree.variableNames ∨ seen name :=
    (hbuiltins ▸ hseen).mono fun _ => .inr
  rw [hconfig] at hrun₁
  exact Engine.eq_of_agree hbuiltins hsees (fun _ => .inl) hagree hrun₁ hfault₁ hrun hfault

/-- What is memoized after a call was given by that call or by one before. -/
theorem remembers_step {past : List Call} {call : Call} (hpast : e₀.after? past = some e)
    (h : e.cache.All (CacheEntry.Valid (e.config.compileOptions none) (e₀.Remembers past e)))
    (hstep : call.step e = some e') (hcall : ∀ o, call ≠ .configure o) :
    e'.cache.All
      (CacheEntry.Valid (e'.config.compileOptions none) (e₀.Remembers (past ++ [call]) e')) := by
  have hleaves := leaves_of_step h hstep hcall
  rw [hleaves.config]
  refine hleaves.valid.mono fun key entry hentry => hentry.kept fun tree v _ hv => ?_
  have hsame := hleaves.resolve_eq hv
  rcases hv with ⟨⟨e₁, hrecalls, hconfig, hkept⟩, -⟩ | ⟨hevaluates, -, hgives⟩
  · refine ⟨e₁, hrecalls.append, hconfig.trans hleaves.config.symm, fun hattached' name hname => ?_⟩
    have hattached := hleaves.attached_of hattached'
    exact (hsame hattached name hname).trans (hkept hattached name hname)
  · refine ⟨e, ⟨past, call, [], rfl, hpast, hevaluates, hgives⟩, hleaves.config.symm, ?_⟩
    exact fun hattached' => hsame (hleaves.attached_of hattached')

/-- What is memoized after any number of calls was given by one of them. -/
theorem remembers_after {past calls : List Call} (hpast : e₀.after? past = some e)
    (h : e.cache.All (CacheEntry.Valid (e.config.compileOptions none) (e₀.Remembers past e)))
    (hafter : e.after? calls = some e') (hcalls : ∀ o, .configure o ∉ calls) :
    e'.cache.All
      (CacheEntry.Valid (e'.config.compileOptions none) (e₀.Remembers (past ++ calls) e')) := by
  -- The calls so far are carried along: what is memoized may be from any of them.
  induction calls generalizing e past with
  | nil =>
    cases hafter
    rwa [List.append_nil]
  | cons call calls ih =>
    obtain ⟨e₁, hstep, hafter⟩ := Option.bind_eq_some_iff.1 hafter
    have hcall : ∀ o, call ≠ .configure o :=
      fun o => Ne.symm (List.ne_of_not_mem_cons (hcalls o))
    rw [List.append_cons]
    exact ih (after?_concat hpast hstep) (remembers_step hpast h hstep hcall) hafter
      fun o => List.not_mem_of_not_mem_cons (hcalls o)

/-- An engine whose cache is empty serves, after any calls, what a fresh evaluation would give
    or what one of the calls gave, if a variable that the tree names or the builtins see has
    another value since. -/
theorem returns_of_entries {calls : List Call} {seen : Text → Prop}
    (hentries : e₀.cache.entries = []) (hafter : e₀.after? calls = some e)
    (hcalls : ∀ o, .configure o ∉ calls)
    (hseen : e.environment.builtins.Sees seen) (hgives : e.Gives tree w) :
    e.Returns tree fun v => v = w ∨ e.config.memoize = true ∧
      ∃ e₁ name, e₀.Recalls calls tree v e₁ ∧ (name ∈ tree.variableNames ∨ seen name) ∧
        Context.resolve {} e.environment name ≠ Context.resolve {} e₁.environment name ∧
        (e.attached = true → name ∉ tree.variableNames) := by
  have hnone : e₀.cache.All
      (CacheEntry.Valid (e₀.config.compileOptions none) (e₀.Remembers [] e₀)) :=
    .of_empty hentries
  have hvalid : e.cache.All
      (CacheEntry.Valid (e.config.compileOptions none) (e₀.Remembers calls e)) :=
    remembers_after rfl hnone hafter hcalls
  refine (returns_of_valid hvalid hgives).mono fun v hv => ?_
  rcases hv with hfresh | ⟨hmemoize, e₁, hrecalls, hconfig, hkept⟩
  · exact .inl hfresh
  by_cases hdiffer : ∃ name, (name ∈ tree.variableNames ∨ seen name) ∧
      Context.resolve {} e.environment name ≠ Context.resolve {} e₁.environment name
  · obtain ⟨name, hname, hne⟩ := hdiffer
    refine .inr ⟨hmemoize, e₁, name, hrecalls, hname, hne, fun hattached hmem => ?_⟩
    exact hne (hkept hattached name hmem)
  · -- Nothing that the run at the call could look at is different now.
    refine .inl (hrecalls.eq_of_agree hconfig hseen (fun name hname => ?_) hgives)
    exact Classical.byContradiction fun hne => hdiffer ⟨name, hname, hne⟩

/-! ## Variables that the tree does not name -/

/-- A new engine has nothing in its cache. -/
theorem entries_create {init : List (Text × HostData)} {o : EngineOptions} {production : Bool}
    (h : create init o production = .ok e) : e.cache.entries = [] := by
  obtain ⟨state, hrun⟩ := configure_of_create h
  obtain ⟨size?, stack?, rfl⟩ := eq_of_configure hrun
  have hcache : (withCache { state, production } o size?).cache.entries = [] := by
    cases size? with
    | some size => rfl
    | none =>
      dsimp only [withCache]
      split <;> rfl
  simp only [withRest, Cache.invalidateAll]
  split <;> split <;> simp [hcache, Entries.mapValues]

/-- As long as the engine is not disposed of, an evaluation returns what a fresh one would
    return, or what one of the calls gave, if since then a variable has changed that the
    builtins see and the tree does not name. -/
theorem evaluate_eq_unless_seen_changed {init : List (Text × HostData)} {o : EngineOptions}
    {production : Bool} {calls : List Call} {seen : Text → Prop}
    (hcreate : create init o production = .ok e₀) (hafter : e₀.after? calls = some e)
    (hconfigure : ∀ o, .configure o ∉ calls) (hdispose : .dispose ∉ calls)
    (hseen : e.environment.builtins.Sees seen) (hgives : e.Gives tree w) :
    e.Returns tree fun v => v = w ∨ e.config.memoize = true ∧
      ∃ e₁ name, e₀.Recalls calls tree v e₁ ∧ seen name ∧ name ∉ tree.variableNames ∧
        Context.resolve {} e.environment name ≠ Context.resolve {} e₁.environment name := by
  obtain ⟨hcoherent, hattached₀⟩ := coherent_create hcreate
  have hattached : e.attached = true := ((hcoherent.after hafter).2.2 hdispose).trans hattached₀
  refine (returns_of_entries (entries_create hcreate) hafter hconfigure hseen hgives).mono
    fun v hv => ?_
  rcases hv with hfresh | ⟨hmemoize, e₁, name, hrecalls, hname, hne, hunnamed⟩
  · exact .inl hfresh
  · have hunnamed := hunnamed hattached
    exact .inr ⟨hmemoize, e₁, name, hrecalls, hname.resolve_left hunnamed, hunnamed, hne⟩

/-- A builtin that looks at the variable `n` by itself. -/
def peeking : BuiltinTable :=
  [("math_n", ⟨fun scope _ => { result := .ok (scope.resolve "n") }, {}⟩)]

theorem sees_peeking : peeking.Sees (· = "n") := by
  intro name b hget resolve resolve' depth args hagree
  simp only [peeking, Entries.get?] at hget
  split at hget
  · cases hget
    simp only [hagree "n" rfl]
  · cases hget

/-- `[n, math_n()]` -/
def naming : Expr := .array [.var "n", .call "math_n" []]

/-- A tree that names what the builtin looks at is evaluated afresh. -/
theorem evaluate_naming_again :
    ∃ e₀ e e' v,
      create [("n", .whole 2)] { memoize := some true, builtins := some (some peeking) } false =
        .ok e₀ ∧
      e₀.after? [.evaluate naming none, .set "n" (.whole 5), .evaluate naming none,
        .set "m" (.whole 1)] = some e ∧
      (evaluate naming none).run.run e = (.ok v, e') ∧
      v.equal (.array [.int 5, .int 5]) = true := by
  obtain ⟨e₀, e, hcreate, hafter, hbuiltins, hfailure, hfresh⟩ : ∃ e₀ e,
      create [("n", .whole 2)] { memoize := some true, builtins := some (some peeking) } false =
        .ok e₀ ∧
      e₀.after? [.evaluate naming none, .set "n" (.whole 5), .evaluate naming none,
        .set "m" (.whole 1)] = some e ∧
      e₀.config.builtins = some peeking ∧
      (naming.compile (e.config.compileOptions none)).failure = none ∧
      e.checkGives naming (.array [.int 5, .int 5]) = true :=
    ⟨_, _, rfl, rfl, rfl, by decide +kernel, by decide +kernel⟩
  have hconfig : e.config = e₀.config :=
    ((coherent_create hcreate).1.after hafter).2.1 (by simp)
  have hseen : e.environment.builtins.Sees (· = "n") := by
    simp only [environment, hconfig, hbuiltins]
    exact sees_peeking
  obtain ⟨w, hgives, hequal⟩ := gives_of_checkGives hfresh
  have hreturns := evaluate_eq_unless_seen_changed hcreate hafter (by simp) (by simp) hseen hgives
  simp only [Returns, refusal?_of_not_failed hfailure] at hreturns
  obtain ⟨v, e', heval, rfl | ⟨-, e₁, name, -, rfl, hunnamed, -⟩⟩ := hreturns
  · exact ⟨e₀, e, e', v, hcreate, hafter, heval, hequal⟩
  · exact absurd (by decide +kernel) hunnamed

/-- A builtin that gives the variable whose name it is given. -/
def getting : BuiltinTable :=
  [("math_get", ⟨fun scope args =>
    { result := .ok (match args with | [.string name] => scope.resolve name | _ => .null) }, {}⟩)]

/-- `math_get("n")` -/
def gettingN : Expr := .call "math_get" [.lit (.string "n")]

/-- A write does not reach a result whose tree does not name the variable. -/
theorem evaluate_gettingN_stale :
    ∃ e₀ e e' v w,
      create [("n", .whole 1)] { memoize := some true, builtins := some (some getting) } false =
        .ok e₀ ∧
      e₀.after? [.evaluate gettingN none, .set "n" (.whole 2)] = some e ∧
      (evaluate gettingN none).run.run e = (.ok v, e') ∧ v.equal (.int 1) = true ∧
      e.Gives gettingN w ∧ w.equal (.int 2) = true := by
  obtain ⟨e₀, e, hcreate, hafter, hstale, hfresh⟩ : ∃ e₀ e,
      create [("n", .whole 1)] { memoize := some true, builtins := some (some getting) } false =
        .ok e₀ ∧
      e₀.after? [.evaluate gettingN none, .set "n" (.whole 2)] = some e ∧
      e.checkEvaluate gettingN (.int 1) = true ∧ e.checkGives gettingN (.int 2) = true :=
    ⟨_, _, rfl, rfl, by decide +kernel, by decide +kernel⟩
  obtain ⟨v, e', heval, hv⟩ := run_of_checkEvaluate hstale
  obtain ⟨w, hgives, hw⟩ := gives_of_checkGives hfresh
  exact ⟨e₀, e, e', v, w, hcreate, hafter, heval, hv, hgives, hw⟩

/-! ## Disposed engines -/

/-- After an engine was disposed of, an evaluation returns what a fresh one would return, or
    what one of the calls since then gave, if a variable of the tree has changed after that
    call. -/
theorem evaluate_eq_unless_changed_after_dispose {calls : List Call}
    (hafter : (dispose.leaves e₀).after? calls = some e) (hconfigure : ∀ o, .configure o ∉ calls)
    (hblind : e.environment.builtins.Blind) (hgives : e.Gives tree w) :
    e.Returns tree fun v => v = w ∨ e.config.memoize = true ∧
      ∃ e₁ name, (dispose.leaves e₀).Recalls calls tree v e₁ ∧ name ∈ tree.variableNames ∧
        Context.resolve {} e.environment name ≠ Context.resolve {} e₁.environment name := by
  have hseen : e.environment.builtins.Sees fun _ => False := hblind.sees _
  refine (returns_of_entries rfl hafter hconfigure hseen hgives).mono fun v hv => ?_
  rcases hv with hfresh | ⟨hmemoize, e₁, name, hrecalls, hname, hne, -⟩
  · exact .inl hfresh
  · exact .inr ⟨hmemoize, e₁, name, hrecalls, hname.resolve_right id, hne⟩

/-- The result of `n` is dropped with the others when the engine is disposed of. -/
theorem evaluate_disposed_again :
    ∃ e₀ e e' v,
      create [("n", .whole 1)] { memoize := some true } false = .ok e₀ ∧
      (dispose.leaves ((evaluate (.var "n") none).leaves e₀)).after?
        [.evaluate naming none, .set "n" (.whole 2)] = some e ∧
      (evaluate (.var "n") none).run.run e = (.ok v, e') ∧ v.equal (.int 2) = true := by
  obtain ⟨e₀, e, hcreate, hafter, hbuiltins, hfailure, hfresh⟩ : ∃ e₀ e,
      create [("n", .whole 1)] { memoize := some true } false = .ok e₀ ∧
      (dispose.leaves ((evaluate (.var "n") none).leaves e₀)).after?
        [.evaluate naming none, .set "n" (.whole 2)] = some e ∧
      e.environment.builtins.isEmpty = true ∧
      (Expr.compile (e.config.compileOptions none) (.var "n")).failure = none ∧
      e.checkGives (.var "n") (.int 2) = true :=
    ⟨_, _, rfl, rfl, by decide +kernel, by decide +kernel, by decide +kernel⟩
  have hblind : e.environment.builtins.Blind := by
    rw [List.isEmpty_iff.1 hbuiltins]
    nofun
  obtain ⟨w, hgives, hequal⟩ := gives_of_checkGives hfresh
  have hreturns := evaluate_eq_unless_changed_after_dispose hafter (by simp) hblind hgives
  simp only [Returns, refusal?_of_not_failed hfailure] at hreturns
  obtain ⟨v, e', heval, rfl | ⟨-, e₁, name, hrecalls, -⟩⟩ := hreturns
  · exact ⟨e₀, e, e', v, hcreate, hafter, heval, hequal⟩
  · obtain ⟨before, call, after, hcalls, -, hevaluates, -⟩ := hrecalls
    have hmem : call ∈ [Call.evaluate naming none, .set "n" (.whole 2)] := hcalls ▸ by simp
    have hkey : naming.key ≠ Expr.key (.var "n") := by decide +kernel
    rcases List.mem_cons.1 hmem with rfl | hset
    · exact absurd hevaluates hkey
    · cases List.mem_singleton.1 hset
      cases hevaluates

/-- A disposed engine goes on memoizing, and a write does not reach the result. -/
theorem evaluate_disposed_stale :
    ∃ e₀ e e' v w,
      create [("n", .whole 1)] { memoize := some true } false = .ok e₀ ∧
      (dispose.leaves e₀).after? [.evaluate (.var "n") none, .set "n" (.whole 2)] = some e ∧
      (evaluate (.var "n") none).run.run e = (.ok v, e') ∧ v.equal (.int 1) = true ∧
      e.Gives (.var "n") w ∧ w.equal (.int 2) = true := by
  obtain ⟨e₀, e, hcreate, hafter, hstale, hfresh⟩ : ∃ e₀ e,
      create [("n", .whole 1)] { memoize := some true } false = .ok e₀ ∧
      (dispose.leaves e₀).after? [.evaluate (.var "n") none, .set "n" (.whole 2)] = some e ∧
      e.checkEvaluate (.var "n") (.int 1) = true ∧ e.checkGives (.var "n") (.int 2) = true :=
    ⟨_, _, rfl, rfl, by decide +kernel, by decide +kernel⟩
  obtain ⟨v, e', heval, hv⟩ := run_of_checkEvaluate hstale
  obtain ⟨w, hgives, hw⟩ := gives_of_checkGives hfresh
  exact ⟨e₀, e, e', v, w, hcreate, hafter, heval, hv, hgives, hw⟩

end Engine

end Reckon
