-- SUMMARY: The cache of an engine is right for its configuration and state after every operation.
import Reckon.Proofs.Configuration
import Reckon.Proofs.Dependence
import Reckon.Proofs.Logging
import Reckon.Proofs.Sharing

/-!
# Coherence of the cache

A cached program is what each tree with its key compiles to under the present
configuration. A memoized result is what the program gives with the present
builtins and the present values of the variables that the tree names: a write
drops the results that depend on it, while other changes of the state, of the
handler or of the room on the stack make no difference. Every operation keeps
the cache like that.
-/

namespace Reckon

/-! ## Entries of a cache -/

/-- What every entry of the cache is like. -/
def Cache.All {α : Type} (P : Text → CacheEntry α → Prop) (c : Cache α) : Prop :=
  ∀ key entry, (key, entry) ∈ c.entries → P key entry

namespace Cache.All

variable {α : Type} {P Q : Text → CacheEntry α → Prop} {c : Cache α}

theorem of_empty (h : c.entries = []) : c.All P := by
  intro key entry hmem
  rw [h] at hmem
  cases hmem

theorem mono (h : c.All P) (hPQ : ∀ key entry, P key entry → Q key entry) : c.All Q :=
  fun key entry hmem => hPQ key entry (h key entry hmem)

theorem touch (h : c.All P) (key : Text) :
    (c.touch key).2.All P ∧ ∀ entry ∈ (c.touch key).1, P key entry := by
  unfold Cache.touch
  cases hget : Entries.get? c.entries key with
  | none => exact ⟨h, nofun⟩
  | some entry =>
    have hentry : P key entry := h key entry (Entries.mem_of_get? hget)
    refine ⟨?_, fun entry' hentry' => Option.some.inj hentry' ▸ hentry⟩
    intro key' entry' hmem
    rcases List.mem_append.1 hmem with hold | hnew
    · exact h key' entry' (Entries.mem_of_mem_erase hold)
    · cases List.mem_singleton.1 hnew
      exact hentry

theorem lookup (h : c.All P) (tree : Expr) :
    (c.lookup tree).2.All P ∧
      ∀ compiled ∈ (c.lookup tree).1, ∃ entry, P tree.key entry ∧ entry.compiled = compiled := by
  have htouch := h.touch tree.key
  unfold Cache.lookup
  generalize c.touch tree.key = r at htouch ⊢
  obtain ⟨found, c'⟩ := r
  cases found with
  | none => exact ⟨htouch.1, nofun⟩
  | some entry =>
    exact ⟨htouch.1, fun compiled hcompiled =>
      ⟨entry, htouch.2 entry rfl, Option.some.inj hcompiled⟩⟩

theorem result? (h : c.All P) (tree : Expr) :
    (c.result? tree).2.All P ∧
      ∀ v ∈ (c.result? tree).1, ∃ entry, P tree.key entry ∧ entry.result = some v := by
  have htouch := h.touch tree.key
  unfold Cache.result?
  generalize c.touch tree.key = r at htouch ⊢
  obtain ⟨found, c'⟩ := r
  cases found with
  | none => exact ⟨htouch.1, nofun⟩
  | some entry => exact ⟨htouch.1, fun v hv => ⟨entry, htouch.2 entry rfl, hv⟩⟩

theorem insert (h : c.All P) {tree : Expr} {compiled : α}
    (hnew : P tree.key { compiled, reads := tree.variableNames }) :
    (c.insert tree compiled).All P := by
  intro key entry hmem
  rcases List.mem_append.1 hmem with hold | hlast
  · refine h key entry ?_
    split at hold
    · exact Entries.mem_of_mem_erase hold
    · unfold Cache.evict at hold
      split at hold
      · exact List.mem_of_mem_drop hold
      · exact hold
  · cases List.mem_singleton.1 hlast
    exact hnew

theorem storeResult (h : c.All P) {tree : Expr} {v : Value}
    (hstore : ∀ entry, P tree.key entry → P tree.key { entry with result := some v }) :
    (c.storeResult tree v).All P := by
  simp only [Cache.storeResult]
  cases hget : Entries.get? c.entries tree.key with
  | none => exact h
  | some entry =>
    intro key' entry' hmem
    rcases Entries.mem_of_mem_insert hmem with hold | hnew
    · exact h key' entry' hold
    · cases hnew
      exact hstore entry (h _ _ (Entries.mem_of_get? hget))

theorem invalidateAll (h : c.All P)
    (hdrop : ∀ key entry, P key entry → Q key { entry with result := none }) :
    c.invalidateAll.All Q := by
  intro key entry hmem
  obtain ⟨⟨key', entry'⟩, hold, heq⟩ := List.mem_map.1 hmem
  obtain ⟨rfl, rfl⟩ := Prod.mk.inj heq
  exact hdrop key' entry' (h _ _ hold)

theorem invalidate (h : c.All P) {name : Text}
    (hdrop : ∀ key entry, P key entry → Q key { entry with result := none })
    (hkeep : ∀ key entry, P key entry → name ∉ entry.reads → Q key entry) :
    (c.invalidate name).2.All Q := by
  intro key entry hmem
  obtain ⟨⟨key', entry'⟩, hold, heq⟩ := List.mem_map.1 hmem
  obtain ⟨rfl, rfl⟩ := Prod.mk.inj heq
  have hentry := h key' entry' hold
  dsimp only
  split
  next => exact hdrop key' entry' hentry
  next hfree =>
    by_cases hreads : name ∈ entry'.reads
    · have hnone : entry'.result = none := by simpa [CacheEntry.dependsOn, hreads] using hfree
      have hsame : entry' = { entry' with result := none } := by rw [← hnone]
      rw [hsame]
      exact hdrop key' entry' hentry
    · exact hkeep key' entry' hentry hreads

/-- After a write to variables, the results that are left depend on none of them. -/
theorem foldl_invalidate (h : c.All P) (names : List Text)
    (hdrop : ∀ key entry, P key entry → Q key { entry with result := none })
    (hkeep : ∀ key entry, P key entry → (∀ name ∈ names, name ∉ entry.reads) → Q key entry) :
    (names.foldl (fun c name => (c.invalidate name).2) c).All Q := by
  induction names generalizing c P with
  | nil => exact fun key entry hmem => hkeep key entry (h key entry hmem) nofun
  | cons name names ih =>
    -- In between, an entry has lost its result or does not depend on the first name.
    let R : Text → CacheEntry α → Prop := fun key entry =>
      (∃ old, P key old ∧ entry = { old with result := none }) ∨ P key entry ∧ name ∉ entry.reads
    have hfirst : (c.invalidate name).2.All R :=
      h.invalidate (fun key entry hentry => .inl ⟨entry, hentry, rfl⟩)
        (fun key entry hentry hname => .inr ⟨hentry, hname⟩)
    refine ih hfirst ?_ ?_
    · rintro key entry (⟨old, hold, rfl⟩ | ⟨hentry, -⟩)
      · exact hdrop key old hold
      · exact hdrop key entry hentry
    · rintro key entry (⟨old, hold, rfl⟩ | ⟨hentry, hname⟩) hnames
      · exact hdrop key old hold
      · exact hkeep key entry hentry (List.forall_mem_cons.2 ⟨hname, hnames⟩)

end Cache.All

/-! ## What is right about an entry -/

/-- What the cache holds under a key is right for every tree with that key: the program is
    what the tree compiles to, and the result is one that `R` allows. -/
structure CacheEntry.Valid (o : CompileOptions) (R : Expr → Value → Prop) (key : Text)
    (entry : CacheEntry Compiled) : Prop where
  program : ∀ tree : Expr, tree.key = key → entry.compiled.program.bare = (tree.compile o).bare
  reads : ∀ tree : Expr, tree.key = key → entry.reads = tree.variableNames
  failure : entry.compiled.program.failure = none
  result : ∀ (tree : Expr) v, tree.key = key → entry.result = some v → R tree v

namespace CacheEntry.Valid

variable {o : CompileOptions} {R R' : Expr → Value → Prop} {key : Text}
  {entry : CacheEntry Compiled}

theorem ofCompiled {tree : Expr} {compiled : Compiled}
    (hprogram : compiled.program.bare = (tree.compile o).bare)
    (hfailure : compiled.program.failure = none) :
    Valid o R tree.key { compiled, reads := tree.variableNames } := by
  refine ⟨fun tree' hkey => ?_, fun tree' hkey => ?_, hfailure, nofun⟩
  · exact hprogram.trans (Expr.bare_compile_of_key_eq hkey.symm o _)
  · exact Expr.variableNames_of_key_eq hkey.symm

/-- Without a result, an entry is right as long as trees are compiled the same way. -/
theorem dropped (h : Valid o R key entry) : Valid o R' key { entry with result := none } :=
  ⟨h.program, h.reads, h.failure, nofun⟩

theorem kept (h : Valid o R key entry)
    (hR : ∀ tree v, entry.reads = tree.variableNames → R tree v → R' tree v) :
    Valid o R' key entry :=
  ⟨h.program, h.reads, h.failure,
    fun tree v hkey hv => hR tree v (h.reads tree hkey) (h.result tree v hkey hv)⟩

theorem stored (h : Valid o R key entry) {v : Value}
    (hv : ∀ tree : Expr, tree.key = key → R tree v) :
    Valid o R key { entry with result := some v } :=
  ⟨h.program, h.reads, h.failure, fun tree _ hkey hstored => Option.some.inj hstored ▸ hv tree hkey⟩

end CacheEntry.Valid

namespace Engine

/-- A fresh program of the tree, run in a fresh context, gives the value without a fault. -/
def Gives (e : Engine) (tree : Expr) (v : Value) : Prop :=
  ∃ c, Context.run {} e.environment (tree.compile (e.config.compileOptions none)) = (.ok v, c) ∧
    c.fault = none

/-- The engine has the configuration and the state of `e₀`, and its cache is right for
    them. -/
structure Within (e₀ : Engine) (R : Expr → Value → Prop) (e : Engine) : Prop where
  config : e.config = e₀.config
  state : e.state = e₀.state
  attached : e.attached = e₀.attached
  valid : e.cache.All (CacheEntry.Valid (e₀.config.compileOptions none) R)

variable {e₀ e e' : Engine} {R R' : Expr → Value → Prop} {tree : Expr} {v w : Value}

theorem Within.environment (h : e₀.Within R e) : e.environment = e₀.environment := by
  simp only [Engine.environment, h.config, h.state]

theorem Within.withCache (h : e₀.Within R e) {cache : Cache Compiled}
    (hcache : cache.All (CacheEntry.Valid (e₀.config.compileOptions none) R)) :
    e₀.Within R { e with cache } := ⟨h.config, h.state, h.attached, hcache⟩

theorem Within.withLog (h : e₀.Within R e) (log : Log) : e₀.Within R { e with log } :=
  ⟨h.config, h.state, h.attached, h.valid⟩

/-- A run goes as one of a fresh program in a fresh context, on top of what was logged. -/
theorem run_onto_of_bare {p p' : Program} (hp : p.bare = p'.bare) (env : Environment) (log : Log) :
    Context.run { log } env p =
      ((Context.run {} env p').1, (Context.run {} env p').2.onto log) := by
  have honto : ({ log } : Context) = ({} : Context).onto log := rfl
  rw [← Context.run_bare, hp, Context.run_bare, honto, Context.run_onto]

theorem run_fresh {p p' : Program} {log : Log} {env : Environment} {c : Context}
    (hp : p.bare = p'.bare) (hrun : Context.run { log } env p = (.ok v, c)) :
    ∃ c', Context.run {} env p' = (.ok v, c') ∧ c'.fault = c.fault := by
  rw [run_onto_of_bare hp] at hrun
  generalize Context.run {} env p' = r at hrun ⊢
  obtain ⟨result, c'⟩ := r
  obtain ⟨rfl, rfl⟩ := Prod.mk.inj hrun
  exact ⟨c', rfl, rfl⟩

theorem Gives.of_key_eq {tree' : Expr} (h : e.Gives tree v) (hkey : tree.key = tree'.key) :
    e.Gives tree' v := by
  obtain ⟨c, hrun, hfault⟩ := h
  obtain ⟨c', hrun', hfault'⟩ :=
    run_fresh (Expr.bare_compile_of_key_eq hkey (e.config.compileOptions none) _) hrun
  exact ⟨c', hrun', hfault'.trans hfault⟩

/-! ## Compiling and evaluating -/

open EngineM (Spec)

/-- Compiling gives the program of the tree, but for its source text. -/
theorem spec_compile (e₀ : Engine) (tree : Expr) (source : Option Text) :
    Spec (e₀.Within R) (compile tree source)
      (fun compiled e => e₀.Within R e ∧
        compiled.program.bare = (tree.compile (e₀.config.compileOptions none)).bare)
      (e₀.Within R) := by
  refine .bind_get fun e hwithin => ?_
  have hlookup := hwithin.valid.lookup tree
  generalize e.cache.lookup tree = r at hlookup ⊢
  obtain ⟨compiled?, cache⟩ := r
  cases compiled? with
  | some compiled =>
    obtain ⟨entry, hentry, rfl⟩ := hlookup.2 _ rfl
    refine .seq (e₀.Within R) (.set fun _ _ => hwithin.withCache hlookup.1) fun _ => ?_
    exact .pure fun e he => ⟨he, hentry.program tree rfl⟩
  | none =>
    have hprogram : (tree.compile (e.config.compileOptions source)).bare =
        (tree.compile (e₀.config.compileOptions none)).bare := by
      rw [hwithin.config]
      exact Expr.bare_compile_of_key_eq rfl (e₀.config.compileOptions none) _
    have hmissed : e₀.Within R { e with cache, compilations := e.compilations + 1 } :=
      ⟨hwithin.config, hwithin.state, hwithin.attached, hlookup.1⟩
    refine .seq (e₀.Within R) (.set fun _ _ => hmissed) fun _ => ?_
    cases hfailure : (tree.compile (e.config.compileOptions source)).failure with
    | none =>
      refine .seq (e₀.Within R) (.modifyCache fun e' he => he.withCache ?_) fun _ => ?_
      · exact he.valid.insert (.ofCompiled hprogram hfailure)
      · exact .pure fun _ he => ⟨he, hprogram⟩
    | some failure =>
      refine .seq (e₀.Within R) (.report (fun _ log he => he.withLog log) fun _ he => he)
        fun _ => ?_
      split
      · refine .seq (e₀.Within R) (.warn fun _ log he => he.withLog log) fun _ => ?_
        exact .pure fun _ he => ⟨he, hprogram⟩
      · exact .pure fun _ he => ⟨he, hprogram⟩

/-- Asking for a memoized result does not throw, whatever `S` is. -/
theorem spec_memoized (e₀ : Engine) (tree : Expr) {S : Engine → Prop} :
    Spec (e₀.Within R) (memoized tree)
      (fun result e => e₀.Within R e ∧ ∀ v, result = some v → R tree v) S := by
  refine .bind_get fun e hwithin => ?_
  have hresult := hwithin.valid.result? tree
  generalize e.cache.result? tree = r at hresult ⊢
  obtain ⟨result, cache⟩ := r
  refine .seq (e₀.Within R) (.modifyCache fun _ hsame => ?_) fun _ => ?_
  · exact hsame ▸ hwithin.withCache hresult.1
  · refine .pure fun _ he => ⟨he, fun v hv => ?_⟩
    obtain ⟨entry, hentry, hstored⟩ := hresult.2 v hv
    exact hentry.result tree v rfl hstored

/-- An evaluation ends with a cache that is right. Without locals its value is a memoized
    one, or that of a fresh program in a fresh context. -/
def Replies (e₀ : Engine) (R : Expr → Value → Prop) (tree : Expr)
    (locals : Option (List (Text × HostData))) (v : Value) (e : Engine) : Prop :=
  e₀.Within R e ∧ (locals = none →
    e₀.config.memoize = true ∧ R tree v ∨
      ∃ c, Context.run {} e₀.environment (tree.compile (e₀.config.compileOptions none)) =
        (.ok v, c))

theorem mapValues_ofHost_nil : Entries.mapValues Value.ofHost (Entries.ofHost []) = [] := by
  simp [Entries.mapValues, Entries.ofHost, Entries.ofList, Entries.indexFirst]

theorem spec_execute (e₀ : Engine) {memoize : Bool} (tree : Expr)
    {locals : Option (List (Text × HostData))} {compiled : Compiled}
    (hmemoize : memoize = true → locals = none)
    (hprogram : compiled.program.bare = (tree.compile (e₀.config.compileOptions none)).bare)
    (hstore : memoize = true →
      ∀ tree' v, Expr.key tree' = tree.key → e₀.Gives tree' v → R tree' v) :
    Spec (e₀.Within R) (execute memoize tree locals compiled) (e₀.Replies R tree locals)
      (e₀.Within R) := by
  have hlocals : locals = none →
      Entries.mapValues Value.ofHost (Entries.ofHost (locals.getD [])) = [] := by
    rintro rfl
    exact mapValues_ofHost_nil
  refine .bind_get fun e hwithin => ?_
  rw [hwithin.environment]
  generalize Entries.mapValues Value.ofHost (Entries.ofHost (locals.getD [])) = bound at hlocals ⊢
  dsimp only
  generalize hrun : Context.run { locals := bound, log := e.log } e₀.environment
    compiled.program = r
  obtain ⟨result, context⟩ := r
  refine .seq (e₀.Within R) (.set fun _ _ => hwithin.withLog _) fun _ => ?_
  cases result with
  | error message => exact .throw fun _ he => he
  | ok v =>
    have hfresh : locals = none → ∃ c, Context.run {} e₀.environment
        (tree.compile (e₀.config.compileOptions none)) = (.ok v, c) ∧ c.fault = context.fault := by
      intro hnone
      rw [hlocals hnone] at hrun
      exact run_fresh hprogram hrun
    have hreturn : Spec (e₀.Within R) (pure v) (e₀.Replies R tree locals) (e₀.Within R) :=
      .pure fun _ he => ⟨he, fun hnone => .inr ((hfresh hnone).imp fun _ => And.left)⟩
    dsimp only
    cases hfault : context.fault with
    | some fault =>
      exact .seq (e₀.Within R) (.report (fun _ log he => he.withLog log) fun _ he => he)
        fun _ => hreturn
    | none =>
      dsimp only
      split
      next hmemo =>
        have hmemo : memoize = true := (Bool.and_eq_true_iff.1 hmemo).1
        obtain ⟨c, hc, hsame⟩ := hfresh (hmemoize hmemo)
        have hgives : e₀.Gives tree v := ⟨c, hc, hsame.trans hfault⟩
        refine .seq (e₀.Within R) (.modifyCache fun _ he => he.withCache ?_) fun _ => hreturn
        refine he.valid.storeResult fun entry hentry => hentry.stored fun tree' hkey => ?_
        exact hstore hmemo tree' v hkey (hgives.of_key_eq hkey.symm)
      next => exact hreturn

/-- What an evaluation memoizes is what a fresh program gives. -/
theorem spec_evaluate_of (e₀ : Engine) (tree : Expr) (locals : Option (List (Text × HostData)))
    (hstore : e₀.config.memoize = true → locals = none →
      ∀ tree' v, Expr.key tree' = tree.key → e₀.Gives tree' v → R tree' v) :
    Spec (e₀.Within R) (evaluate tree locals) (e₀.Replies R tree locals) (e₀.Within R) := by
  refine .bind_get fun e hwithin => ?_
  refine .bind (fun _ hsame => hsame ▸ spec_compile e₀ tree none e hwithin) fun compiled => ?_
  refine .assume fun hprogram => ?_
  rw [hwithin.config]
  dsimp only
  split
  next hmemoize =>
    obtain ⟨hmemo, hlocals⟩ := Bool.and_eq_true_iff.1 hmemoize
    have hlocals : locals = none := Option.isNone_iff_eq_none.1 hlocals
    refine .bind (spec_memoized e₀ tree) fun result => .assume fun hresult => ?_
    cases result with
    | some v => exact .pure fun _ he => ⟨he, fun _ => .inl ⟨hmemo, hresult v rfl⟩⟩
    | none => exact spec_execute e₀ tree (fun _ => hlocals) hprogram fun _ => hstore hmemo hlocals
  next hmemoize =>
    exact fun e he => spec_execute e₀ tree (fun h => absurd h hmemoize) hprogram
      (fun h => absurd h hmemoize) e he

/-! ## Results that can be relied on -/

/-- Memoized results can be relied on: writes reach the cache, and builtins do not look at
    variables by themselves. -/
def Trusted (e : Engine) : Prop := e.attached = true ∧ e.environment.builtins.Blind

/-- The program of the tree gave the value without a fault, with the builtins of the engine
    and with the values that the variables of the tree have in its state. -/
def Yields (e : Engine) (tree : Expr) (v : Value) : Prop :=
  ∃ env c, env.builtins = e.environment.builtins ∧
    (∀ name ∈ tree.variableNames,
      Context.resolve {} env name = Context.resolve {} e.environment name) ∧
    Context.run {} env (tree.compile (e.config.compileOptions none)) = (.ok v, c) ∧ c.fault = none

/-- The value may be memoized for the tree. -/
def Allows (e : Engine) (tree : Expr) (v : Value) : Prop := e.Trusted → e.Yields tree v

/-- The cache is right for the configuration and the state. -/
def Coherent (e : Engine) : Prop := e.Within e.Allows e

/-- Two good runs give the same value if the builtins are the same, and so are the values of
    the variables that the tree names and of those that the builtins see. -/
theorem eq_of_agree {env env' : Environment} {o : CompileOptions} {names : Text → Prop}
    {c c' : Context} (hbuiltins : env'.builtins = env.builtins) (hsees : env.builtins.Sees names)
    (hnames : ∀ name ∈ tree.variableNames, names name)
    (hagree : ∀ name, names name → Context.resolve {} env' name = Context.resolve {} env name)
    (hrun : Context.run {} env (tree.compile o) = (.ok v, c)) (hfault : c.fault = none)
    (hrun' : Context.run {} env' (tree.compile o) = (.ok w, c')) (hfault' : c'.fault = none) :
    v = w := by
  have hsimilar : Environment.Similar names False env env' := ⟨hbuiltins, hsees, nofun⟩
  have hstart : ({} : Context).Agree names False env env' {} := ⟨rfl, rfl, hagree, nofun⟩
  have hload : ∀ name, (tree.compile o).Loads name → names name :=
    fun name hload => hnames name (Expr.mem_variableNames_of_loads hload)
  exact Context.run_eq_of_faultless hsimilar hload rfl rfl hstart hrun hfault hrun' hfault'

/-- A memoized result is what a fresh run gives. -/
theorem Yields.eq_of_fresh {c : Context} (hblind : e.environment.builtins.Blind)
    (h : e.Yields tree v)
    (hfresh : Context.run {} e.environment (tree.compile (e.config.compileOptions none)) =
      (.ok w, c))
    (hfault : c.fault = none) : v = w := by
  obtain ⟨env, c', hbuiltins, hagree, hrun, hfault'⟩ := h
  have hsees : env.builtins.Sees (· ∈ tree.variableNames) := (hbuiltins ▸ hblind).sees _
  exact eq_of_agree hbuiltins.symm hsees (fun _ => id) (fun name hname => (hagree name hname).symm)
    hrun hfault' hfresh hfault

/-- The value is that of a fresh program in a fresh context, if this run meets no fault
    and no error. -/
def Fresh (e : Engine) (tree : Expr) (v : Value) : Prop :=
  ∀ w c, Context.run {} e.environment (tree.compile (e.config.compileOptions none)) = (.ok w, c) →
    c.fault = none → v = w

/-- An evaluation ends with a cache that is right, and without locals with a value that is
    fresh. -/
def Answers (e₀ : Engine) (tree : Expr) (locals : Option (List (Text × HostData))) (v : Value)
    (e : Engine) : Prop :=
  e₀.Within e₀.Allows e ∧ (locals = none → e₀.Trusted → e₀.Fresh tree v)

theorem Gives.yields (h : e.Gives tree v) : e.Yields tree v := by
  obtain ⟨c, hrun, hfault⟩ := h
  exact ⟨e.environment, c, rfl, fun _ _ => rfl, hrun, hfault⟩

theorem spec_evaluate (e₀ : Engine) (tree : Expr) (locals : Option (List (Text × HostData))) :
    Spec (e₀.Within e₀.Allows) (evaluate tree locals) (e₀.Answers tree locals)
      (e₀.Within e₀.Allows) := by
  have hspec : Spec (e₀.Within e₀.Allows) (evaluate tree locals)
      (e₀.Replies e₀.Allows tree locals) (e₀.Within e₀.Allows) :=
    spec_evaluate_of e₀ tree locals fun _ _ _ _ _ hgives _ => hgives.yields
  intro e he
  have hrun := hspec e he
  generalize (evaluate tree locals).run.run e = r at hrun ⊢
  obtain ⟨result, e'⟩ := r
  cases result with
  | error error => exact hrun
  | ok v =>
    refine ⟨hrun.1, fun hlocals htrusted w c hfresh hfault => ?_⟩
    rcases hrun.2 hlocals with ⟨-, hallowed⟩ | ⟨c', hc'⟩
    · exact (hallowed htrusted).eq_of_fresh htrusted.2 hfresh hfault
    · rw [hfresh] at hc'
      exact (Except.ok.inj (Prod.mk.inj hc').1).symm

/-! ## Changing the engine -/

/-- What is allowed stays so if the variables keep their values and the builtins are the
    same. -/
theorem Allows.kept (h : e.Allows tree v)
    (hoptions : e'.config.compileOptions none = e.config.compileOptions none)
    (hattached : e'.attached = true → e.attached = true)
    (hbuiltins : e'.environment.builtins = e.environment.builtins)
    (hstate : e'.attached = true → ∀ name ∈ tree.variableNames,
      Context.resolve {} e'.environment name = Context.resolve {} e.environment name) :
    e'.Allows tree v := by
  intro htrusted
  have htrusted' : e.Trusted := ⟨hattached htrusted.1, hbuiltins ▸ htrusted.2⟩
  obtain ⟨env, c, henv, hagree, hrun, hfault⟩ := h htrusted'
  refine ⟨env, c, henv.trans hbuiltins.symm, fun name hname => ?_, hoptions ▸ hrun, hfault⟩
  rw [hagree name hname, hstate htrusted.1 name hname]

theorem Coherent.withCache (h : e.Coherent) (o : EngineOptions) (size? : Option Nat) :
    (e.withCache o size?).Coherent := by
  cases size? with
  | some size => exact ⟨rfl, rfl, rfl, .of_empty rfl⟩
  | none =>
    cases hrebuild : (e.config.withBuildOptions o).1 with
    | false => rwa [withCache_of_not_rebuild hrebuild]
    | true =>
      refine ⟨rfl, rfl, rfl, ?_⟩
      simp only [Engine.withCache, hrebuild, if_true]
      exact .of_empty rfl

theorem Coherent.withRest (h : e.Coherent) (o : EngineOptions) (stack? : Option Nat) :
    (e.withRest o stack?).Coherent := by
  have hresults : (if o.memoize = some false then e.cache.invalidateAll else e.cache).All
      (CacheEntry.Valid (e.config.compileOptions none) e.Allows) := by
    split
    · exact h.valid.invalidateAll fun key entry hentry => hentry.dropped
    · exact h.valid
  refine ⟨rfl, rfl, rfl, ?_⟩
  cases hbuiltins : o.builtins with
  | some builtins =>
    have hcache : (e.withRest o stack?).cache = Cache.invalidateAll
        (if o.memoize = some false then e.cache.invalidateAll else e.cache) := by
      simp only [Engine.withRest, hbuiltins, Option.isSome_some, if_true]
    rw [hcache]
    exact hresults.invalidateAll fun key entry hentry => hentry.dropped
  | none =>
    have hcache : (e.withRest o stack?).cache =
        if o.memoize = some false then e.cache.invalidateAll else e.cache := by
      simp only [Engine.withRest, hbuiltins, Option.isSome_none, Bool.false_eq_true, if_false]
    have hsame : (e.withRest o stack?).environment.builtins = e.environment.builtins := by
      simp only [Engine.withRest, Engine.environment, hbuiltins, Option.getD_none]
    rw [hcache]
    exact hresults.mono fun key entry hentry => hentry.kept fun tree v _ hallowed =>
      hallowed.kept rfl id hsame fun _ _ _ => rfl

/-- Configuring keeps the cache right, if it does not throw. -/
theorem Coherent.configure (h : e.Coherent) {o : EngineOptions}
    (hrun : (configure o).run.run e = (.ok (), e')) : e'.Coherent ∧ e'.attached = e.attached := by
  obtain ⟨size?, stack?, rfl⟩ := eq_of_configure hrun
  exact ⟨(h.withCache o size?).withRest o stack?, by cases size? <;> rfl⟩

/-- A new engine has an empty cache, which is attached to the state. -/
theorem coherent_create {init : List (Text × HostData)} {o : EngineOptions} {production : Bool}
    (h : create init o production = .ok e) : e.Coherent ∧ e.attached = true := by
  obtain ⟨state, hrun⟩ := configure_of_create h
  have hnew : Coherent { state, production } := ⟨rfl, rfl, rfl, .of_empty rfl⟩
  exact hnew.configure hrun

end Engine

end Reckon
