-- SUMMARY: What configuring an engine does, whether it returns or throws.
import Reckon.Proofs.Operations

/-!
# Configuring an engine

The options are taken one after the other, and a size that is refused ends the
work: what was done before stays done. The options that decide how trees are
compiled come first. If the size of the cache is refused, they are in force while
the cache still holds the programs that were compiled without them; if the size
of the stack is refused, the cache has been emptied or replaced for them.
-/

namespace Reckon

/-! ## The steps of configuring -/

/-- The value of an option that has to be a positive whole number, if it is given. -/
def EngineOptions.size? (option : Text) : Option Double → Except EngineError (Option Nat)
  | none => .ok none
  | some given => given.toPositive?.elim (.error (.notPositive option given)) (.ok ∘ some)

namespace Engine

variable (e : Engine) (o : EngineOptions)

/-- The engine with the options that decide how trees are compiled. -/
def withBuild : Engine := { e with config := (e.config.withBuildOptions o).2 }

/-- The engine with these options and a cache for them: a new one if a size is given,
    and an empty one if the programs in it are out of date. -/
def withCache (size? : Option Nat) : Engine :=
  let config := (e.config.withBuildOptions o).2
  match size? with
  | some size => { e with config := { config with cacheSize := size }, cache := { max := size } }
  | none =>
    { e with config, cache := if (e.config.withBuildOptions o).1 then e.cache.clear else e.cache }

/-- The engine with the options that no program depends on. Memoized results are dropped
    if they are not wanted any more or other builtins gave them. -/
def withRest (stack? : Option Nat) : Engine :=
  let cache := if o.memoize = some false then e.cache.invalidateAll else e.cache
  { e with
    config := { e.config with
      maxStack := stack?.getD e.config.maxStack
      memoize := o.memoize.getD e.config.memoize
      builtins := o.builtins.getD e.config.builtins
      onError := o.onError.getD e.config.onError
      debug := o.debug.getD e.config.debug }
    cache := if o.builtins.isSome then cache.invalidateAll else cache }

theorem run_configureCache :
    (configureCache o).run.run e =
      match EngineOptions.size? "cacheSize" o.cacheSize with
      | .error error => (.error error, e.withBuild o)
      | .ok size? => (.ok (), e.withCache o size?) := by
  unfold configureCache
  rw [EngineM.run_bind_get]
  cases o.cacheSize with
  | none =>
    simp only [EngineOptions.size?, withCache]
    cases (e.config.withBuildOptions o).1 <;> rfl
  | some given =>
    cases hsize : given.toPositive? with
    | none =>
      simp only [EngineOptions.size?, positive, hsize, Option.elim]
      rfl
    | some size =>
      simp only [EngineOptions.size?, positive, hsize, Option.elim]
      rfl

theorem run_configureStack :
    (configureStack o).run.run e =
      match EngineOptions.size? "maxStackSize" o.maxStack with
      | .error error => (.error error, e)
      | .ok stack? =>
        (.ok (), { e with config.maxStack := stack?.getD e.config.maxStack }) := by
  unfold configureStack
  cases o.maxStack with
  | none => rfl
  | some given =>
    cases hsize : given.toPositive? with
    | none =>
      simp only [EngineOptions.size?, positive, hsize, Option.elim]
      rfl
    | some size =>
      simp only [EngineOptions.size?, positive, hsize, Option.elim]
      rfl

/-- Configuring takes the options in three steps, and stops where a size is refused. -/
theorem run_configure :
    (configure o).run.run e =
      match EngineOptions.size? "cacheSize" o.cacheSize with
      | .error error => (.error error, e.withBuild o)
      | .ok size? =>
        match EngineOptions.size? "maxStackSize" o.maxStack with
        | .error error => (.error error, e.withCache o size?)
        | .ok stack? => (.ok (), (e.withCache o size?).withRest o stack?) := by
  unfold configure
  rw [EngineM.run_bind, run_configureCache]
  cases EngineOptions.size? "cacheSize" o.cacheSize with
  | error error => rfl
  | ok size? =>
    dsimp only
    rw [EngineM.run_bind, run_configureStack]
    cases EngineOptions.size? "maxStackSize" o.maxStack with
    | error error => rfl
    | ok stack? =>
      dsimp only [withRest]
      unfold configureResults
      cases o.memoize with
      | none => cases o.builtins <;> rfl
      | some memoize => cases memoize <;> cases o.builtins <;> rfl

variable {e o}

theorem eq_of_configure {e' : Engine} (hrun : (configure o).run.run e = (.ok (), e')) :
    ∃ size? stack?, e' = (e.withCache o size?).withRest o stack? := by
  rw [run_configure] at hrun
  cases hsize : EngineOptions.size? "cacheSize" o.cacheSize with
  | error error => rw [hsize] at hrun; cases hrun
  | ok size? =>
    rw [hsize] at hrun
    cases hstack : EngineOptions.size? "maxStackSize" o.maxStack with
    | error error => rw [hstack] at hrun; cases hrun
    | ok stack? =>
      rw [hstack] at hrun
      cases hrun
      exact ⟨size?, stack?, rfl⟩

/-- An engine is created by configuring one that has nothing but its state. -/
theorem configure_of_create {init : List (Text × HostData)} {production : Bool}
    (h : create init o production = .ok e) :
    ∃ state, (configure o).run.run { state, production } = (.ok (), e) := by
  simp only [create] at h
  split at h
  next hrun =>
    cases h
    exact ⟨_, hrun⟩
  next => cases h

/-! ## Refused sizes -/

/-- Options that leave the programs of the cache up to date change nothing else, either. -/
theorem withBuildOptions_of_not_rebuild (h : (e.config.withBuildOptions o).1 = false) :
    (e.config.withBuildOptions o).2 = e.config := by
  simp only [EngineConfig.withBuildOptions, Bool.or_eq_false_iff, decide_eq_false_iff_not,
    Decidable.not_not, Option.isSome_eq_false_iff, Option.isNone_iff_eq_none, ne_eq] at h
  obtain ⟨⟨hoptimize, heliminate⟩, hprefixes⟩ := h
  simp only [EngineConfig.withBuildOptions, hoptimize, heliminate, hprefixes, Option.getD_none]

theorem withBuild_of_not_rebuild (h : (e.config.withBuildOptions o).1 = false) :
    e.withBuild o = e := by
  rw [withBuild, withBuildOptions_of_not_rebuild h]

theorem withCache_of_not_rebuild (h : (e.config.withBuildOptions o).1 = false) :
    e.withCache o none = e := by
  simp only [withCache, withBuildOptions_of_not_rebuild h, h, Bool.false_eq_true, if_false]

/-- Configuring throws exactly if a size is refused. It has then taken the options that
    decide how trees are compiled, but has left the cache to the programs that were
    compiled without them if the size of the cache is the refused one. Only if nothing
    was taken before, the engine is as it was. -/
theorem configure_throws_iff (e e' : Engine) (o : EngineOptions) (error : EngineError) :
    ((configure o).run.run e = (.error error, e') ↔
      EngineOptions.size? "cacheSize" o.cacheSize = .error error ∧ e' = e.withBuild o ∨
      ∃ size?, EngineOptions.size? "cacheSize" o.cacheSize = .ok size? ∧
        EngineOptions.size? "maxStackSize" o.maxStack = .error error ∧
        e' = e.withCache o size?) ∧
    ((configure o).run.run e = (.error error, e') → (e.config.withBuildOptions o).1 = false →
      (∀ size, EngineOptions.size? "cacheSize" o.cacheSize ≠ .ok (some size)) → e' = e) := by
  have hiff : (configure o).run.run e = (.error error, e') ↔
      EngineOptions.size? "cacheSize" o.cacheSize = .error error ∧ e' = e.withBuild o ∨
      ∃ size?, EngineOptions.size? "cacheSize" o.cacheSize = .ok size? ∧
        EngineOptions.size? "maxStackSize" o.maxStack = .error error ∧
        e' = e.withCache o size? := by
    rw [run_configure]
    cases EngineOptions.size? "cacheSize" o.cacheSize with
    | error refused =>
      constructor
      · rintro ⟨⟩
        exact .inl ⟨rfl, rfl⟩
      · rintro (⟨⟨⟩, rfl⟩ | ⟨size?, ⟨⟩, -⟩)
        rfl
    | ok size? =>
      cases EngineOptions.size? "maxStackSize" o.maxStack with
      | error refused =>
        constructor
        · rintro ⟨⟩
          exact .inr ⟨size?, rfl, rfl, rfl⟩
        · rintro (⟨⟨⟩, -⟩ | ⟨size?', ⟨⟩, ⟨⟩, rfl⟩)
          rfl
      | ok stack? =>
        constructor
        · rintro ⟨⟩
        · rintro (⟨⟨⟩, -⟩ | ⟨size?', -, ⟨⟩, -⟩)
  refine ⟨hiff, fun hthrow hkept hsize => ?_⟩
  rcases hiff.1 hthrow with ⟨-, rfl⟩ | ⟨size?, hcache, -, rfl⟩
  · exact withBuild_of_not_rebuild hkept
  · cases size? with
    | none => exact withCache_of_not_rebuild hkept
    | some size => exact absurd hcache (hsize size)

/-- A refused size of the cache leaves folding turned off, but nothing is changed if it is
    the only option. -/
theorem configure_half_applied :
    (configure { optimize := some false, cacheSize := some (.zero false) }).run.run {} =
      (.error (.notPositive "cacheSize" (.zero false)), { config := { optimize := false } }) ∧
    (configure { cacheSize := some (.zero false) }).run.run {} =
      (.error (.notPositive "cacheSize" (.zero false)), {}) := by
  have hzero : (Double.zero false).toPositive? = none := by decide +kernel
  have hrefused : EngineOptions.size? "cacheSize" (some (.zero false)) =
      .error (.notPositive "cacheSize" (.zero false)) := by
    rw [EngineOptions.size?, hzero, Option.elim]
  have halone : (configure { cacheSize := some (.zero false) }).run.run {} =
      (.error (.notPositive "cacheSize" (.zero false)),
        withBuild {} { cacheSize := some (.zero false) }) :=
    (configure_throws_iff _ _ _ _).1.2 (.inl ⟨hrefused, rfl⟩)
  have hsame : withBuild {} { cacheSize := some (.zero false) } = {} := by
    refine (configure_throws_iff _ _ _ _).2 halone rfl fun size => ?_
    rw [hrefused]
    nofun
  exact ⟨(configure_throws_iff _ _ _ _).1.2 (.inl ⟨hrefused, rfl⟩), hsame ▸ halone⟩

end Engine

end Reckon
