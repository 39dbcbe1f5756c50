-- SUMMARY: After any calls of an engine, an evaluation gives what it would give without memoized results.
import Reckon.Proofs.Coherence

/-!
# Memoization makes no difference

An engine is created and then called, again and again. Each call keeps the cache
right, and only disposing of the engine detaches the cache from the state. So a
memoized result is the one of a fresh evaluation, whatever was written,
configured, evicted or thrown since it was stored.
-/

namespace Reckon

/-! ## Calls -/

/-- A call of an engine. -/
inductive Call where
  | compile (tree : Expr) (source : Option Text)
  | evaluate (tree : Expr) (locals : Option (List (Text × HostData)))
  | evaluateHost (tree : Expr) (locals : Option (List (Text × HostData)))
  | evaluateAs (kind : BindingKind) (tree : Expr) (locals : Option (List (Text × HostData)))
  | listing (tree : Expr)
  | set (name : Text) (data : HostData)
  | setState (name : Text) (v : Value)
  | deleteState (name : Text)
  | clearState
  | invalidate (name : Text)
  | clearCache
  | configure (o : EngineOptions)
  | dispose

/-- The engine after a call. There is none if it could not be configured as asked; what
    other calls throw is caught. -/
def Call.step (e : Engine) : Call → Option Engine
  | .compile tree source => some ((Engine.compile tree source).leaves e)
  | .evaluate tree locals => some ((Engine.evaluate tree locals).leaves e)
  | .evaluateHost tree locals => some ((Engine.evaluateHost tree locals).leaves e)
  | .evaluateAs kind tree locals => some ((Engine.evaluateAs kind tree locals).leaves e)
  | .listing tree => some ((Engine.listing tree).leaves e)
  | .set name data => some ((Engine.setState name (.ofHost data)).leaves e)
  | .setState name v => some ((Engine.setState name v).leaves e)
  | .deleteState name => some ((Engine.deleteState name).leaves e)
  | .clearState => some (Engine.clearState.leaves e)
  | .invalidate name => some ((Engine.invalidate name).leaves e)
  | .clearCache => some (Engine.clearCache.leaves e)
  | .configure o =>
    match (Engine.configure o).run.run e with
    | (.ok _, e) => some e
    | (.error _, _) => none
  | .dispose => some (Engine.dispose.leaves e)

/-! ## What a call does -/

/-- The variables that a call writes. -/
def Call.writes (e : Engine) : Call → List Text
  | .set name _ | .setState name _ => [name]
  | .deleteState name => if Entries.contains e.state name then [name] else []
  | .clearState => Entries.keys e.state
  | _ => []

/-- The state after a call. -/
def Call.state (e : Engine) : Call → Entries Value
  | .set name data => Entries.insert e.state name (.ofHost data)
  | .setState name v => Entries.insert e.state name v
  | .deleteState name =>
    if Entries.contains e.state name then Entries.erase e.state name else e.state
  | .clearState => []
  | _ => e.state

/-- The call evaluates the tree or one with the same key, without local variables. -/
def Call.Evaluates (tree : Expr) : Call → Prop
  | .evaluate tree' none | .evaluateHost tree' none | .evaluateAs _ tree' none =>
    tree'.key = tree.key
  | _ => False

/-- What may be memoized after a call: what was so before, unless the cache has learnt that a
    variable of the tree was written, and what the call gave. -/
def Call.Retains (call : Call) (e : Engine) (R : Expr → Value → Prop) (tree : Expr)
    (v : Value) : Prop :=
  R tree v ∧ (e.attached = true → ∀ name ∈ call.writes e, name ∉ tree.variableNames) ∨
    call.Evaluates tree ∧ e.config.memoize = true ∧ e.Gives tree v

/-- What a call leaves that does not configure the engine. -/
structure Call.Leaves (call : Call) (R : Expr → Value → Prop) (e e' : Engine) : Prop where
  config : e'.config = e.config
  attached : e'.attached = e.attached ∨ call = .dispose ∧ e'.attached = false
  state : e'.state = call.state e
  valid : e'.cache.All (CacheEntry.Valid (e.config.compileOptions none) (call.Retains e R))

/-- What is as before after a call: the cache is right, and the call may have changed the
    configuration or detached the cache only if it is there for that. -/
structure Call.Keeps (call : Call) (e e' : Engine) : Prop where
  coherent : e'.Coherent
  config : (∀ o, call ≠ .configure o) → e'.config = e.config
  attached : call ≠ .dispose → e'.attached = e.attached

namespace Call

variable {call : Call} {R : Expr → Value → Prop} {e e' : Engine} {tree : Expr} {v : Value}

theorem Evaluates.writes (h : call.Evaluates tree) (e : Engine) : call.writes e = [] := by
  cases call with
  | evaluate tree' locals => rfl
  | evaluateHost tree' locals => rfl
  | evaluateAs kind tree' locals => rfl
  | _ => cases h

theorem Leaves.attached_eq (h : call.Leaves R e e') (hcall : call ≠ .dispose) :
    e'.attached = e.attached :=
  h.attached.resolve_right fun hdispose => hcall hdispose.1

theorem Leaves.attached_of (h : call.Leaves R e e') (hattached : e'.attached = true) :
    e.attached = true := by
  rcases h.attached with hsame | ⟨-, hdetached⟩
  · exact hsame ▸ hattached
  · rw [hdetached] at hattached
    cases hattached

/-- Variables that a call does not write keep their values. -/
theorem get?_state {name : Text} (hname : name ∉ call.writes e) :
    Entries.get? (call.state e) name = Entries.get? e.state name := by
  have hinsert : ∀ {key : Text} (v : Value), name ∉ [key] →
      Entries.get? (Entries.insert e.state key v) name = Entries.get? e.state name := by
    intro key v hne
    rw [Entries.get?_insert, if_neg (Ne.symm (List.ne_of_not_mem_cons hne))]
  cases call with
  | set key data => exact hinsert _ hname
  | setState key v => exact hinsert v hname
  | deleteState key =>
    simp only [writes, state] at hname ⊢
    split at hname
    next hfound =>
      rw [if_pos hfound]
      exact Entries.get?_erase_of_ne _ (Ne.symm (List.ne_of_not_mem_cons hname))
    next hmissing => rw [if_neg hmissing]
  | clearState =>
    rw [Entries.get?_of_not_mem_keys hname]
    rfl
  | _ => rfl

/-- What may be memoized after a call does not depend on what the call wrote. -/
theorem Leaves.resolve_eq (h : call.Leaves R e e') (hv : call.Retains e R tree v)
    (hattached : e.attached = true) :
    ∀ name ∈ tree.variableNames,
      Context.resolve {} e'.environment name = Context.resolve {} e.environment name := by
  intro name hname
  have hwritten : name ∉ call.writes e := by
    intro hmem
    rcases hv with ⟨-, hfree⟩ | ⟨hcall, -⟩
    · exact hfree hattached name hmem hname
    · rw [hcall.writes] at hmem
      cases hmem
  have hsame : Entries.get? e'.state name = Entries.get? e.state name := by
    rw [h.state, get?_state hwritten]
  exact congrArg (Option.getD · Value.null) hsame

end Call

namespace Engine

/-- The engine after calls, one after the other. -/
def after? (e : Engine) (calls : List Call) : Option Engine := calls.foldlM Call.step e

variable {e e' : Engine} {R : Expr → Value → Prop} {call : Call}

open EngineM (Spec)

theorem Within.leaves (h : e.Within (call.Retains e R) e') (hstate : call.state e = e.state) :
    call.Leaves R e e' :=
  ⟨h.config, .inl h.attached, h.state.trans hstate.symm, h.valid⟩

theorem leaves_changed (e : Engine) (names : List Text) :
    (changed names).leaves e =
      if e.attached then
        { e with cache := names.foldl (fun cache name => (cache.invalidate name).2) e.cache }
      else e := rfl

theorem leaves_deleteState (e : Engine) (name : Text) :
    (deleteState name).leaves e =
      if Entries.contains e.state name then
        (changed [name]).leaves { e with state := Entries.erase e.state name }
      else e := by
  unfold deleteState EngineM.leaves
  rw [EngineM.run_bind_get]
  split <;> rfl

section

variable (h : e.cache.All (CacheEntry.Valid (e.config.compileOptions none) R))

include h

/-- Before a call that writes nothing, the cache is already as it may be after it. -/
theorem within_retains (hwrites : call.writes e = []) : e.Within (call.Retains e R) e := by
  refine ⟨rfl, rfl, rfl, h.mono fun key entry hentry => hentry.kept fun tree v _ hv => ?_⟩
  refine .inl ⟨hv, fun _ name hname => ?_⟩
  rw [hwrites] at hname
  cases hname

/-- Compiling and evaluating change neither the configuration nor the state. -/
theorem leaves_of_spec {α : Type} {m : EngineM α} {Q : α → Engine → Prop}
    (hwrites : call.writes e = []) (hstate : call.state e = e.state)
    (hm : Spec (e.Within (call.Retains e R)) m Q (e.Within (call.Retains e R)))
    (hQ : ∀ a e', Q a e' → e.Within (call.Retains e R) e') : call.Leaves R e (m.leaves e) :=
  (hm.leaves hQ (within_retains h hwrites)).leaves hstate

theorem leaves_of_evaluate {α : Type} {f : Value → α} {tree : Expr}
    {locals : Option (List (Text × HostData))} (hwrites : call.writes e = [])
    (hstate : call.state e = e.state)
    (hcall : locals = none → ∀ tree' : Expr, tree'.key = tree.key → call.Evaluates tree') :
    call.Leaves R e (EngineM.leaves (do return f (← evaluate tree locals)) e) := by
  refine leaves_of_spec h hwrites hstate (Q := fun _ => e.Within (call.Retains e R)) ?_ fun _ _ he => he
  refine .bind (spec_evaluate_of e tree locals ?_) fun _ => .pure fun _ he => he.1
  exact fun hmemoize hlocals tree' v hkey hgives =>
    .inr ⟨hcall hlocals tree' hkey, hmemoize, hgives⟩

/-- Writing to variables drops the results that depend on them, while the cache is
    attached. -/
theorem leaves_of_state {names : List Text} {state : Entries Value}
    (hwrites : call.writes e = names) (hstate : call.state e = state) :
    call.Leaves R e ((changed names).leaves { e with state }) := by
  subst hwrites
  rw [leaves_changed]
  split
  next hattached =>
    refine ⟨rfl, .inl rfl, hstate.symm, h.foldl_invalidate _ ?_ ?_⟩
    · exact fun key entry hentry => hentry.dropped
    · intro key entry hentry hnames
      exact hentry.kept fun tree v hreads hv => .inl ⟨hv, fun _ => hreads ▸ hnames⟩
  next hdetached =>
    refine ⟨rfl, .inl rfl, hstate.symm, h.mono fun key entry hentry => ?_⟩
    exact hentry.kept fun tree v _ hv => .inl ⟨hv, fun hattached => absurd hattached hdetached⟩

/-- What a call does that does not configure the engine. -/
theorem leaves_of_step (hstep : call.step e = some e') (hcall : ∀ o, call ≠ .configure o) :
    call.Leaves R e e' := by
  cases call with
  | compile tree source =>
    cases hstep
    exact leaves_of_spec h rfl rfl (spec_compile e tree source) fun _ _ hspec => hspec.1
  | evaluate tree locals =>
    cases hstep
    refine leaves_of_spec h rfl rfl (spec_evaluate_of e tree locals ?_) fun _ _ hspec => hspec.1
    rintro hmemoize rfl tree' v hkey hgives
    exact .inr ⟨hkey.symm, hmemoize, hgives⟩
  | evaluateHost tree locals =>
    cases hstep
    refine leaves_of_evaluate h rfl rfl ?_
    rintro rfl tree' hkey
    exact hkey.symm
  | evaluateAs kind tree locals =>
    cases hstep
    refine leaves_of_evaluate h rfl rfl ?_
    rintro rfl tree' hkey
    exact hkey.symm
  | listing tree =>
    cases hstep
    refine leaves_of_spec h rfl rfl (Q := fun _ => e.Within _) ?_ fun _ _ he => he
    exact .bind (spec_compile e tree none) fun _ => .pure fun _ he => he.1
  | set name data =>
    cases hstep
    exact leaves_of_state h rfl rfl
  | setState name v =>
    cases hstep
    exact leaves_of_state h rfl rfl
  | deleteState name =>
    cases hstep
    rw [leaves_deleteState]
    split
    next hfound => exact leaves_of_state h (if_pos hfound) (if_pos hfound)
    next hmissing =>
      have hwithin : e.Within ((Call.deleteState name).Retains e R) e :=
        within_retains h (if_neg hmissing)
      exact hwithin.leaves (if_neg hmissing)
  | clearState =>
    cases hstep
    exact leaves_of_state h rfl rfl
  | invalidate name =>
    cases hstep
    have hwithin : e.Within ((Call.invalidate name).Retains e R) e := within_retains h rfl
    refine ⟨rfl, .inl rfl, rfl, hwithin.valid.invalidate ?_ ?_⟩
    · exact fun key entry hentry => hentry.dropped
    · exact fun key entry hentry _ => hentry
  | clearCache =>
    cases hstep
    exact ⟨rfl, .inl rfl, rfl, .of_empty rfl⟩
  | configure o => exact absurd rfl (hcall o)
  | dispose =>
    cases hstep
    exact ⟨rfl, .inr ⟨rfl, rfl⟩, rfl, .of_empty rfl⟩

end

/-- Every call keeps the cache right. -/
theorem Coherent.step (h : e.Coherent) (hstep : call.step e = some e') : call.Keeps e e' := by
  by_cases hconfigure : ∃ o, call = .configure o
  · obtain ⟨o, rfl⟩ := hconfigure
    simp only [Call.step] at hstep
    split at hstep
    next hrun =>
      cases hstep
      obtain ⟨hcoherent, hattached⟩ := h.configure hrun
      exact ⟨hcoherent, fun hcall => absurd rfl (hcall o), fun _ => hattached⟩
    next => cases hstep
  · have hleaves := leaves_of_step h.valid hstep fun o hcall => hconfigure ⟨o, hcall⟩
    have hoptions : e'.config.compileOptions none = e.config.compileOptions none := by
      rw [hleaves.config]
    have hbuiltins : e'.environment.builtins = e.environment.builtins := by
      simp only [environment, hleaves.config]
    refine ⟨⟨rfl, rfl, rfl, ?_⟩, fun _ => hleaves.config, hleaves.attached_eq⟩
    rw [hoptions]
    refine hleaves.valid.mono fun key entry hentry => hentry.kept fun tree v _ hv => ?_
    have hallowed : e.Allows tree v := by
      rcases hv with ⟨hold, -⟩ | ⟨-, -, hgives⟩
      · exact hold
      · exact fun _ => hgives.yields
    exact hallowed.kept hoptions hleaves.attached_of hbuiltins fun hattached =>
      hleaves.resolve_eq hv (hleaves.attached_of hattached)

/-- The cache is right after any number of calls. -/
theorem Coherent.after (h : e.Coherent) {calls : List Call} (hafter : e.after? calls = some e') :
    e'.Coherent ∧ ((∀ o, .configure o ∉ calls) → e'.config = e.config) ∧
      (.dispose ∉ calls → e'.attached = e.attached) := by
  induction calls generalizing e with
  | nil =>
    cases hafter
    exact ⟨h, fun _ => rfl, fun _ => rfl⟩
  | cons call calls ih =>
    obtain ⟨e₁, hstep, hafter⟩ := Option.bind_eq_some_iff.1 hafter
    have hkeeps := h.step hstep
    obtain ⟨hcoherent, hconfig, hattached⟩ := ih hkeeps.coherent hafter
    refine ⟨hcoherent, fun hcalls => ?_, fun hcalls => ?_⟩
    · have hcall : ∀ o, call ≠ .configure o :=
        fun o => Ne.symm (List.ne_of_not_mem_cons (hcalls o))
      have hrest : ∀ o, .configure o ∉ calls := fun o => List.not_mem_of_not_mem_cons (hcalls o)
      exact (hconfig hrest).trans (hkeeps.config hcall)
    · have hcall : call ≠ .dispose := Ne.symm (List.ne_of_not_mem_cons hcalls)
      exact (hattached (List.not_mem_of_not_mem_cons hcalls)).trans (hkeeps.attached hcall)

/-! ## Evaluation after calls -/

/-- After any calls that do not dispose of the engine, an evaluation that returns gives the
    value of a fresh program in a fresh context, if this run meets no fault and no error.
    The builtins see nothing of the variables; other builtins may have been there before. -/
theorem evaluate_eq_fresh {init : List (Text × HostData)} {o : EngineOptions} {production : Bool}
    {calls : List Call} {e₀ e e' : Engine} {tree : Expr} {v w : Value} {c : Context}
    (hcreate : create init o production = .ok e₀) (hafter : e₀.after? calls = some e)
    (hcalls : .dispose ∉ calls) (hblind : e.environment.builtins.Blind)
    (heval : (evaluate tree none).run.run e = (.ok v, e'))
    (hfresh : Context.run {} e.environment (tree.compile (e.config.compileOptions none)) =
      (.ok w, c))
    (hfault : c.fault = none) : v = w := by
  obtain ⟨hcoherent₀, hattached₀⟩ := coherent_create hcreate
  obtain ⟨hcoherent, -, hattached⟩ := hcoherent₀.after hafter
  have hspec := spec_evaluate e tree none e hcoherent
  rw [heval] at hspec
  exact hspec.2 rfl ⟨(hattached hcalls).trans hattached₀, hblind⟩ w c hfresh hfault

/-- `[n * 2, math_bump(n), n]` -/
def bumping : Expr :=
  .array [.binary .mul (.var "n") (.lit (.int 2)), .call "math_bump" [.var "n"], .var "n"]

/-- The result is memoized, dropped, memoized again, and used. -/
theorem evaluate_bumping_again :
    ∃ e₀ e e' v c,
      create [("n", .whole 2)]
        { memoize := some true, builtins := some (some Expr.probes.builtins) } false = .ok e₀ ∧
      e₀.after? [.evaluate bumping none, .set "n" (.whole 5), .evaluate bumping none,
        .set "m" (.whole 1)] = some e ∧
      (evaluate bumping none).run.run e = (.ok v, e') ∧
      Context.run {} e.environment (bumping.compile (e.config.compileOptions none)) =
        (.ok v, c) ∧
      v.equal (.array [.int 10, .int 1, .int 7]) = true := by
  obtain ⟨e₀, e, hcreate, hafter, hbuiltins, hreturns, hfresh⟩ : ∃ e₀ e,
      create [("n", .whole 2)]
        { memoize := some true, builtins := some (some Expr.probes.builtins) } false = .ok e₀ ∧
      e₀.after? [.evaluate bumping none, .set "n" (.whole 5), .evaluate bumping none,
        .set "m" (.whole 1)] = some e ∧
      e₀.config.builtins = some Expr.probes.builtins ∧
      ((evaluate bumping none).run.run e).1.isOk = true ∧
      (match Context.run {} e.environment (bumping.compile (e.config.compileOptions none)) with
        | (.ok v, c) => v.equal (.array [.int 10, .int 1, .int 7]) && c.fault.isNone
        | (.error _, _) => false) = true :=
    ⟨_, _, rfl, rfl, rfl, by decide +kernel, by decide +kernel⟩
  have hconfig : e.config = e₀.config :=
    ((coherent_create hcreate).1.after hafter).2.1 (by simp)
  have hblind : e.environment.builtins.Blind := by
    simp only [environment, hconfig, hbuiltins]
    exact Expr.blind_probes
  generalize heval : (evaluate bumping none).run.run e = r at hreturns
  generalize hrun : Context.run {} e.environment
    (bumping.compile (e.config.compileOptions none)) = s at hfresh
  obtain ⟨_ | v, e'⟩ := r
  · cases hreturns
  obtain ⟨_ | w, c⟩ := s
  · cases hfresh
  obtain ⟨hequal, hfault⟩ := Bool.and_eq_true_iff.1 hfresh
  have hsame : v = w := evaluate_eq_fresh hcreate hafter (by simp) hblind heval hrun
    (Option.isNone_iff_eq_none.1 hfault)
  exact ⟨e₀, e, e', v, c, hcreate, hafter, heval, hsame ▸ hrun, hsame ▸ hequal⟩

end Engine

end Reckon
