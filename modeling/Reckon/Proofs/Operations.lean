-- SUMMARY: Reasoning about operations of the engine: what they return with and what they throw with.
import Reckon.Engine

/-!
# Operations of the engine, step by step

An operation of the engine returns or throws, and in both cases leaves an
engine. A specification says what holds of that engine in either case. It is
composed along the steps of the operation, so that the engine is never followed
through more than one step at a time.
-/

namespace Reckon

namespace EngineM

variable {α β : Type}

/-- An operation goes on from where its first step returns. -/
theorem run_bind (m : EngineM α) (f : α → EngineM β) (e : Engine) :
    (m >>= f).run.run e =
      match m.run.run e with
      | (.ok a, e) => (f a).run.run e
      | (.error error, e) => (.error error, e) := by
  have hbind : (m >>= f).run.run e =
      (ExceptT.bindCont f (m.run.run e).1).run (m.run.run e).2 := rfl
  rw [hbind]
  generalize m.run.run e = r
  obtain ⟨result, e⟩ := r
  cases result <;> rfl

theorem run_bind_get (f : Engine → EngineM β) (e : Engine) :
    ((get : EngineM Engine) >>= f).run.run e = (f e).run.run e := rfl

theorem run_bind_set (f : PUnit → EngineM β) (e e' : Engine) :
    ((set e' : EngineM PUnit) >>= f).run.run e = (f ⟨⟩).run.run e' := rfl

/-- What the operation leaves behind, whether it returns or throws. -/
def leaves (m : EngineM α) (e : Engine) : Engine := (m.run.run e).2

/-- From an engine with `P` the operation returns with `Q` or throws with `R`. -/
def Spec (P : Engine → Prop) (m : EngineM α) (Q : α → Engine → Prop) (R : Engine → Prop) : Prop :=
  ∀ e, P e → match m.run.run e with
    | (.ok a, e) => Q a e
    | (.error _, e) => R e

namespace Spec

variable {P R : Engine → Prop} {m : EngineM α} {Q : α → Engine → Prop}

theorem leaves (h : Spec P m Q R) (hQ : ∀ a e, Q a e → R e) {e : Engine} (he : P e) :
    R (m.leaves e) := by
  have hrun := h e he
  unfold EngineM.leaves
  generalize m.run.run e = r at hrun ⊢
  obtain ⟨result, e'⟩ := r
  cases result with
  | error error => exact hrun
  | ok a => exact hQ a e' hrun

theorem bind {f : α → EngineM β} {S : β → Engine → Prop} (hm : Spec P m Q R)
    (hf : ∀ a, Spec (Q a) (f a) S R) : Spec P (m >>= f) S R := by
  intro e he
  have hfirst := hm e he
  rw [run_bind]
  generalize m.run.run e = r at hfirst ⊢
  obtain ⟨result, e⟩ := r
  cases result with
  | error error => exact hfirst
  | ok a => exact hf a e hfirst

/-- A step whose result does not matter leads to engines with `I`. -/
theorem seq (I : Engine → Prop) {f : α → EngineM β} {S : β → Engine → Prop}
    (hm : Spec P m (fun _ => I) R) (hf : ∀ a, Spec I (f a) S R) : Spec P (m >>= f) S R :=
  bind hm hf

theorem assume {p : Prop} (h : p → Spec P m Q R) : Spec (fun e => P e ∧ p) m Q R :=
  fun e he => h he.2 e he.1

theorem pure {a : α} (h : ∀ e, P e → Q a e) : Spec P (Pure.pure a) Q R := h

/-- An operation that begins by reading the engine may be looked at for each engine. -/
theorem bind_get {f : Engine → EngineM β} {S : β → Engine → Prop}
    (h : ∀ e, P e → Spec (· = e) (f e) S R) :
    Spec P ((MonadState.get : EngineM Engine) >>= f) S R :=
  fun e he => h e he e rfl

theorem set {e' : Engine} {Q : PUnit → Engine → Prop} (h : ∀ e, P e → Q ⟨⟩ e') :
    Spec P (MonadStateOf.set e' : EngineM PUnit) Q R := h

theorem throw {error : EngineError} (h : ∀ e, P e → R e) :
    Spec P (MonadExcept.throw error : EngineM α) Q R := h

theorem modifyCache {f : Cache Compiled → Cache Compiled} {Q : Unit → Engine → Prop}
    (h : ∀ e, P e → Q () { e with cache := f e.cache }) : Spec P (Engine.modifyCache f) Q R := h

theorem warn {text : Text} {Q : Unit → Engine → Prop} (h : ∀ e log, P e → Q () { e with log }) :
    Spec P (Engine.warn text) Q R := by
  intro e he
  show Q () (if e.production then e else { e with log := .warned text :: e.log })
  split
  · exact h e e.log he
  · exact h e _ he

/-- Reporting changes the log at most. -/
theorem report {r : Report} {Q : Unit → Engine → Prop} (h : ∀ e log, P e → Q () { e with log })
    (hthrow : ∀ e, P e → R e) : Spec P (Engine.report r) Q R := by
  refine bind_get fun e he => ?_
  cases e.log.deliver e.config.onError r with
  | ok log => exact set fun _ _ => h e log he
  | error message => exact throw fun _ hsame => hsame ▸ hthrow e he

end Spec

end EngineM

end Reckon
