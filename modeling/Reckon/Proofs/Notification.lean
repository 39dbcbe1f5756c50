-- SUMMARY: Who is told what when watched state changes, and that an engine is a listener of its state.
import Reckon.Proofs.Memoization
import Reckon.Watch

/-!
# Notification

Listeners are visited by the numbers of their subscriptions, and these ascend,
whatever is carried out and however listeners react. So a change that meets no
reaction is told to every listener once, in the order of subscription.

An engine is a listener of its state that never reacts. What it is told are the
variables that its calls write, until it is disposed of, and it drops the results
that depend on them. Other listeners make no difference to it.
-/

namespace Reckon

namespace Watched

variable {w : Watched} {id : Text}

/-! ## The order of listeners -/

/-- Listeners stand in the order of their numbers, which are used up, and none is there
    twice. -/
structure Ordered (w : Watched) : Prop where
  ascending : w.subscriptions.Pairwise (·.number < ·.number)
  used : ∀ s ∈ w.subscriptions, s.number < w.next
  distinct : (w.subscriptions.map (·.id)).Nodup

namespace Ordered

theorem subscribe (h : w.Ordered) (id : Text) (reaction : List Command) :
    (w.subscribe id reaction).Ordered := by
  simp only [Watched.subscribe]
  split
  · exact ⟨h.ascending, h.used, h.distinct⟩
  next hnew =>
    refine ⟨?_, ?_, ?_⟩
    · refine List.pairwise_append.2 ⟨h.ascending, List.pairwise_singleton _ _, ?_⟩
      intro s hs t ht
      cases List.mem_singleton.1 ht
      exact h.used s hs
    · intro s hs
      rcases List.mem_append.1 hs with hs | hs
      · exact Nat.lt_succ_of_lt (h.used s hs)
      · cases List.mem_singleton.1 hs
        exact Nat.lt_succ_self _
    · rw [List.map_append]
      refine List.nodup_append.2 ⟨h.distinct, List.pairwise_singleton _ _, ?_⟩
      intro id' hid' other hother heq
      cases List.mem_singleton.1 hother
      obtain ⟨s, hs, rfl⟩ := List.mem_map.1 hid'
      exact hnew (List.any_eq_true.2 ⟨s, hs, decide_eq_true heq⟩)

theorem unsubscribe (h : w.Ordered) (id : Text) : (w.unsubscribe id).Ordered where
  ascending := h.ascending.sublist List.filter_sublist
  used s hs := h.used s (List.mem_filter.1 hs).1
  distinct := h.distinct.sublist (List.filter_sublist.map _)

theorem apply (h : w.Ordered) (c : Command) : (w.apply c).1.Ordered := by
  cases c with
  | subscribe id reaction => exact h.subscribe id reaction
  | unsubscribe id => exact h.unsubscribe id
  | delete name =>
    simp only [Watched.apply]
    split
    · exact ⟨h.ascending, h.used, h.distinct⟩
    · exact h
  | _ => exact ⟨h.ascending, h.used, h.distinct⟩

/-- Listeners stay in order, whatever is to be done and however they react to it. -/
theorem settle (h : w.Ordered) (tasks : List Task) : (w.settle tasks).Ordered := by
  fun_induction Watched.settle w tasks with
  | case1 w => exact h
  | case2 w c rest ih => exact ih (h.apply c)
  | case3 w name start rest hs ih => exact ih h
  | case4 w name start rest s hs ih => exact ih ⟨h.ascending, h.used, h.distinct⟩

theorem perform (h : w.Ordered) (c : Command) : (w.perform c).2.2.Ordered :=
  settle (w := { w with notified := [] }) ⟨h.ascending, h.used, h.distinct⟩ [.command c]

end Ordered

/-! ## Notifications without reactions -/

/-- No listener has a reaction left. -/
def Idle (w : Watched) : Prop := ∀ e ∈ w.reactions, e.2 = []

theorem takeReaction_of_idle {reactions : Entries (List Command)}
    (h : ∀ e ∈ reactions, e.2 = []) (id : Text) : takeReaction reactions id = ([], reactions) := by
  induction reactions with
  | nil => rfl
  | cons e rest ih =>
    obtain ⟨k, cs⟩ := e
    obtain ⟨hfirst, hrest⟩ := List.forall_mem_cons.1 h
    cases hfirst
    unfold takeReaction
    split
    · rfl
    · rw [ih hrest]

/-- The state after listeners were told of names, in this order. -/
def announce (w : Watched) (tidings : List (Text × Text)) : Watched :=
  { w with notified := tidings.reverse ++ w.notified }

theorem announce_append (w : Watched) (tidings tidings' : List (Text × Text)) :
    w.announce (tidings ++ tidings') = (w.announce tidings).announce tidings' := by
  simp only [announce, List.reverse_append, List.append_assoc]

/-- Behind the first of the listeners from a number on come the others. -/
theorem filter_behind {listeners ahead : List Subscription} {s : Subscription} {start : Nat}
    (hascending : listeners.Pairwise (·.number < ·.number))
    (hahead : listeners.filter (fun t => decide (start ≤ t.number)) = s :: ahead) :
    listeners.filter (fun t => decide (s.number + 1 ≤ t.number)) = ahead := by
  have hs : s ∈ listeners.filter fun t => decide (start ≤ t.number) :=
    hahead ▸ List.mem_cons_self
  have hstart : start ≤ s.number := of_decide_eq_true (List.mem_filter.1 hs).2
  have hfirst : ∀ t ∈ ahead, s.number < t.number := by
    have hsorted := hascending.sublist (List.filter_sublist (p := fun t => start ≤ t.number))
    rw [hahead] at hsorted
    exact (List.pairwise_cons.1 hsorted).1
  have hnested : listeners.filter (fun t => decide (s.number + 1 ≤ t.number)) =
      (s :: ahead).filter fun t => decide (s.number + 1 ≤ t.number) := by
    rw [← hahead, List.filter_filter]
    congr 1
    funext t
    rw [← Bool.decide_and]
    exact decide_eq_decide.2 ⟨fun h => ⟨h, by omega⟩, And.left⟩
  rw [hnested, List.filter_cons_of_neg (by simp), List.filter_eq_self]
  exact fun t ht => decide_eq_true (hfirst t ht)

/-- A visit goes to the listeners from a number on, in order. -/
theorem settle_visit (hascending : w.subscriptions.Pairwise (·.number < ·.number))
    (hidle : w.Idle) (name : Text) (start : Nat) (rest : List Task) :
    w.settle (.visit name start :: rest) =
      (w.announce ((w.subscriptions.filter fun s => start ≤ s.number).map
        fun s => (s.id, name))).settle rest := by
  -- The listener that is visited is the first of those ahead, and leaves the others ahead.
  generalize hahead : w.subscriptions.filter (fun s => decide (start ≤ s.number)) = ahead
  induction ahead generalizing w start with
  | nil =>
    have hnone : w.listener? start = none := by
      rw [listener?, ← List.head?_filter, hahead]
      rfl
    rw [settle, hnone]
    rfl
  | cons s ahead ih =>
    have hsome : w.listener? start = some s := by
      rw [listener?, ← List.head?_filter, hahead]
      rfl
    have htell : w.tell s name = w.announce [(s.id, name)] := by
      rw [tell, takeReaction_of_idle hidle]
      rfl
    rw [settle, hsome]
    simp only [takeReaction_of_idle hidle, List.map_nil, List.nil_append, List.map_cons]
    rw [htell, ih (w := w.announce [(s.id, name)]) hascending hidle (s.number + 1)
      (filter_behind hascending hahead), ← announce_append]
    rfl

/-- What there is to tell when names have changed: each name to every listener. -/
def tidings (w : Watched) (names : List Text) : List (Text × Text) :=
  names.flatMap fun name => w.subscriptions.map fun s => (s.id, name)

theorem settle_visits (hascending : w.subscriptions.Pairwise (·.number < ·.number))
    (hidle : w.Idle) (names : List Text) :
    w.settle (names.map (.visit · 0)) = w.announce (w.tidings names) := by
  induction names generalizing w with
  | nil =>
    rw [List.map_nil, settle]
    rfl
  | cons name names ih =>
    have hall : (w.subscriptions.filter fun s => 0 ≤ s.number) = w.subscriptions :=
      List.filter_eq_self.2 fun s _ => decide_eq_true (Nat.zero_le _)
    rw [List.map_cons, settle_visit hascending hidle, hall,
      ih (w := w.announce _) hascending hidle, ← announce_append]
    rfl

/-- What was told before makes no difference to a command. -/
theorem apply_forget (w : Watched) (c : Command) :
    { w with notified := [] }.apply c =
      ({ (w.apply c).1 with notified := [] }, (w.apply c).2) := by
  cases c with
  | delete name =>
    simp only [apply]
    split <;> rfl
  | subscribe id reaction =>
    have hsame : { w with notified := [] }.isSubscribed id = w.isSubscribed id := rfl
    simp only [apply, subscribe, hsame]
    cases w.isSubscribed id <;> rfl
  | _ => rfl

/-- A command that meets no reaction is carried out at once, and every listener is told of every
    name that it changes: name after name, each in the order of subscription. -/
theorem perform_of_idle (hordered : w.Ordered) {c : Command} (hidle : (w.apply c).1.Idle) :
    w.perform c = (w.answer c, (w.apply c).1.tidings (w.apply c).2,
      { (w.apply c).1 with notified := ((w.apply c).1.tidings (w.apply c).2).reverse }) := by
  have hsettle : { w with notified := [] }.settle [.command c] =
      { (w.apply c).1 with notified := [] }.announce ((w.apply c).1.tidings (w.apply c).2) := by
    rw [settle, apply_forget, List.append_nil]
    exact settle_visits (w := { (w.apply c).1 with notified := [] }) (hordered.apply c).ascending
      hidle _
  simp only [perform, hsettle, announce, List.append_nil, List.reverse_reverse]

/-! ## What one listener is told -/

/-- The names among the tidings that are for one listener. -/
def toldTo (id : Text) (tidings : List (Text × Text)) : List Text :=
  (tidings.filter fun n => n.1 = id).map (·.2)

theorem toldTo_append (id : Text) (tidings tidings' : List (Text × Text)) :
    toldTo id (tidings ++ tidings') = toldTo id tidings ++ toldTo id tidings' := by
  simp only [toldTo, List.filter_append, List.map_append]

/-- Of one name, a listener that is there once is told once. -/
theorem toldTo_listeners {listeners : List Subscription}
    (hdistinct : (listeners.map (·.id)).Nodup) (id name : Text) :
    toldTo id (listeners.map fun s => (s.id, name)) =
      if listeners.any fun s => s.id = id then [name] else [] := by
  induction listeners with
  | nil => rfl
  | cons s listeners ih =>
    obtain ⟨hfirst, hrest⟩ := List.nodup_cons.1 hdistinct
    have hsplit : toldTo id ((s :: listeners).map fun s => (s.id, name)) =
        toldTo id [(s.id, name)] ++ toldTo id (listeners.map fun s => (s.id, name)) :=
      toldTo_append id [(s.id, name)] _
    rw [hsplit, ih hrest, List.any_cons]
    by_cases hid : s.id = id
    · have hothers : (listeners.any fun s => s.id = id) = false := by
        refine List.any_eq_false.2 fun t ht heq => hfirst ?_
        exact List.mem_map.2 ⟨t, ht, (of_decide_eq_true heq).trans hid.symm⟩
      simp [toldTo, hid, hothers]
    · simp [toldTo, hid]

theorem toldTo_tidings (hordered : w.Ordered) (id : Text) (names : List Text) :
    toldTo id (w.tidings names) = if w.isSubscribed id then names else [] := by
  induction names with
  | nil => split <;> rfl
  | cons name names ih =>
    have hsplit : w.tidings (name :: names) =
        (w.subscriptions.map fun s => (s.id, name)) ++ w.tidings names := rfl
    rw [hsplit, toldTo_append, ih, toldTo_listeners hordered.distinct, isSubscribed]
    split <;> rfl

end Watched

/-! ## An engine listens to its state -/

/-- What a call asks of the state, if the engine listens to it as `id`. -/
def Call.command? (id : Text) : Call → Option Command
  | .set name data => some (.set name (.ofHost data))
  | .setState name v => some (.set name v)
  | .deleteState name => some (.delete name)
  | .clearState => some .clear
  | .dispose => some (.unsubscribe id)
  | _ => none

/-- What the listener `id` is told in a call of its engine, and the state behind the call. -/
def Watched.obey (w : Watched) (id : Text) (call : Call) : List Text × Watched :=
  match call.command? id with
  | none => ([], w)
  | some c => (toldTo id (w.perform c).2.1, (w.perform c).2.2)

/-- The state behind calls, one after the other. -/
def Watched.obeyAll (w : Watched) (id : Text) (calls : List Call) : Watched :=
  calls.foldl (fun w call => (w.obey id call).2) w

/-- A call that asks nothing of the state writes nothing and leaves the listener where it is. -/
theorem Call.of_command?_eq_none {id : Text} {call : Call} (h : call.command? id = none)
    (e : Engine) : call.writes e = [] ∧ call.state e = e.state ∧ call ≠ .dispose := by
  cases call with
  | set name data => cases h
  | setState name v => cases h
  | deleteState name => cases h
  | clearState => cases h
  | dispose => cases h
  | _ => exact ⟨rfl, rfl, nofun⟩

namespace Engine

/-- The engine has this state and listens to it as `id`, as long as it is attached. There may be
    other listeners, but none that reacts. -/
structure Watches (e : Engine) (id : Text) (w : Watched) : Prop where
  values : w.values = e.state
  listens : w.isSubscribed id = e.attached
  ordered : w.Ordered
  idle : w.Idle

variable {e e' : Engine} {id : Text} {w : Watched} {call : Call} {c : Command}

theorem state_of_step (h : e.Coherent) (hstep : call.step e = some e') :
    e'.state = call.state e := by
  by_cases hconfigure : ∃ o, call = .configure o
  · obtain ⟨o, rfl⟩ := hconfigure
    simp only [Call.step] at hstep
    split at hstep
    next hrun =>
      cases hstep
      obtain ⟨size?, stack?, rfl⟩ := eq_of_configure hrun
      cases size? <;> rfl
    next => cases hstep
  · exact (leaves_of_step h.valid hstep fun o hcall => hconfigure ⟨o, hcall⟩).state

/-- What a call asks of the state, it does to it at once. -/
theorem Watches.apply (h : e.Watches id w) (hcommand : call.command? id = some c) :
    (w.apply c).1.values = call.state e ∧ (w.apply c).2 = call.writes e ∧
      (w.apply c).1.reactions = w.reactions ∧
      (call ≠ .dispose → (w.apply c).1.isSubscribed id = e.attached) ∧
      (call = .dispose → (w.apply c).1.isSubscribed id = false) := by
  cases call with
  | dispose =>
    cases hcommand
    refine ⟨h.values, rfl, rfl, fun hcall => absurd rfl hcall, fun _ => ?_⟩
    refine List.any_eq_false.2 fun s hs heq => ?_
    exact of_decide_eq_true (List.mem_filter.1 hs).2 (of_decide_eq_true heq)
  | set name data =>
    cases hcommand
    rw [Watched.apply, h.values]
    exact ⟨rfl, rfl, rfl, fun _ => h.listens, Call.noConfusion⟩
  | setState name v =>
    cases hcommand
    rw [Watched.apply, h.values]
    exact ⟨rfl, rfl, rfl, fun _ => h.listens, Call.noConfusion⟩
  | deleteState name =>
    cases hcommand
    rw [Watched.apply, h.values, Call.state, Call.writes]
    split
    · exact ⟨rfl, rfl, rfl, fun _ => h.listens, Call.noConfusion⟩
    · exact ⟨h.values, rfl, rfl, fun _ => h.listens, Call.noConfusion⟩
  | clearState =>
    cases hcommand
    rw [Watched.apply, h.values]
    exact ⟨rfl, rfl, rfl, fun _ => h.listens, Call.noConfusion⟩
  | _ => cases hcommand

theorem cache_changed (e : Engine) (names : List Text) :
    ((changed names).leaves e).cache = (if e.attached then names else []).foldl
      (fun cache name => (cache.invalidate name).2) e.cache := by
  rw [leaves_changed]
  split <;> rfl

/-- A call that asks the state for a change drops the results that depend on what it writes,
    while the engine is attached. -/
theorem cache_of_step (hstep : call.step e = some e') (hcommand : call.command? id = some c)
    (hcall : call ≠ .dispose) :
    e'.cache = (if e.attached then call.writes e else []).foldl
      (fun cache name => (cache.invalidate name).2) e.cache := by
  cases call with
  | set name data =>
    cases hstep
    exact cache_changed { e with state := _ } [name]
  | setState name v =>
    cases hstep
    exact cache_changed { e with state := _ } [name]
  | deleteState name =>
    cases hstep
    rw [leaves_deleteState, Call.writes]
    split
    · exact cache_changed { e with state := _ } [name]
    · rw [ite_self]
      rfl
  | clearState =>
    cases hstep
    exact cache_changed { e with state := [] } _
  | dispose => exact absurd rfl hcall
  | _ => cases hcommand

/-- In each call the engine is told of the variables that the call writes, while it is attached,
    and drops the results that depend on them. -/
theorem Watches.step (h : e.Watches id w) (hcoherent : e.Coherent)
    (hstep : call.step e = some e') :
    e'.Watches id (w.obey id call).2 ∧
      (w.obey id call).1 = (if e.attached then call.writes e else []) ∧
      (call.command? id ≠ none → call ≠ .dispose →
        e'.cache = (w.obey id call).1.foldl (fun cache name => (cache.invalidate name).2)
          e.cache) := by
  have hstate := state_of_step hcoherent hstep
  have hattached : call ≠ .dispose → e'.attached = e.attached := (hcoherent.step hstep).attached
  cases hcommand : call.command? id with
  | none =>
    obtain ⟨hwrites, hsame, hcall⟩ := call.of_command?_eq_none hcommand e
    have hobey : w.obey id call = ([], w) := by rw [Watched.obey, hcommand]
    rw [hobey, hwrites, ite_self]
    refine ⟨⟨?_, ?_, h.ordered, h.idle⟩, rfl, fun hsome => absurd rfl hsome⟩
    · rw [h.values, hstate, hsame]
    · rw [h.listens, hattached hcall]
  | some c =>
    obtain ⟨hvalues, hnames, hreactions, hlistens, hleft⟩ := h.apply hcommand
    have hidle : (w.apply c).1.Idle := by
      rw [Watched.Idle, hreactions]
      exact h.idle
    have hordered := h.ordered.apply c
    have hperform := Watched.perform_of_idle h.ordered hidle
    have hobey : w.obey id call = (Watched.toldTo id (w.perform c).2.1, (w.perform c).2.2) := by
      rw [Watched.obey, hcommand]
    have htold : (w.obey id call).1 = if e.attached then call.writes e else [] := by
      rw [hobey, hperform]
      dsimp only
      rw [Watched.toldTo_tidings hordered, hnames]
      by_cases hcall : call = .dispose
      · have hnothing : call.writes e = [] := by rw [hcall]; rfl
        rw [hnothing, ite_self, ite_self]
      · rw [hlistens hcall]
    have hlistening : (w.apply c).1.isSubscribed id = e'.attached := by
      by_cases hcall : call = .dispose
      · rw [hleft hcall]
        subst hcall
        cases hstep
        rfl
      · rw [hlistens hcall, hattached hcall]
    refine ⟨?_, htold, ?_⟩
    · have hsettled := h.ordered.perform c
      rw [hobey, hperform]
      rw [hperform] at hsettled
      exact ⟨hvalues.trans hstate.symm, hlistening, hsettled, hidle⟩
    · intro _ hcall
      rw [htold]
      exact cache_of_step hstep hcommand hcall

theorem Watches.after (h : e.Watches id w) (hcoherent : e.Coherent) {calls : List Call}
    (hafter : e.after? calls = some e') : e'.Watches id (w.obeyAll id calls) := by
  induction calls generalizing e w with
  | nil =>
    cases hafter
    exact h
  | cons call calls ih =>
    obtain ⟨e₁, hstep, hafter⟩ := Option.bind_eq_some_iff.1 hafter
    exact ih (h.step hcoherent hstep).1 (hcoherent.step hstep).coherent hafter

/-- An engine subscribes when it is created. -/
theorem watches_create {init : List (Text × HostData)} {o : EngineOptions} {production : Bool}
    (hcreate : create init o production = .ok e) (id : Text) :
    e.Watches id (Watched.subscribe { values := e.state } id []) := by
  have hempty : Watched.Ordered { values := e.state } := ⟨.nil, nofun, .nil⟩
  refine ⟨rfl, ?_, hempty.subscribe id [], ?_⟩
  · rw [(coherent_create hcreate).2]
    simp [Watched.subscribe, Watched.isSubscribed]
  · intro reaction hreaction
    cases List.mem_singleton.1 hreaction
    rfl

/-- Whatever calls an engine has had, its state is the watched state that it subscribed to. In a
    further call it is told of exactly the variables that the call writes, unless it has been
    disposed of, and it drops the results that depend on them. -/
theorem told_after {init : List (Text × HostData)} {o : EngineOptions} {production : Bool}
    {e₀ : Engine} {calls : List Call} (hcreate : create init o production = .ok e₀)
    (hafter : e₀.after? calls = some e) (hstep : call.step e = some e') (id : Text)
    (hw : w = (Watched.subscribe { values := e₀.state } id []).obeyAll id calls) :
    w.values = e.state ∧
      (w.obey id call).1 = (if e.attached then call.writes e else []) ∧
      (call.command? id ≠ none → call ≠ .dispose →
        e'.cache = (w.obey id call).1.foldl (fun cache name => (cache.invalidate name).2)
          e.cache) := by
  have hcoherent := (coherent_create hcreate).1
  have hwatches : e.Watches id w := hw ▸ (watches_create hcreate id).after hcoherent hafter
  have hnext := hwatches.step (hcoherent.after hafter).1 hstep
  exact ⟨hwatches.values, hnext.2⟩

end Engine

end Reckon
