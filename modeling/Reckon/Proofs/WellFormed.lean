-- SUMMARY: Runs keep integers in the range of 64 bits and the keys of objects distinct.
import Reckon.Proofs.Execution
import Reckon.Proofs.Folding
import Reckon.Proofs.Unfolding
import Reckon.Value.Owned

/-!
# Well-formed values

Integers lie in the range of 64 bits and the keys of an object are distinct, at
any depth. Equality and look-up rely on it. Every operation on values keeps it,
and so does every instruction of the machine, whatever the program: the constants
of a program may be out of range, and it may build objects from any keys.
-/

namespace Reckon

/-! ## Operations on values -/

namespace Value

theorem wellFormedItems_iff {items : List Value} :
    WellFormedItems items ↔ ∀ v ∈ items, v.WellFormed := by
  induction items with
  | nil => simp [WellFormedItems]
  | cons v items ih => rw [WellFormedItems, ih, List.forall_mem_cons]

theorem wellFormedEntries_iff {entries : List (Text × Value)} :
    WellFormedEntries entries ↔ ∀ e ∈ entries, e.2.WellFormed := by
  induction entries with
  | nil => simp [WellFormedEntries]
  | cons e entries ih => rw [WellFormedEntries, ih, List.forall_mem_cons]

/-- Wrapping brings every integer into the range. -/
theorem wellFormed_ofInt (n : Int) : (ofInt n).WellFormed := by
  have hlow : -9223372036854775808 ≤ wrap64 n := Int.le_bmod (by decide)
  have hhigh : wrap64 n < 9223372036854775808 := Int.bmod_lt (by decide)
  rw [ofInt, WellFormed]
  exact ⟨hlow, hhigh⟩

theorem wellFormed_literal (l : Literal) : l.value.WellFormed := by
  cases l with
  | int n => exact wellFormed_ofInt n
  | _ => simp [Literal.value, WellFormed]

theorem IsScalar.wellFormed {v : Value} (h : v.IsScalar) : v.WellFormed := by
  obtain ⟨l, rfl⟩ := h
  exact wellFormed_literal l

theorem wellFormed_null : WellFormed .null := wellFormed_literal .null

theorem wellFormed_getD {v? : Option Value} (h : ∀ v, v? = some v → v.WellFormed) :
    (v?.getD .null).WellFormed := by
  cases v? with
  | none => exact wellFormed_null
  | some v => exact h v rfl

theorem WellFormedEntries.get? {entries : List (Text × Value)} (h : WellFormedEntries entries)
    {name : Text} {v : Value} (hget : Entries.get? entries name = some v) : v.WellFormed :=
  wellFormedEntries_iff.1 h _ (Entries.mem_of_get? hget)

theorem WellFormedEntries.insert {entries : List (Text × Value)} (h : WellFormedEntries entries)
    (name : Text) {v : Value} (hv : v.WellFormed) :
    WellFormedEntries (Entries.insert entries name v) := by
  refine wellFormedEntries_iff.2 fun e he => ?_
  rcases Entries.mem_of_mem_insert he with hold | rfl
  · exact wellFormedEntries_iff.1 h e hold
  · exact hv

theorem wellFormed_property {target : Value} (h : target.WellFormed) (name : Text) :
    (target.property name).WellFormed := by
  have hlength : ∀ n : Nat, (if name = "length" then ofNat n else .null).WellFormed := by
    intro n
    split
    · exact wellFormed_ofInt n
    · exact wellFormed_null
  cases target with
  | object entries =>
    rw [WellFormed] at h
    exact wellFormed_getD fun v hv => h.2.get? hv
  | array items => exact hlength _
  | string s => exact hlength _
  | _ => exact wellFormed_null

theorem wellFormed_computed {target : Value} (h : target.WellFormed) (key : Value) :
    (target.computed key).WellFormed := by
  unfold computed
  split
  next items n =>
    rw [WellFormed] at h
    refine wellFormed_getD fun v hv => wellFormedItems_iff.1 h v ?_
    unfold itemAt at hv
    split at hv
    · exact List.mem_of_getElem? hv
    · cases hv
  next s n =>
    cases itemAt s.units n with
    | none => exact wellFormed_null
    | some u => exact wellFormed_literal (.string _)
  next entries k =>
    rw [WellFormed] at h
    exact wellFormed_getD fun v hv => h.2.get? hv
  next => exact wellFormed_null

end Value

theorem ArrayMethod.wellFormed_call {items : List Value} (h : Value.WellFormedItems items)
    (args : List Value) (method : ArrayMethod) : (method.call items args).WellFormed := by
  cases method with
  | push => exact Value.wellFormed_ofInt _
  | pop =>
    exact Value.wellFormed_getD fun v hv =>
      Value.wellFormedItems_iff.1 h v (List.mem_of_getLast? hv)
  | length => exact Value.wellFormed_ofInt _
  | reverse =>
    rw [ArrayMethod.call, Value.WellFormed, Value.wellFormedItems_iff]
    intro v hv
    exact Value.wellFormedItems_iff.1 h v (List.mem_reverse.1 hv)

theorem StringMethod.wellFormed_call (s : Text) (args : List Value) (method : StringMethod) :
    (method.call s args).WellFormed := by
  cases method with
  | length => exact Value.wellFormed_ofInt _
  | toUpperCase => exact Value.wellFormed_literal (.string _)
  | toLowerCase => exact Value.wellFormed_literal (.string _)
  | trim => exact Value.wellFormed_literal (.string _)
  | substring =>
    rw [StringMethod.call]
    split
    · exact Value.wellFormed_null
    · exact Value.wellFormed_literal (.string _)

namespace Value

/-- The receiver alone matters: no method gives back an argument. -/
theorem wellFormed_callMethod {receiver : Value} (h : receiver.WellFormed) (name : Text)
    (args : List Value) : (receiver.callMethod name args).WellFormed := by
  cases receiver with
  | array items =>
    rw [WellFormed] at h
    rw [callMethod]
    cases ArrayMethod.ofName? name with
    | none => exact wellFormed_null
    | some method => exact ArrayMethod.wellFormed_call h args method
  | string s =>
    rw [callMethod]
    cases StringMethod.ofName? name with
    | none => exact wellFormed_null
    | some method => exact StringMethod.wellFormed_call s args method
  | _ => exact wellFormed_null

mutual

/-- Host data of any kind gives well-formed values. -/
theorem wellFormed_ofHost : ∀ d : HostData, (ofHost d).WellFormed
  | .foreign | .null => wellFormed_null
  | .bool b => wellFormed_literal (.bool b)
  | .number x => by
    rw [ofHost]
    cases x.toSafeInt? with
    | none => exact wellFormed_literal (.float x)
    | some n => exact wellFormed_ofInt n
  | .whole n => wellFormed_ofInt n
  | .text s => wellFormed_literal (.string s)
  | .array items => by
    rw [ofHost, WellFormed]
    exact wellFormedItems_ofHostItems items
  | .object properties => by
    rw [ofHost, WellFormed]
    refine ⟨Entries.nodup_keys_ofHost _, wellFormedEntries_iff.2 fun e he => ?_⟩
    have hproperties := wellFormedEntries_ofHostProperties properties
    exact wellFormedEntries_iff.1 hproperties e (Entries.mem_of_mem_ofHost he)

theorem wellFormedItems_ofHostItems : ∀ ds : List HostData, WellFormedItems (ofHostItems ds)
  | [] => by rw [ofHostItems, WellFormedItems]; trivial
  | d :: ds => by
    rw [ofHostItems, WellFormedItems]
    exact ⟨wellFormed_ofHost d, wellFormedItems_ofHostItems ds⟩

theorem wellFormedEntries_ofHostProperties :
    ∀ ds : List (Text × HostData), WellFormedEntries (ofHostProperties ds)
  | [] => by rw [ofHostProperties, WellFormedEntries]; trivial
  | (k, d) :: ds => by
    rw [ofHostProperties, WellFormedEntries]
    exact ⟨wellFormed_ofHost d, wellFormedEntries_ofHostProperties ds⟩

end

theorem wellFormed_copy {v : Value} (hv : v.WellFormed) : v.copy.WellFormed := by
  rw [copy_eq_self]
  exact hv

end Value

/-- An object is built by writing, so a key that comes twice stands in it once. -/
theorem Machine.wellFormed_objectOf (vs : List Value) (entries : Entries Value)
    (hvs : Value.WellFormedItems vs) (hkeys : (Entries.keys entries).Nodup)
    (hentries : Value.WellFormedEntries entries) :
    (Value.object (objectOf vs entries)).WellFormed := by
  fun_induction objectOf vs entries with
  | case1 k v rest entries ih =>
    simp only [Value.WellFormedItems] at hvs
    exact ih hvs.2.2 (Entries.nodup_keys_insert hkeys k v) (hentries.insert k hvs.2.1)
  | case2 key v rest entries hkey ih =>
    simp only [Value.WellFormedItems] at hvs
    exact ih hvs.2.2 hkeys hentries
  | case3 vs entries hstring hpair =>
    rw [Value.WellFormed]
    exact ⟨hkeys, hentries⟩

/-! ## Contexts -/

def Reply.WellFormed (r : Reply) : Prop :=
  Value.WellFormedEntries r.binds ∧ ∀ v, r.result = .ok v → v.WellFormed

/-- The variables and the builtins of an environment give well-formed values. A builtin
    may rely on well-formed arguments and variables. -/
structure Environment.WellFormed (env : Environment) : Prop where
  state : Value.WellFormedEntries env.state
  builtins : ∀ name b, Entries.get? env.builtins name = some b →
    ∀ scope args, (∀ name, (scope.resolve name).WellFormed) → Value.WellFormedItems args →
      (b.fn scope args).WellFormed

/-- The calls among the events have well-formed arguments. -/
def Log.WellFormed (log : Log) : Prop :=
  ∀ name args depth, .called name args depth ∈ log → Value.WellFormedItems args

/-- The values of a context are well-formed, and so is what it logged on top of an earlier
    log. -/
structure Context.WellFormed (earlier : Log) (c : Context) : Prop where
  locals : Value.WellFormedEntries c.locals
  stack : Value.WellFormedItems c.stack.items
  log : ∃ events : Log, c.log = events ++ earlier ∧ events.WellFormed

namespace Context

variable {env : Environment} {earlier : Log} {c : Context}

theorem WellFormed.resolve (hc : c.WellFormed earlier) (henv : env.WellFormed) (name : Text) :
    (c.resolve env name).WellFormed := by
  refine Value.wellFormed_getD fun v hv => ?_
  rcases Option.or_eq_some_iff.1 hv with hlocal | ⟨-, hstate⟩
  · exact hc.locals.get? hlocal
  · exact henv.state.get? hstate

theorem WellFormed.fail (hc : c.WellFormed earlier) (f : Fault) :
    (c.fail f).WellFormed earlier := by
  unfold Context.fail
  split
  · exact hc
  · exact ⟨hc.locals, hc.stack, hc.log⟩

theorem WellFormed.push (hc : c.WellFormed earlier) {v : Value} (hv : v.WellFormed) :
    (c.push env v).WellFormed earlier := by
  unfold Context.push
  split
  · exact hc.fail _
  · refine ⟨hc.locals, ?_, hc.log⟩
    rw [Stack.items_push, Value.WellFormedItems]
    exact ⟨hv, hc.stack⟩

theorem WellFormed.pop (hc : c.WellFormed earlier) :
    c.pop.1.WellFormed ∧ c.pop.2.WellFormed earlier := by
  obtain ⟨locals, ⟨items, size, hsize⟩, fault, used, log⟩ := c
  cases items with
  | nil => exact ⟨Value.wellFormed_null, hc.fail _⟩
  | cons v items =>
    obtain ⟨hv, hitems⟩ := hc.stack
    exact ⟨hv, hc.locals, hitems, hc.log⟩

theorem WellFormed.popOnto (hc : c.WellFormed earlier) {vs : List Value}
    (hvs : Value.WellFormedItems vs) (n : Nat) :
    Value.WellFormedItems (popOnto vs n c).1 ∧ (Context.popOnto vs n c).2.WellFormed earlier := by
  induction n generalizing vs c with
  | zero => exact ⟨hvs, hc⟩
  | succ n ih => exact ih hc.pop.2 ⟨hc.pop.1, hvs⟩

theorem WellFormed.popMany (hc : c.WellFormed earlier) (n : Nat) :
    Value.WellFormedItems (c.popMany n).1 ∧ (c.popMany n).2.WellFormed earlier := by
  have hnil : Value.WellFormedItems [] := trivial
  exact hc.popOnto hnil n

theorem WellFormed.bindAll (hc : c.WellFormed earlier) {binds : List (Text × Value)}
    (hbinds : Value.WellFormedEntries binds) : (c.bindAll binds).WellFormed earlier := by
  induction binds generalizing c with
  | nil => exact hc
  | cons b binds ih =>
    obtain ⟨hb, hrest⟩ := hbinds
    exact ih ⟨hc.locals.insert b.1 hb, hc.stack, hc.log⟩ hrest

/-- The log may grow by any event but a call with other arguments. -/
theorem WellFormed.logged (hc : c.WellFormed earlier) (event : Event)
    (hevent : ∀ name args depth, event = .called name args depth → Value.WellFormedItems args) :
    { c with log := event :: c.log }.WellFormed earlier := by
  obtain ⟨events, hlog, hevents⟩ := hc.log
  refine ⟨hc.locals, hc.stack, event :: events, congrArg (event :: ·) hlog, ?_⟩
  intro name args depth hmem
  rcases List.mem_cons.1 hmem with hfirst | hrest
  · exact hevent name args depth hfirst.symm
  · exact hevents name args depth hrest

end Context

/-! ## Steps -/

theorem Machine.wellFormed_callBuiltin {env : Environment} {earlier : Log} {c : Context}
    (henv : env.WellFormed) (hc : c.WellFormed earlier) (name : Text) {args : List Value}
    (hargs : Value.WellFormedItems args) :
    (callBuiltin env c name args).context.WellFormed earlier := by
  have hcall : ∀ scope reply, env.builtins.call name scope args = .replied reply →
      (∀ name, (scope.resolve name).WellFormed) → reply.WellFormed := by
    intro scope reply hreply hscope
    unfold BuiltinTable.call at hreply
    split at hreply
    next => cases hreply
    next b hget =>
      split at hreply
      · cases hreply
        exact henv.builtins name b hget scope args hscope hargs
      · cases hreply
  have hlogged :
      { c with log := .called name args c.stack.size :: c.log }.WellFormed earlier := by
    refine hc.logged _ fun _ _ _ heq => ?_
    cases heq
    exact hargs
  have hreplied : ∀ {reply}, env.builtins.call name ⟨c.resolve env, c.stack.size⟩ args =
      .replied reply → (replied c name args reply).WellFormed earlier :=
    fun hreply => hlogged.bindAll (hcall _ _ hreply (hc.resolve henv)).1
  have hcalls := calls_callBuiltin env c name args
  generalize callBuiltin env c name args = flow at hcalls ⊢
  cases hcalls with
  | unreached => exact hc.push Value.wellFormed_null
  | returned hreply hresult =>
    exact (hreplied hreply).push ((hcall _ _ hreply (hc.resolve henv)).2 _ hresult)
  | reported hreply hresult hdeliver =>
    obtain ⟨event, hevent, rfl⟩ := Log.deliver_ok hdeliver
    have hreported := (hreplied hreply).logged event fun _ _ _ heq => by
      rw [heq] at hevent
      cases hevent
    exact hreported.push Value.wellFormed_null
  | raised hreply hresult hdeliver => exact hreplied hreply

/-- What the action computes from well-formed values is well-formed. -/
def Action.WellFormed : Action → Prop
  | .compute _ f => ∀ vs, Value.WellFormedItems vs → (f vs).WellFormed
  | _ => True

namespace Action

theorem wellFormed_constant {v : Value} (hv : v.WellFormed) : (constant v).WellFormed :=
  fun _ _ => hv

theorem wellFormed_forward (pc : Nat) (offset : Int) {go : Nat → Action}
    (hgo : ∀ skip, (go skip).WellFormed) : (forward pc offset go).WellFormed := by
  unfold forward
  split
  · trivial
  · exact hgo _

theorem WellFormed.perform {a : Action} (ha : a.WellFormed) {env : Environment}
    (henv : env.WellFormed) {earlier : Log} {c : Context} (hc : c.WellFormed earlier) :
    (a.perform env c).context.WellFormed earlier := by
  cases a with
  | stop => exact hc
  | refuse f => exact hc.fail f
  | pass skip => exact hc
  | branch skip taken => exact hc.pop.2
  | drop => exact hc.pop.2
  | duplicate =>
    obtain ⟨locals, ⟨items, size, hsize⟩, fault, used, log⟩ := c
    cases items with
    | nil => exact (hc.fail _).push Value.wellFormed_null
    | cons v items => exact hc.push hc.stack.1
  | exchange =>
    obtain ⟨locals, ⟨items, size, hsize⟩, fault, used, log⟩ := c
    cases items with
    | nil => exact hc.fail _
    | cons v items =>
      cases items with
      | nil => exact hc.fail _
      | cons w items =>
        obtain ⟨hv, hw, hitems⟩ := hc.stack
        exact ⟨hc.locals, ⟨hw, hv, hitems⟩, hc.log⟩
  | load name => exact hc.push (hc.resolve henv name)
  | compute arity f =>
    obtain ⟨hvs, hpopped⟩ := hc.popMany arity
    exact hpopped.push (ha _ hvs)
  | call name argc =>
    obtain ⟨hvs, hpopped⟩ := hc.popMany argc
    refine Machine.wellFormed_callBuiltin henv hpopped name (Value.wellFormedItems_iff.2 ?_)
    intro v hv
    exact Value.wellFormedItems_iff.1 hvs v (List.mem_reverse.1 hv)
  | mistake f => exact (hc.fail f).push Value.wellFormed_null

end Action

/-- Whatever the words and the constants are, an instruction computes well-formed values. -/
theorem Program.wellFormed_action (p : Program) (pc : Nat) (i : Instruction) :
    (p.action pc i).WellFormed := by
  have hstring : ∀ {f : Text → Value}, (∀ t, (f t).WellFormed) →
      (p.strings[i.index.toNat]?.elim .null f).WellFormed := by
    intro f hf
    cases p.strings[i.index.toNat]? with
    | none => exact Value.wellFormed_null
    | some t => exact hf t
  have hhead : ∀ {vs}, Value.WellFormedItems vs → (vs.headD .null).WellFormed := by
    intro vs hvs
    cases vs with
    | nil => exact Value.wellFormed_null
    | cons v vs => exact hvs.1
  unfold Program.action
  cases hop : i.opcode? with
  | none => trivial
  | some op =>
    cases op with
    | pushInt =>
      refine Action.wellFormed_constant ?_
      cases (if i.flag = 0 then some i.imm.toInt else p.ints[i.index.toNat]?) with
      | none => exact Value.wellFormed_null
      | some n => exact Value.wellFormed_ofInt n
    | pushFloat =>
      exact Action.wellFormed_constant (hstring fun t => Value.wellFormed_literal (.float _))
    | pushString =>
      exact Action.wellFormed_constant (hstring fun t => Value.wellFormed_literal (.string t))
    | pushBool => exact Action.wellFormed_constant (Value.wellFormed_literal (.bool _))
    | pushNull => exact Action.wellFormed_constant Value.wellFormed_null
    | loadVar =>
      cases p.strings[i.index.toNat]? with
      | none => exact Action.wellFormed_constant Value.wellFormed_null
      | some name => trivial
    | getProp =>
      intro vs hvs
      exact hstring fun name => Value.wellFormed_property (hhead hvs) name
    | getComputed => exact fun vs hvs => Value.wellFormed_computed (hhead hvs) _
    | getIndex => exact fun vs hvs => Value.wellFormed_computed (hhead hvs) _
    | callMethod =>
      intro vs hvs
      exact hstring fun name => Value.wellFormed_callMethod (hhead hvs) name _
    | callBuiltin =>
      cases p.strings[i.index.toNat]? with
      | none => exact fun _ _ => Value.wellFormed_null
      | some name => trivial
    | callFunction => exact fun _ _ => Value.wellFormed_null
    | binary op => exact fun vs hvs => (op.isScalar_apply _ _).wellFormed
    | unary op => exact fun vs hvs => (op.isScalar_apply _).wellFormed
    | jump => exact Action.wellFormed_forward pc _ fun skip => trivial
    | jumpIfFalse => exact Action.wellFormed_forward pc _ fun skip => trivial
    | jumpIfTrue => exact Action.wellFormed_forward pc _ fun skip => trivial
    | buildArray =>
      intro vs hvs
      rw [Value.WellFormed]
      exact hvs
    | buildObject =>
      exact fun vs hvs => Machine.wellFormed_objectOf vs [] hvs List.nodup_nil trivial
    | _ => trivial

/-- An instruction leaves a well-formed context. -/
theorem Machine.wellFormed_exec {env : Environment} (henv : env.WellFormed) (p : Program)
    (pc : Nat) (i : Instruction) {earlier : Log} {c : Context} (hc : c.WellFormed earlier) :
    (exec env p pc i c).context.WellFormed earlier := by
  rw [exec_eq_perform]
  exact (p.wellFormed_action pc i).perform henv hc

/-! ## Runs -/

theorem Context.wellFormed_result {earlier : Log} {c : Context} (hc : c.WellFormed earlier) :
    c.result.WellFormed := by
  unfold result
  split
  · exact Value.wellFormed_null
  · refine Value.wellFormed_getD fun v hv => ?_
    exact Value.wellFormedItems_iff.1 hc.stack v (List.mem_of_head? hv)

namespace Context

/-- Whatever the program is, a run over well-formed variables and builtins has well-formed
    values on the stack at every instruction, calls builtins with well-formed arguments only
    and yields a well-formed value. Outside of runs, too, operators, properties, items and
    methods, conversion from the host and copying give well-formed values of such. -/
theorem run_wellFormed (c : Context) (env : Environment) (p : Program) (hused : c.used = false)
    (hlocals : Value.WellFormedEntries c.locals) (hstack : Value.WellFormedItems c.stack.items)
    (henv : env.WellFormed) :
    (∃ visits ending c' events,
      Executes env p 0 { c with used := true } visits ending c' ∧
      c.run env p = finish (ending.message?, c') ∧
      (∀ visit ∈ visits, Value.WellFormedItems visit.2.stack.items) ∧
      Value.WellFormedItems c'.stack.items ∧
      c'.log = events ++ c.log ∧
      (∀ name args depth, .called name args depth ∈ events → Value.WellFormedItems args) ∧
      ∀ v, (c.run env p).1 = .ok v → v.WellFormed) ∧
    (∀ (op : BinaryOp) a b, a.WellFormed → b.WellFormed → (op.apply a b).WellFormed) ∧
    (∀ (op : UnaryOp) a, a.WellFormed → (op.apply a).WellFormed) ∧
    (∀ (v : Value) name, v.WellFormed → (v.property name).WellFormed) ∧
    (∀ (v : Value) key, v.WellFormed → key.WellFormed → (v.computed key).WellFormed) ∧
    (∀ (v : Value) name args, v.WellFormed → Value.WellFormedItems args →
      (v.callMethod name args).WellFormed) ∧
    (∀ d : HostData, (Value.ofHost d).WellFormed) ∧
    (∀ (g : HostGraph) root, (g.toValue root).WellFormed) ∧
    ∀ o : Owned, o.value.WellFormed → o.copy.value.WellFormed := by
  refine ⟨?_, fun op a b _ _ => (op.isScalar_apply a b).wellFormed,
    fun op a _ => (op.isScalar_apply a).wellFormed,
    fun v name hv => Value.wellFormed_property hv name,
    fun v key hv _ => Value.wellFormed_computed hv key,
    fun v name args hv _ => Value.wellFormed_callMethod hv name args,
    Value.wellFormed_ofHost, fun g root => g.ofHost_unfold root ▸ Value.wellFormed_ofHost _,
    fun o ho => Value.wellFormed_copy ho⟩
  obtain ⟨visits, ending, c', hexecutes, hrun⟩ := c.exists_run env p hused
  have hstart : { c with used := true }.WellFormed c.log :=
    ⟨hlocals, hstack, [], rfl, fun _ _ _ hmem => absurd hmem List.not_mem_nil⟩
  obtain ⟨hvisits, hend⟩ := hexecutes.invariant
    (fun pc c => Machine.wellFormed_exec henv p pc (p.fetch pc)) hstart
  obtain ⟨events, hlog, hevents⟩ := hend.log
  refine ⟨visits, ending, c', events, hexecutes, hrun, ?_, hend.stack, hlog, hevents, ?_⟩
  · exact fun visit hvisit => (hvisits visit hvisit).stack
  · intro v hv
    rw [hrun] at hv
    cases ending <;> cases hv <;> exact wellFormed_result hend

/-- A variable at the end of the range, and a builtin that gives back its first argument and
    binds it. -/
def echoing : Environment where
  state := [("limit", .int 9223372036854775807)]
  builtins := [
    ("math_echo", ⟨fun _ args => ⟨[("last", args.headD .null)], .ok (args.headD .null)⟩, {}⟩)]

theorem wellFormed_echoing : echoing.WellFormed := by
  refine ⟨⟨by simp [Value.WellFormed], trivial⟩, ?_⟩
  intro name b hget scope args _ hargs
  have hfirst : (args.headD .null).WellFormed := by
    cases args with
    | nil => exact Value.wellFormed_null
    | cons arg args => exact hargs.1
  simp only [echoing, Entries.get?] at hget
  split at hget
  · cases hget
    refine ⟨⟨hfirst, trivial⟩, fun v hv => ?_⟩
    cases hv
    exact hfirst
  · cases hget

/-- Builds an object of one key twice and of a key that is not a string, from a constant
    out of range, its negation and its quotient by `-1`. -/
def clashing : Program where
  words := .assemble #[.ofInts 3 0 0 0, .ofInts 1 1 0 0, .ofInts 31 0 0 0,
    .ofInts 3 0 0 0, .ofInts 1 1 0 0, .ofInts 1 0 0 (-1), .ofInts 19 0 0 0,
    .ofInts 5 0 0 0, .ofInts 9 0 2 0, .ofInts 37 0 0 3, .ofInts 14 0 1 1, .ofInts 38 0 0 0]
  count := 12
  strings := ["k", "math_echo", "limit"]
  ints := [9223372036854775808]

theorem run_clashing :
    ∃ v, (Context.run {} echoing clashing).1 = .ok v ∧
      v.equal (.object [("k", .int (-9223372036854775808))]) = true ∧ v.WellFormed := by
  obtain ⟨⟨_, _, _, _, _, _, _, _, _, _, hresult⟩, _⟩ :=
    run_wellFormed {} echoing clashing rfl trivial trivial wellFormed_echoing
  have hvalue : (Context.run {} echoing clashing).1.toOption.any
      (·.equal (.object [("k", .int (-9223372036854775808))])) = true := by
    decide +kernel
  cases hrun : (Context.run {} echoing clashing).1 with
  | error message =>
    rw [hrun] at hvalue
    cases hvalue
  | ok v =>
    rw [hrun] at hvalue
    exact ⟨v, rfl, hvalue, hresult v hrun⟩

end Context

end Reckon
