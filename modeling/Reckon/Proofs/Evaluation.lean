-- SUMMARY: Direct evaluation of trees: the value of a tree, what evaluation changes, and how many values it holds at once.
import Reckon.Code.Compile
import Reckon.Machine

/-!
# Evaluation of trees

What a tree means, without a machine: every node has a value and may change the
local variables and the log, through the builtins that are called. Evaluation
is told how many values the nodes around are holding, because builtins can see
that number. How many values are held at once is counted apart from the value,
so that it can be compared with the stack of an environment.
-/

namespace Reckon

/-! ## Environments -/

namespace Environment

/-- The handler of errors, if there is one, does not throw. -/
def Quiet (env : Environment) : Prop := ∀ h, env.onError = some h → ∀ r, h r = none

/-- How many values fit on the stack. -/
def room (env : Environment) : Nat := env.maxStack.toNat

/-- The event of a report that reaches the host. -/
def receipt (env : Environment) (r : Report) : Event :=
  match env.onError with
  | none => .printed r
  | some _ => .handled r

theorem Quiet.deliver {env : Environment} (h : env.Quiet) (log : Log) (r : Report) :
    log.deliver env.onError r = .ok (env.receipt r :: log) := by
  simp only [Log.deliver, receipt]
  cases hon : env.onError with
  | none => rfl
  | some handler => simp only [h handler hon r]

end Environment

/-! ## Stores -/

/-- What evaluation changes. -/
structure Store where
  locals : Entries Value
  log : Log

namespace Store

/-- The value of a variable: a local one, then one of the state, then null. -/
def resolve (env : Environment) (s : Store) (name : Text) : Value :=
  ((Entries.get? s.locals name).or (Entries.get? env.state name)).getD .null

/-- Calls a builtin while `depth` values are held. A call that does not reach a
    builtin gives null; one that makes it throw is reported and gives null, too. The
    variables that it bound stay bound. -/
def call (env : Environment) (name : Text) (args : List Value) (depth : Nat) (s : Store) :
    Value × Store :=
  match env.builtins.call name ⟨s.resolve env, depth⟩ args with
  | .unregistered | .refused => (.null, s)
  | .replied reply =>
    let locals := reply.binds.foldl (fun es (k, v) => Entries.insert es k v) s.locals
    let log := .called name args depth :: s.log
    match reply.result with
    | .ok v => (v, ⟨locals, log⟩)
    | .error error => (.null, ⟨locals, env.receipt (.builtinThrew name error) :: log⟩)

end Store

namespace Context

def store (c : Context) : Store := ⟨c.locals, c.log⟩

def withStore (c : Context) (s : Store) : Context := { c with locals := s.locals, log := s.log }

theorem withStore_bindAll (c : Context) (log : Log) (binds : List (Text × Value)) :
    { c with log }.bindAll binds =
      c.withStore ⟨binds.foldl (fun es (k, v) => Entries.insert es k v) c.locals, log⟩ := by
  induction binds generalizing c with
  | nil => rfl
  | cons b binds ih => exact ih (c.bind b.1 b.2)

end Context

/-- The machine calls builtins as evaluation does, and pushes what they give. -/
theorem Machine.callBuiltin_eq {env : Environment} (hq : env.Quiet) (c : Context) (name : Text)
    (args : List Value) :
    callBuiltin env c name args =
      .next 0 ((c.withStore (c.store.call env name args c.stack.size).2).push env
        (c.store.call env name args c.stack.size).1) := by
  have hscope : (⟨c.resolve env, c.stack.size⟩ : Scope) = ⟨c.store.resolve env, c.stack.size⟩ := rfl
  simp only [callBuiltin, Store.call, hscope]
  cases env.builtins.call name ⟨c.store.resolve env, c.stack.size⟩ args with
  | unregistered => rfl
  | refused => rfl
  | replied reply =>
    simp only [Context.withStore_bindAll]
    cases reply.result with
    | ok v => rfl
    | error error =>
      simp only [hq.deliver]
      rfl

/-! ## Values of trees -/

namespace Expr

variable (env : Environment) (prefixes : List Text)

mutual

/-- The value of a tree while `depth` values are held. -/
def eval : Expr → (depth : Nat) → Store → Value × Store
  | .lit l, _, s => (l.value, s)
  | .var name, _, s => (s.resolve env name, s)
  | .field owner name, _, s => ((s.resolve env owner).property name, s)
  | .member target property, d, s =>
    let (v, s) := eval target d s
    (v.property property, s)
  | .computed target key, d, s | .index target key, d, s =>
    let (v, s) := eval target d s
    let (k, s) := eval key (d + 1) s
    (v.computed k, s)
  | .binary op left right, d, s =>
    let (a, s) := eval left d s
    let (b, s) := eval right (d + 1) s
    (op.apply a b, s)
  | .unary op operand, d, s =>
    let (a, s) := eval operand d s
    (op.apply a, s)
  | .cond test consequent alternate, d, s =>
    let (v, s) := eval test d s
    if v.isTruthy then eval consequent d s else eval alternate d s
  | .call callee args, d, s =>
    let (vs, s) := evalArgs args d s
    if prefixes.any callee.startsWith then s.call env callee vs d else (.null, s)
  | .method receiver name args, d, s =>
    let (v, s) := eval receiver d s
    let (vs, s) := evalArgs args (d + 1) s
    (v.callMethod name vs, s)
  | .group inner, d, s => eval inner d s
  | .array elements, d, s =>
    let (vs, s) := evalAll elements d s
    (.array vs, s)
  | .object properties, d, s =>
    let (entries, s) := evalProperties properties d s
    (.object (Entries.ofList entries), s)
  | .unknown _, _, s => (.null, s)

/-- The values of arguments, evaluated last to first. -/
def evalArgs : List Expr → (depth : Nat) → Store → List Value × Store
  | [], _, s => ([], s)
  | x :: xs, d, s =>
    let (vs, s) := evalArgs xs d s
    let (v, s) := eval x (d + xs.length) s
    (v :: vs, s)

/-- The values of elements, evaluated first to last. -/
def evalAll : List Expr → (depth : Nat) → Store → List Value × Store
  | [], _, s => ([], s)
  | x :: xs, d, s =>
    let (v, s) := eval x d s
    let (vs, s) := evalAll xs (d + 1) s
    (v :: vs, s)

/-- The keys with their values, evaluated first to last. A key is held, too. -/
def evalProperties : List (Text × Expr) → (depth : Nat) → Store → List (Text × Value) × Store
  | [], _, s => ([], s)
  | (k, x) :: xs, d, s =>
    let (v, s) := eval x (d + 1) s
    let (vs, s) := evalProperties xs (d + 2) s
    ((k, v) :: vs, s)

end

/-! ## Values held at once -/

mutual

/-- The most values that are held at once, those around the tree included. -/
def peak : Expr → (depth : Nat) → Store → Nat
  | .lit _, d, _ | .var _, d, _ | .field _ _, d, _ | .unknown _, d, _ => d + 1
  | .member target _, d, s => peak target d s
  | .computed target key, d, s | .index target key, d, s =>
    max (peak target d s) (peak key (d + 1) (eval env prefixes target d s).2)
  | .binary _ left right, d, s =>
    max (peak left d s) (peak right (d + 1) (eval env prefixes left d s).2)
  | .unary _ operand, d, s => peak operand d s
  | .cond test consequent alternate, d, s =>
    let (v, s') := eval env prefixes test d s
    max (peak test d s) (if v.isTruthy then peak consequent d s' else peak alternate d s')
  | .call _ args, d, s => max (peakArgs args d s) (d + 1)
  | .method receiver _ args, d, s =>
    max (peak receiver d s) (peakArgs args (d + 1) (eval env prefixes receiver d s).2)
  | .group inner, d, s => peak inner d s
  | .array elements, d, s => max (peakAll elements d s) (d + 1)
  | .object properties, d, s => max (peakProperties properties d s) (d + 1)

def peakArgs : List Expr → (depth : Nat) → Store → Nat
  | [], _, _ => 0
  | x :: xs, d, s =>
    max (peakArgs xs d s) (peak x (d + xs.length) (evalArgs env prefixes xs d s).2)

def peakAll : List Expr → (depth : Nat) → Store → Nat
  | [], _, _ => 0
  | x :: xs, d, s => max (peak x d s) (peakAll xs (d + 1) (eval env prefixes x d s).2)

def peakProperties : List (Text × Expr) → (depth : Nat) → Store → Nat
  | [], _, _ => 0
  | (_, x) :: xs, d, s =>
    max (peak x (d + 1) s) (peakProperties xs (d + 2) (eval env prefixes x (d + 1) s).2)

end

variable {env : Environment} {prefixes : List Text}

@[simp] theorem length_evalArgs (xs : List Expr) (d : Nat) (s : Store) :
    (evalArgs env prefixes xs d s).1.length = xs.length := by
  induction xs generalizing d s with
  | nil => rfl
  | cons x xs ih => simp only [evalArgs, List.length_cons, ih]

@[simp] theorem length_evalAll (xs : List Expr) (d : Nat) (s : Store) :
    (evalAll env prefixes xs d s).1.length = xs.length := by
  induction xs generalizing d s with
  | nil => rfl
  | cons x xs ih => simp only [evalAll, List.length_cons, ih]

@[simp] theorem length_evalProperties (xs : List (Text × Expr)) (d : Nat) (s : Store) :
    (evalProperties env prefixes xs d s).1.length = xs.length := by
  induction xs generalizing d s with
  | nil => rfl
  | cons x xs ih => simp only [evalProperties, List.length_cons, ih]

/-- The value of a tree is held itself. -/
theorem lt_peak (x : Expr) (d : Nat) (s : Store) : d < x.peak env prefixes d s := by
  cases x with
  | lit l => exact Nat.lt_succ_self d
  | var name => exact Nat.lt_succ_self d
  | field owner name => exact Nat.lt_succ_self d
  | member target property => exact lt_peak target d s
  | computed target key => exact Nat.lt_of_lt_of_le (lt_peak target d s) (Nat.le_max_left _ _)
  | index target position => exact Nat.lt_of_lt_of_le (lt_peak target d s) (Nat.le_max_left _ _)
  | binary op left right => exact Nat.lt_of_lt_of_le (lt_peak left d s) (Nat.le_max_left _ _)
  | unary op operand => exact lt_peak operand d s
  | cond test consequent alternate =>
    exact Nat.lt_of_lt_of_le (lt_peak test d s) (Nat.le_max_left _ _)
  | call callee args => exact Nat.lt_of_lt_of_le (Nat.lt_succ_self d) (Nat.le_max_right _ _)
  | method receiver name args =>
    exact Nat.lt_of_lt_of_le (lt_peak receiver d s) (Nat.le_max_left _ _)
  | group inner => exact lt_peak inner d s
  | array elements => exact Nat.lt_of_lt_of_le (Nat.lt_succ_self d) (Nat.le_max_right _ _)
  | object properties => exact Nat.lt_of_lt_of_le (Nat.lt_succ_self d) (Nat.le_max_right _ _)
  | unknown kind => exact Nat.lt_succ_self d

end Expr

end Reckon
