-- SUMMARY: The engine: configuration, state, compiled expressions, and evaluation against the state.
import Reckon.Cache
import Reckon.Code.Compile
import Reckon.Code.Listing
import Reckon.Machine
import Reckon.Value.Binding
import Reckon.Value.Host

/-!
# The engine

An engine ties the parts together: it compiles a tree, or finds it in its
cache, and runs it against its state. With memoization on, the result of a tree
without local variables is kept until a variable that the tree names is written.
What goes wrong on the way is reported.
-/

namespace Reckon

-- ---------------------------------------------------------------------------
-- Configuration
-- ---------------------------------------------------------------------------

structure EngineConfig where
  optimize : Bool := true
  eliminateDeadCode : Bool := true
  cacheSize : Nat := Cache.defaultSize
  memoize : Bool := false
  prefixes : List Text := defaultPrefixes
  maxStack : Nat := defaultMaxStack
  builtins : Option BuiltinTable := none
  onError : Option Handler := none
  debug : Bool := false

/-- A change of the configuration. What is missing stays as it is. -/
structure EngineOptions where
  optimize : Option Bool := none
  eliminateDeadCode : Option Bool := none
  cacheSize : Option Double := none
  memoize : Option Bool := none
  prefixes : Option (List Text) := none
  maxStack : Option Double := none
  builtins : Option (Option BuiltinTable) := none
  onError : Option (Option Handler) := none
  debug : Option Bool := none

/-- The options that decide how trees are compiled, and whether one of them asks
    for compiling anew. -/
def EngineConfig.withBuildOptions (c : EngineConfig) (o : EngineOptions) : Bool × EngineConfig :=
  let optimize := o.optimize.getD c.optimize
  let eliminateDeadCode := o.eliminateDeadCode.getD c.eliminateDeadCode
  let rebuild := optimize ≠ c.optimize || eliminateDeadCode ≠ c.eliminateDeadCode ||
    o.prefixes.isSome
  (rebuild, { c with optimize, eliminateDeadCode, prefixes := o.prefixes.getD c.prefixes })

/-- The options that trees are compiled with. -/
def EngineConfig.compileOptions (c : EngineConfig) (source : Option Text) : CompileOptions :=
  { optimize := c.optimize, eliminateDeadCode := c.eliminateDeadCode, prefixes := c.prefixes,
    echo := source.elim .tree .text }

/-- What an operation of the engine can throw. -/
inductive EngineError where
  /-- An option is not a positive whole number. -/
  | notPositive (option : Text) (given : Double)
  /-- The handler of reports threw. -/
  | raised (message : Text)
deriving DecidableEq

def EngineError.message : EngineError → Text
  | .notPositive option given =>
    "exprvm: " ++ option ++ " must be a positive integer, got " ++ given.text
  | .raised message => message

-- ---------------------------------------------------------------------------
-- The engine
-- ---------------------------------------------------------------------------

/-- A compiled tree with the serial number of its compilation. -/
structure Compiled where
  serial : Nat
  program : Program

structure Engine where
  config : EngineConfig := {}
  state : Entries Value := []
  cache : Cache Compiled := { max := Cache.defaultSize }
  /-- Whether writes to the state reach the cache. -/
  attached : Bool := true
  /-- Whether warnings are left out. -/
  production : Bool := false
  /-- How many trees were compiled so far. -/
  compilations : Nat := 0
  log : Log := []

/-- An operation of the engine. When it throws, what it did before stays done. -/
abbrev EngineM := ExceptT EngineError (StateM Engine)

namespace Engine

def modifyCache (f : Cache Compiled → Cache Compiled) : EngineM Unit :=
  modify fun e => { e with cache := f e.cache }

def modifyConfig (f : EngineConfig → EngineConfig) : EngineM Unit :=
  modify fun e => { e with config := f e.config }

/-- Reports to the handler or the console. -/
def report (r : Report) : EngineM Unit := do
  let e ← get
  match e.log.deliver e.config.onError r with
  | .ok log => set { e with log }
  | .error message => throw (.raised message)

/-- Writes a warning to the console, unless in production. -/
def warn (text : Text) : EngineM Unit :=
  modify fun e => if e.production then e else { e with log := .warned text :: e.log }

-- ---------------------------------------------------------------------------
-- Configuring
-- ---------------------------------------------------------------------------

/-- The value of an option that has to be a positive whole number. -/
def positive (option : Text) (given : Double) : EngineM Nat :=
  match given.toPositive? with
  | some n => pure n
  | none => throw (.notPositive option given)

/-- Takes the options that change how trees are compiled, which empty the cache, and
    the size of the cache, which replaces it. -/
def configureCache (o : EngineOptions) : EngineM Unit := do
  let (rebuild, config) := (← get).config.withBuildOptions o
  modifyConfig fun _ => config
  match o.cacheSize with
  | some given =>
    let size ← positive "cacheSize" given
    modifyConfig fun c => { c with cacheSize := size }
    modifyCache fun _ => { max := size }
  | none => if rebuild then modifyCache Cache.clear

def configureStack (o : EngineOptions) : EngineM Unit := do
  match o.maxStack with
  | some given =>
    let size ← positive "maxStackSize" given
    modifyConfig fun c => { c with maxStack := size }
  | none => pure ()

/-- Takes the options that results depend on. Turning memoization off drops the
    results, and so do other builtins. -/
def configureResults (o : EngineOptions) : EngineM Unit := do
  match o.memoize with
  | some memoize =>
    modifyConfig fun c => { c with memoize }
    if !memoize then modifyCache Cache.invalidateAll
  | none => pure ()
  match o.builtins with
  | some builtins =>
    modifyConfig fun c => { c with builtins }
    modifyCache Cache.invalidateAll
  | none => pure ()

/-- Changes the configuration, one option after the other. -/
def configure (o : EngineOptions) : EngineM Unit := do
  configureCache o
  configureStack o
  configureResults o
  modifyConfig fun c =>
    { c with onError := o.onError.getD c.onError, debug := o.debug.getD c.debug }

/-- A new engine with initial state. -/
def create (init : List (Text × HostData)) (o : EngineOptions) (production : Bool) :
    Except EngineError Engine :=
  let state := Entries.mapValues Value.ofHost (Entries.ofHost init)
  match (configure o).run.run { state, production } with
  | (.ok _, e) => .ok e
  | (.error error, _) => .error error

-- ---------------------------------------------------------------------------
-- Compiling and evaluating
-- ---------------------------------------------------------------------------

/-- The program of a tree: cached, or compiled and cached. A program whose
    compilation failed is reported and not cached. -/
def compile (tree : Expr) (source : Option Text) : EngineM Compiled := do
  let e ← get
  match e.cache.lookup tree with
  | (some compiled, cache) =>
    set { e with cache }
    return compiled
  | (none, cache) =>
    let program := tree.compile (e.config.compileOptions source)
    let compiled : Compiled := ⟨e.compilations, program⟩
    set { e with cache, compilations := e.compilations + 1 }
    match program.failure with
    | some failure =>
      report (.compileFailed program.source failure)
      if e.config.debug then warn ("disassembly of failed unit\n" ++ program.listing)
    | none => modifyCache (·.insert tree compiled)
    return compiled

/-- What a run is given by the engine. -/
def environment (e : Engine) : Environment :=
  { state := e.state, builtins := e.config.builtins.getD [], maxStack := e.config.maxStack,
    onError := e.config.onError }

/-- The memoized result of a tree. -/
def memoized (tree : Expr) : EngineM (Option Value) := do
  let (result, cache) := (← get).cache.result? tree
  modifyCache fun _ => cache
  return result

/-- Runs the program of a tree, reports a fault, and memoizes the result of a good
    run if asked to. -/
def execute (memoize : Bool) (tree : Expr) (locals : Option (List (Text × HostData)))
    (compiled : Compiled) : EngineM Value := do
  let e ← get
  let locals := Entries.mapValues Value.ofHost (Entries.ofHost (locals.getD []))
  let context : Context := { locals, log := e.log }
  let (result, context) := context.run e.environment compiled.program
  set { e with log := context.log }
  match result with
  | .error message => throw (.raised message)
  | .ok v =>
    match context.fault with
    | some fault => report (.evaluationFailed compiled.program.source fault)
    | none => if memoize && !compiled.program.hasFailed then modifyCache (·.storeResult tree v)
    return v

/-- Evaluates a tree against the state, with local variables in front of it. The
    result is memoized only if none are given, not even an empty list. -/
def evaluate (tree : Expr) (locals : Option (List (Text × HostData))) : EngineM Value := do
  let memoize := (← get).config.memoize && locals.isNone
  let compiled ← compile tree none
  match ← if memoize then memoized tree else pure none with
  | some v => return v
  | none => execute memoize tree locals compiled

/-- Evaluates a tree in the shape of a binding. -/
def evaluateAs (kind : BindingKind) (tree : Expr) (locals : Option (List (Text × HostData))) :
    EngineM Bound :=
  return (← evaluate tree locals).bindAs kind

/-- Evaluates a tree to data of the host. -/
def evaluateHost (tree : Expr) (locals : Option (List (Text × HostData))) : EngineM HostData :=
  return (← evaluate tree locals).toHost

/-- The listing of a tree's program. -/
def listing (tree : Expr) : EngineM Text :=
  return (← compile tree none).program.listing

-- ---------------------------------------------------------------------------
-- State
-- ---------------------------------------------------------------------------

/-- What the engine does as a listener of its state, being told of written variables:
    it drops the results that depend on them. It is told while it is attached. -/
def changed (names : List Text) : EngineM Unit :=
  modify fun e =>
    if e.attached then
      { e with cache := names.foldl (fun cache name => (cache.invalidate name).2) e.cache }
    else e

def setState (name : Text) (v : Value) : EngineM Unit := do
  modify fun e => { e with state := Entries.insert e.state name v }
  changed [name]

/-- Deletes a variable and tells whether it was there. -/
def deleteState (name : Text) : EngineM Bool := do
  if Entries.contains (← get).state name then
    modify fun e => { e with state := Entries.erase e.state name }
    changed [name]
    return true
  else return false

def clearState : EngineM Unit := do
  let names := Entries.keys (← get).state
  modify fun e => { e with state := [] }
  changed names

/-- Drops the results that depend on a variable and tells how many they were. -/
def invalidate (name : Text) : EngineM Nat := do
  let (dropped, cache) := (← get).cache.invalidate name
  modifyCache fun _ => cache
  return dropped

-- ---------------------------------------------------------------------------
-- Cache and end
-- ---------------------------------------------------------------------------

/-- Empties the cache and starts counting anew. -/
def clearCache : EngineM Unit := modifyCache fun c => c.clear.resetCounts

/-- Detaches the engine from its state and empties the cache. -/
def dispose : EngineM Unit := modify fun e => { e with attached := false, cache := e.cache.clear }

end Engine

end Reckon
