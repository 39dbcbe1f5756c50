-- SUMMARY: The cache of compiled expressions: least recently used first out, with memoized results per entry.
import Reckon.Expr.Key

/-!
# The cache

Compiled expressions are found again by the structural key of their trees. The
entries stand in the order in which they were last touched; a new one in a full
cache takes the place of the one that was touched longest ago. An entry may
hold a memoized result, which is dropped when a variable that the tree names is
written.
-/

namespace Reckon

/-- What the cache holds about one tree. -/
structure CacheEntry (α : Type) where
  compiled : α
  /-- The variables that the tree names. -/
  reads : List Text
  result : Option Value := none

/-- Whether the entry holds a result that depends on the variable. -/
def CacheEntry.dependsOn {α : Type} (entry : CacheEntry α) (name : Text) : Bool :=
  entry.result.isSome && name ∈ entry.reads

/-- A cache of at most `max` entries, the one touched longest ago first. -/
structure Cache (α : Type) where
  max : Nat
  entries : Entries (CacheEntry α) := []
  hits : Nat := 0
  misses : Nat := 0
  evictions : Nat := 0

inductive CacheError where
  /-- The size is not a positive whole number. -/
  | size (given : Double)
deriving DecidableEq

def CacheError.message : CacheError → Text
  | .size given => "exprvm: cache size must be a positive integer, got " ++ given.text

/-- The value of a number that is whole and positive. -/
def Double.toPositive? (x : Double) : Option Nat :=
  x.toNat?.bind fun n => if n = 0 then none else some n

namespace Cache

variable {α : Type}

def defaultSize : Nat := 1000

/-- An empty cache of a given size. -/
def ofSize (size : Double) : Except CacheError (Cache α) :=
  match size.toPositive? with
  | some n => .ok { max := n }
  | none => .error (.size size)

def size (c : Cache α) : Nat := c.entries.length

/-- Finds an entry and makes it the latest. -/
def touch (c : Cache α) (key : Text) : Option (CacheEntry α) × Cache α :=
  match Entries.get? c.entries key with
  | some entry => (some entry, { c with entries := Entries.erase c.entries key ++ [(key, entry)] })
  | none => (none, c)

/-- What was compiled for a tree, counted as a hit or a miss. -/
def lookup (c : Cache α) (tree : Expr) : Option α × Cache α :=
  match c.touch tree.key with
  | (some entry, c) => (some entry.compiled, { c with hits := c.hits + 1 })
  | (none, c) => (none, { c with misses := c.misses + 1 })

def has (c : Cache α) (tree : Expr) : Bool := Entries.contains c.entries tree.key

/-- Makes room for an entry with a new key. -/
def evict (c : Cache α) : Cache α :=
  if c.max ≤ c.size then { c with entries := c.entries.drop 1, evictions := c.evictions + 1 } else c

/-- Enters what was compiled for a tree as the latest entry. Replacing an entry
    drops its result and evicts nothing. -/
def insert (c : Cache α) (tree : Expr) (compiled : α) : Cache α :=
  let key := tree.key
  let c := if Entries.contains c.entries key then { c with entries := Entries.erase c.entries key }
    else c.evict
  { c with entries := c.entries ++ [(key, { compiled, reads := tree.variableNames })] }

/-- The variables that a cached tree names. -/
def dependencies? (c : Cache α) (tree : Expr) : Option (List Text) :=
  (Entries.get? c.entries tree.key).map (·.reads)

/-- The memoized result of a tree. Asking makes its entry the latest. -/
def result? (c : Cache α) (tree : Expr) : Option Value × Cache α :=
  match c.touch tree.key with
  | (some entry, c) => (entry.result, c)
  | (none, c) => (none, c)

/-- Memoizes the result of a tree, if it is cached. -/
def storeResult (c : Cache α) (tree : Expr) (v : Value) : Cache α :=
  let key := tree.key
  match Entries.get? c.entries key with
  | some entry => { c with entries := Entries.insert c.entries key { entry with result := some v } }
  | none => c

/-- Drops the results that depend on a variable and tells how many they were. -/
def invalidate (c : Cache α) (name : Text) : Nat × Cache α :=
  let dropped := c.entries.countP fun (_, entry) => entry.dependsOn name
  (dropped, { c with entries := Entries.mapValues (fun entry =>
    if entry.dependsOn name then { entry with result := none } else entry) c.entries })

/-- Drops all results. -/
def invalidateAll (c : Cache α) : Cache α :=
  { c with entries := Entries.mapValues (fun entry => { entry with result := none }) c.entries }

/-- Drops all entries. The counts stay. -/
def clear (c : Cache α) : Cache α := { c with entries := [] }

def resetCounts (c : Cache α) : Cache α := { c with hits := 0, misses := 0, evictions := 0 }

/-- The share of hits among all lookups, zero before the first. -/
def hitRate (c : Cache α) : Double :=
  if c.hits + c.misses = 0 then .zero false else .ofRatio false c.hits (c.hits + c.misses)

end Cache

end Reckon
