-- SUMMARY: Containers in the hands of an owner: reading, writing, copying, and releasing once.
import Reckon.Value

/-!
# Owned containers

An owner may read and write the array or object that it holds, copy it, and
release it. Releasing empties a container the first time only: what is put into
a released container stays there. A copy is a container of its own, which has
not been released. An operation that does not fit the value does nothing.
-/

namespace Reckon

-- ---------------------------------------------------------------------------
-- Copies
-- ---------------------------------------------------------------------------

namespace Value

mutual

/-- A copy of the value: containers are built anew from copies of what is in them, and all
    else is shared. -/
def copy : Value → Value
  | .array items => .array (copyItems items)
  | .object entries => .object (copyEntries entries)
  | v => v

def copyItems : List Value → List Value
  | [] => []
  | v :: vs => copy v :: copyItems vs

def copyEntries : List (Text × Value) → List (Text × Value)
  | [] => []
  | (k, v) :: es => (k, copy v) :: copyEntries es

end

mutual

theorem copy_eq_self : ∀ v : Value, v.copy = v
  | .array items => by rw [copy, copyItems_eq_self items]
  | .object entries => by rw [copy, copyEntries_eq_self entries]
  | .null | .int _ | .float _ | .bool _ | .string _ | .absent _ => rfl

theorem copyItems_eq_self : ∀ vs : List Value, copyItems vs = vs
  | [] => rfl
  | v :: vs => by rw [copyItems, copy_eq_self v, copyItems_eq_self vs]

theorem copyEntries_eq_self : ∀ es : List (Text × Value), copyEntries es = es
  | [] => rfl
  | (k, v) :: es => by rw [copyEntries, copy_eq_self v, copyEntries_eq_self es]

end

end Value

-- ---------------------------------------------------------------------------
-- Owners
-- ---------------------------------------------------------------------------

/-- A value and whether its owner has released its container. -/
structure Owned where
  value : Value
  released : Bool := false

namespace Owned

def copy (o : Owned) : Owned := ⟨o.value.copy, false⟩

/-- Empties the container, the first time only. -/
def release (o : Owned) : Owned :=
  if o.released then o
  else match o.value with
    | .array _ => ⟨.array [], true⟩
    | .object _ => ⟨.object [], true⟩
    | _ => o

-- ---------------------------------------------------------------------------
-- Arrays
-- ---------------------------------------------------------------------------

def items (o : Owned) : List Value :=
  match o.value with
  | .array items => items
  | _ => []

def withItems (o : Owned) (items : List Value) : Owned :=
  match o.value with
  | .array _ => { o with value := .array items }
  | _ => o

/-- The item at a position, null where there is none. -/
def item (o : Owned) (position : Double) : Value :=
  (position.toNat?.bind (o.items[·]?)).getD .null

/-- Replaces the item at a position, if there is one. -/
def setItem (o : Owned) (position : Double) (v : Value) : Bool × Owned :=
  match position.toNat? with
  | some i => if i < o.items.length then (true, o.withItems (o.items.set i v)) else (false, o)
  | none => (false, o)

/-- Appends an item and gives the new length. -/
def push (o : Owned) (v : Value) : Nat × Owned :=
  let o := o.withItems (o.items ++ [v])
  (o.items.length, o)

/-- Takes the last item out, null if there is none. -/
def pop (o : Owned) : Value × Owned :=
  (o.items.getLast?.getD .null, o.withItems o.items.dropLast)

def reverse (o : Owned) : Owned := o.withItems o.items.reverse

-- ---------------------------------------------------------------------------
-- Objects
-- ---------------------------------------------------------------------------

def entries (o : Owned) : Entries Value :=
  match o.value with
  | .object entries => entries
  | _ => []

def withEntries (o : Owned) (entries : Entries Value) : Owned :=
  match o.value with
  | .object _ => { o with value := .object entries }
  | _ => o

/-- The value under a key, if there is one. -/
def peek? (o : Owned) (key : Text) : Option Value := Entries.get? o.entries key

/-- The value under a key, null where there is none. -/
def get (o : Owned) (key : Text) : Value := (o.peek? key).getD .null

def has (o : Owned) (key : Text) : Bool := Entries.contains o.entries key

def set (o : Owned) (key : Text) (v : Value) : Owned :=
  o.withEntries (Entries.insert o.entries key v)

/-- Removes a key and tells whether it was there. -/
def delete (o : Owned) (key : Text) : Bool × Owned :=
  (o.has key, o.withEntries (Entries.erase o.entries key))

def keys (o : Owned) : List Text := Entries.keys o.entries

/-- How many entries there are. -/
def size (o : Owned) : Nat := o.entries.length

end Owned

end Reckon
