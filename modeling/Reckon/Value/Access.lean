-- SUMMARY: Reading properties and items of values, and the methods of arrays and strings.
import Reckon.Text.Case
import Reckon.Text.Blank
import Reckon.Value

/-!
# Properties, items and methods

Positions in a string count code units. A property, key, position or method
that a value does not have gives null.
-/

namespace Reckon

namespace Value

-- ---------------------------------------------------------------------------
-- Properties and items
-- ---------------------------------------------------------------------------

/-- The property `name`: an entry of an object, or the length of an array or
    string. -/
def property (target : Value) (name : Text) : Value :=
  match target with
  | .object entries => (Entries.get? entries name).getD .null
  | .array items => if name = "length" then ofNat items.length else .null
  | .string s => if name = "length" then ofNat s.length else .null
  | _ => .null

/-- The item at an integer position. -/
def itemAt {α : Type} (items : List α) (position : Int) : Option α :=
  if 0 ≤ position then items[position.toNat]? else none

/-- The item of an array, the code unit of a string or the entry of an object under
    a key that is itself a value. -/
def computed (target key : Value) : Value :=
  match target, key with
  | .array items, .int n => (itemAt items n).getD .null
  | .string s, .int n => (itemAt s.units n).elim .null fun u => .string ⟨[u]⟩
  | .object entries, .string k => (Entries.get? entries k).getD .null
  | _, _ => .null

end Value

-- ---------------------------------------------------------------------------
-- Methods
-- ---------------------------------------------------------------------------

inductive ArrayMethod where
  | push
  | pop
  | length
  | reverse
deriving DecidableEq

inductive StringMethod where
  | length
  | toUpperCase
  | toLowerCase
  | trim
  | substring
deriving DecidableEq

def ArrayMethod.ofName? (name : Text) : Option ArrayMethod :=
  if name = "push" then some .push
  else if name = "pop" then some .pop
  else if name = "length" then some .length
  else if name = "reverse" then some .reverse
  else none

def StringMethod.ofName? (name : Text) : Option StringMethod :=
  if name = "length" then some .length
  else if name = "toUpperCase" then some .toUpperCase
  else if name = "toLowerCase" then some .toLowerCase
  else if name = "trim" then some .trim
  else if name = "substring" then some .substring
  else none

/-- The result of an array method. The receiver is a copy, so pushing shows only in
    the new length. -/
def ArrayMethod.call (items args : List Value) : ArrayMethod → Value
  | .push => Value.ofNat (items.length + args.length)
  | .pop => items.getLast?.getD .null
  | .length => Value.ofNat items.length
  | .reverse => .array items.reverse

/-- A position of `substring`: an integer brought into range, the fallback for any
    other argument or none. -/
def Value.clampPosition (arg : Option Value) (fallback length : Nat) : Nat :=
  match arg with
  | some (.int n) => min n.toNat length
  | _ => fallback

/-- The result of a string method. -/
def StringMethod.call (s : Text) (args : List Value) : StringMethod → Value
  | .length => Value.ofNat s.length
  | .toUpperCase => .string s.toUpper
  | .toLowerCase => .string s.toLower
  | .trim => .string (s.trimWhere Text.isPlainBlank)
  | .substring =>
    if args.isEmpty then .null
    else .string (s.slice (Value.clampPosition args[0]? 0 s.length)
      (Value.clampPosition args[1]? s.length s.length))

/-- The result of calling a method of a value. -/
def Value.callMethod (receiver : Value) (name : Text) (args : List Value) : Value :=
  match receiver with
  | .array items => (ArrayMethod.ofName? name).elim .null (ArrayMethod.call items args)
  | .string s => (StringMethod.ofName? name).elim .null (StringMethod.call s args)
  | _ => .null

end Reckon
