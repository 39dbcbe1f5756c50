-- SUMMARY: Builtin functions of the host: what they see, what they answer, and the table that they are registered in.
import Reckon.Double
import Reckon.Value

/-!
# Builtins

A builtin is a function of the host. It sees its arguments, the variables and
the depth of the stack. It answers with a value or throws, and may bind local
variables before it does either. A table holds builtins by name; a call with a
number of arguments that the builtin does not accept gives null and does not
reach the function.
-/

namespace Reckon

/-- What a builtin sees of the evaluation that calls it. -/
structure Scope where
  resolve : Text → Value
  /-- Values on the stack, without the arguments of the call. -/
  depth : Nat

/-- What a builtin answers. -/
structure Reply where
  /-- The local variables that it bound, in order. -/
  binds : List (Text × Value) := []
  /-- A value, or the message of the error that it threw. -/
  result : Except Text Value

abbrev BuiltinFn := Scope → List Value → Reply

structure BuiltinOptions where
  minArgs : Double := .zero false
  maxArgs : Double := .infinite false
  signature : Option Text := none
  description : Option Text := none

structure Builtin where
  fn : BuiltinFn
  options : BuiltinOptions

/-- Whether the builtin accepts `n` arguments. A bound that is not a number bounds
    nothing. -/
def Builtin.accepts (b : Builtin) (n : Nat) : Bool :=
  !(Double.ofNat n).lt b.options.minArgs && !b.options.maxArgs.lt (.ofNat n)

/-- Builtins by name, in order of registration. -/
abbrev BuiltinTable := Entries Builtin

inductive BuiltinError where
  | arity (name : Text)
deriving DecidableEq

def BuiltinError.message : BuiltinError → Text
  | .arity name => "exprvm: invalid arity for builtin \"" ++ name ++ "\""

/-- How a call ended. -/
inductive Dispatch where
  | unregistered
  /-- The builtin does not accept the number of arguments. -/
  | refused
  | replied (r : Reply)

namespace BuiltinTable

/-- Registers a builtin, in the place of one with the same name. -/
def register (t : BuiltinTable) (name : Text) (fn : BuiltinFn) (options : BuiltinOptions) :
    Except BuiltinError BuiltinTable :=
  if options.minArgs.lt (.zero false) || options.maxArgs.lt options.minArgs then
    .error (.arity name)
  else .ok (Entries.insert t name ⟨fn, options⟩)

def call (t : BuiltinTable) (name : Text) (scope : Scope) (args : List Value) : Dispatch :=
  match Entries.get? t name with
  | none => .unregistered
  | some b => if b.accepts args.length then .replied (b.fn scope args) else .refused

end BuiltinTable

end Reckon
