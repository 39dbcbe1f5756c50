-- SUMMARY: Faults, reports to the host, and the log of what a host can observe.
import Reckon.Code.Program

/-!
# Reports

Nothing that goes wrong in an expression stops the host: it is reported. A host
may install a handler for reports; without one they are written to the console.
A handler may itself throw, and that does reach the host.
-/

namespace Reckon

-- ---------------------------------------------------------------------------
-- Faults of a run
-- ---------------------------------------------------------------------------

/-- What can go wrong in the machine. -/
inductive Fault where
  | stackOverflow (limit : Int)
  | stackUnderflow
  | nonForwardJump (pc : Nat)
  | unknownOpcode (op : UInt8) (pc : Nat)
  /-- A context was run a second time. -/
  | contextUsed
deriving DecidableEq

def Fault.message : Fault → Text
  | .stackOverflow limit => "stack overflow (limit " ++ Text.ofInt limit ++ ")"
  | .stackUnderflow => "stack underflow"
  | .nonForwardJump pc => "non-forward jump at " ++ Text.ofNat pc
  | .unknownOpcode op pc => "unknown opcode " ++ Text.ofNat op.toNat ++ " at " ++ Text.ofNat pc
  | .contextUsed => "evaluation context already used"

-- ---------------------------------------------------------------------------
-- Reports
-- ---------------------------------------------------------------------------

/-- The stage that a report comes from. -/
inductive Phase where
  | compile
  | evaluate
  | builtin
deriving DecidableEq

def Phase.name : Phase → Text
  | .compile => "compile"
  | .evaluate => "evaluate"
  | .builtin => "builtin"

/-- Something that the host is told about. -/
inductive Report where
  /-- A builtin threw an error with the given message. -/
  | builtinThrew (name error : Text)
  | compileFailed (source : Option Text) (failure : Failure)
  | evaluationFailed (source : Option Text) (fault : Fault)
deriving DecidableEq

namespace Report

def phase : Report → Phase
  | .builtinThrew _ _ => .builtin
  | .compileFailed _ _ => .compile
  | .evaluationFailed _ _ => .evaluate

/-- The name of the builtin or the source of the expression, when known. -/
def subject? : Report → Option Text
  | .builtinThrew name _ => some name
  | .compileFailed source _ => source
  | .evaluationFailed source _ => source

def message : Report → Text
  | .builtinThrew name _ => "builtin \"" ++ name ++ "\" threw"
  | .compileFailed _ failure => "compile failed: " ++ failure.message?.getD "unknown error"
  | .evaluationFailed _ fault => "evaluation failed: " ++ fault.message

/-- The message of the error that the report is about. -/
def error : Report → Text
  | .builtinThrew _ error => error
  | r => r.message

end Report

/-- A handler of reports. It gives the message of the error that it throws, if it
    throws one. -/
abbrev Handler := Report → Option Text

-- ---------------------------------------------------------------------------
-- The log
-- ---------------------------------------------------------------------------

/-- Something that a host can observe. -/
inductive Event where
  /-- A builtin was called, at the given depth of the stack. -/
  | called (name : Text) (args : List Value) (depth : Nat)
  /-- A handler took the report. -/
  | handled (r : Report)
  /-- The report was written to the console. -/
  | printed (r : Report)
  /-- A warning was written to the console. -/
  | warned (text : Text)

/-- Events, the latest first. -/
abbrev Log := List Event

/-- How console lines begin. -/
def consoleMark : Text := "exprvm: "

/-- A line on the console: its level, its text, and the message of the error that it
    comes with. -/
structure ConsoleLine where
  level : Text
  text : Text
  error : Option Text

def Event.consoleLine? : Event → Option ConsoleLine
  | .printed r => some ⟨"error", consoleMark ++ r.message, some r.error⟩
  | .warned text => some ⟨"warn", consoleMark ++ text, none⟩
  | _ => none

/-- Hands a report to the handler, or to the console if there is none. The result
    is the longer log, or the message of what the handler throws. -/
def Log.deliver (log : Log) (handler : Option Handler) (r : Report) : Except Text Log :=
  match handler with
  | none => .ok (.printed r :: log)
  | some h =>
    match h r with
    | none => .ok (.handled r :: log)
    | some message => .error message

end Reckon
