-- SUMMARY: The infix text of an expression, for diagnostics.
import Reckon.Text.Quoted
import Reckon.Expr

/-!
# Source text

A tree is echoed as infix text. Binary and conditional nodes and groups stand
between parentheses. The text is for people: different trees may have the same.
-/

namespace Reckon

def Literal.source : Literal → Text
  | .int n => Text.ofInt n
  | .float x => x.text
  | .string s => s.quoted
  | .bool b => Value.boolText b
  | .null => "null"

namespace Expr

/-- A unary operator and its operand. -/
def unarySource (op : UnaryOp) (operand : Text) : Text :=
  match op with
  | .typeOf => "typeof " ++ operand
  | op => op.symbol ++ operand

mutual

/-- The infix text of the tree. -/
def source : Expr → Text
  | .lit l => l.source
  | .var name => name
  | .field owner name => owner ++ "." ++ name
  | .member target property => source target ++ "." ++ property
  | .computed target key => source target ++ "[" ++ source key ++ "]"
  | .index target position => source target ++ "[" ++ source position ++ "]"
  | .binary op left right => "(" ++ source left ++ " " ++ op.symbol ++ " " ++ source right ++ ")"
  | .unary op operand => unarySource op (source operand)
  | .cond test consequent alternate =>
    "(" ++ source test ++ " ? " ++ source consequent ++ " : " ++ source alternate ++ ")"
  | .call callee args => callee ++ "(" ++ Text.join ", " (sources args) ++ ")"
  | .method receiver name args =>
    source receiver ++ "." ++ name ++ "(" ++ Text.join ", " (sources args) ++ ")"
  | .group inner => "(" ++ source inner ++ ")"
  | .array elements => "[" ++ Text.join ", " (sources elements) ++ "]"
  | .object properties => "\x7b" ++ Text.join ", " (propertySources properties) ++ "\x7d"
  | .unknown _ => "<unknown>"

def sources : List Expr → List Text
  | [] => []
  | e :: es => source e :: sources es

def propertySources : List (Text × Expr) → List Text
  | [] => []
  | (k, e) :: es => (k ++ ": " ++ source e) :: propertySources es

end

end Expr

end Reckon
