-- SUMMARY: The structural key of an expression, by which compiled code is found again.
import Reckon.Text.Quoted
import Reckon.Expr

/-!
# Structural keys

Two trees have the same key if they are built alike. Every kind of node has a
mark of its own and every name is quoted, so that the key can be read back into
the tree; nodes of unknown kinds share one key, and so do all not-a-numbers.
-/

namespace Reckon

def Literal.key : Literal → Text
  | .int n => "i" ++ Text.ofInt n
  | .float x => "f" ++ x.constantText
  | .string s => "s" ++ s.quoted
  | .bool b => if b then "T" else "F"
  | .null => "N"

namespace Expr

mutual

/-- The structural key of the tree. -/
def key : Expr → Text
  | .lit l => l.key
  | .var name => "v" ++ name.quoted
  | .field owner name => "p" ++ owner.quoted ++ "." ++ name.quoted
  | .member target property => "m(" ++ key target ++ ")." ++ property.quoted
  | .computed target k => "c(" ++ key target ++ ")[" ++ key k ++ "]"
  | .index target position => "x(" ++ key target ++ ")[" ++ key position ++ "]"
  | .binary op left right => "b" ++ op.symbol ++ "(" ++ key left ++ "," ++ key right ++ ")"
  | .unary op operand => "u" ++ op.symbol ++ "(" ++ key operand ++ ")"
  | .cond test consequent alternate =>
    "t(" ++ key test ++ "," ++ key consequent ++ "," ++ key alternate ++ ")"
  | .call callee args => "f" ++ callee.quoted ++ "(" ++ Text.join "," (keys args) ++ ")"
  | .method receiver name args =>
    "k(" ++ key receiver ++ ")." ++ name.quoted ++ "(" ++ Text.join "," (keys args) ++ ")"
  | .group inner => "g(" ++ key inner ++ ")"
  | .array elements => "a[" ++ Text.join "," (keys elements) ++ "]"
  | .object properties => "o\x7b" ++ Text.join "," (propertyKeys properties) ++ "\x7d"
  | .unknown _ => "?"

def keys : List Expr → List Text
  | [] => []
  | e :: es => key e :: keys es

def propertyKeys : List (Text × Expr) → List Text
  | [] => []
  | (k, e) :: es => (k.quoted ++ ":" ++ key e) :: propertyKeys es

end

end Expr

end Reckon
