-- SUMMARY: Expression trees: literals, names, access, operators, calls, containers, and nodes of an unknown kind.
import Reckon.Value.Operators

/-!
# Expressions

An expression is a tree. A node whose kind is not one of the kinds below is
kept with the name of its kind and stands for null.
-/

namespace Reckon

/-- A literal. An integer literal may lie outside the range of 64 bits; its value
    is wrapped. -/
inductive Literal where
  | int (n : Int)
  | float (x : Double)
  | string (s : Text)
  | bool (b : Bool)
  | null
deriving DecidableEq

namespace Literal

def value : Literal → Value
  | .int n => .ofInt n
  | .float x => .float x
  | .string s => .string s
  | .bool b => .bool b
  | .null => .null

/-- The literal of a scalar value. A string without data has the empty one, and
    containers have none. -/
def ofValue? : Value → Option Literal
  | .null => some .null
  | .int n => some (.int n)
  | .float x => some (.float x)
  | .bool b => some (.bool b)
  | .string s => some (.string s)
  | .absent .string => some (.string Text.empty)
  | _ => none

end Literal

/-- An expression tree. -/
inductive Expr where
  | lit (l : Literal)
  /-- A variable. -/
  | var (name : Text)
  /-- A field of a variable. -/
  | field (owner name : Text)
  | member (object : Expr) (property : Text)
  | computed (object key : Expr)
  | index (array position : Expr)
  | binary (op : BinaryOp) (left right : Expr)
  | unary (op : UnaryOp) (operand : Expr)
  | cond (test consequent alternate : Expr)
  | call (callee : Text) (args : List Expr)
  | method (receiver : Expr) (name : Text) (args : List Expr)
  | group (inner : Expr)
  | array (elements : List Expr)
  | object (properties : List (Text × Expr))
  | unknown (kind : Text)
deriving Inhabited

namespace Expr

def literal? : Expr → Option Literal
  | .lit l => some l
  | _ => none

/-- The name of a node's kind. -/
def kind : Expr → Text
  | .lit (.int _) => "IntLiteral"
  | .lit (.float _) => "FloatLiteral"
  | .lit (.string _) => "StringLiteral"
  | .lit (.bool _) => "BooleanLiteral"
  | .lit .null => "NullLiteral"
  | .var _ => "Identifier"
  | .field _ _ => "PropertyRef"
  | .member _ _ => "MemberAccess"
  | .computed _ _ => "ComputedMember"
  | .index _ _ => "IndexAccess"
  | .binary _ _ _ => "BinaryExpression"
  | .unary _ _ => "UnaryExpression"
  | .cond _ _ _ => "ConditionalExpression"
  | .call _ _ => "CallExpression"
  | .method _ _ _ => "MethodCall"
  | .group _ => "GroupExpression"
  | .array _ => "ArrayLiteral"
  | .object _ => "ObjectLiteral"
  | .unknown kind => kind

/-- The object literal of a host object whose properties are defined in the given
    order. -/
def ofHostProperties (properties : List (Text × Expr)) : Expr :=
  .object (Entries.ofHost properties)

-- ---------------------------------------------------------------------------
-- Variables
-- ---------------------------------------------------------------------------

mutual

/-- The variables that the tree names, in order of occurrence, with repetition. -/
def reads : Expr → List Text
  | .lit _ => []
  | .var name => [name]
  | .field owner _ => [owner]
  | .member target _ => reads target
  | .computed target key => reads target ++ reads key
  | .index target position => reads target ++ reads position
  | .binary _ left right => reads left ++ reads right
  | .unary _ operand => reads operand
  | .cond test consequent alternate => reads test ++ reads consequent ++ reads alternate
  | .call _ args => readsAll args
  | .method receiver _ args => reads receiver ++ readsAll args
  | .group inner => reads inner
  | .array elements => readsAll elements
  | .object properties => readsProperties properties
  | .unknown _ => []

def readsAll : List Expr → List Text
  | [] => []
  | e :: es => reads e ++ readsAll es

def readsProperties : List (Text × Expr) → List Text
  | [] => []
  | (_, e) :: es => reads e ++ readsProperties es

end

/-- The variables that the tree names, each once, in the order of their first
    occurrences. -/
def variableNames (e : Expr) : List Text := e.reads.eraseDups

end Expr

end Reckon
