/-! Operators of expressions.
An operator is identified by its symbol together with the number of its operands, so the binary
and the unary `-` are different operators.
-/

namespace Formulary

/-- Operators between two operands, those that update their left operand included. -/
inductive BinaryOp where
  | lt
  | le
  | gt
  | ge
  | eq
  | ne
  | and
  | or
  | add
  | sub
  | mul
  | div
  | addAssign
  | subAssign
  | mulAssign
  | divAssign
deriving DecidableEq, Repr

namespace BinaryOp

/-- Every binary operator once. -/
def all : List BinaryOp :=
  [
    lt, le, gt, ge, eq, ne, and, or, add, sub, mul, div, addAssign, subAssign, mulAssign,
    divAssign
  ]

def symbol : BinaryOp → String
  | lt => "<"
  | le => "<="
  | gt => ">"
  | ge => ">="
  | eq => "=="
  | ne => "!="
  | and => "&&"
  | or => "||"
  | add => "+"
  | sub => "-"
  | mul => "*"
  | div => "/"
  | addAssign => "+="
  | subAssign => "-="
  | mulAssign => "*="
  | divAssign => "/="

/-- The name in the structural text of values. -/
def name : BinaryOp → String
  | lt => "Lt"
  | le => "Lte"
  | gt => "Gt"
  | ge => "Gte"
  | eq => "Eq"
  | ne => "Neq"
  | and => "And"
  | or => "Or"
  | add => "Add"
  | sub => "Sub"
  | mul => "Mul"
  | div => "Div"
  | addAssign => "AddAssign"
  | subAssign => "SubAssign"
  | mulAssign => "MulAssign"
  | divAssign => "DivAssign"

/-- The binary operator with a symbol. -/
def ofSymbol? (text : String) : Option BinaryOp :=
  all.find? fun op => op.symbol == text

end BinaryOp

/-- Operators in front of, or behind, a single operand. -/
inductive UnaryOp where
  | not
  | negative
  | increment
  | decrement
deriving DecidableEq, Repr

namespace UnaryOp

def symbol : UnaryOp → String
  | not => "!"
  | negative => "-"
  | increment => "++"
  | decrement => "--"

/-- The name in the structural text of values. -/
def name : UnaryOp → String
  | not => "Not"
  | negative => "Negative"
  | increment => "Increment"
  | decrement => "Decrement"

end UnaryOp

/-- An operator together with the number of its operands. -/
inductive Operator where
  | binary (op : BinaryOp)
  | unary (op : UnaryOp)
deriving DecidableEq, Repr

namespace Operator

def symbol : Operator → String
  | binary op => op.symbol
  | unary op => op.symbol

/-- The number of operands. -/
def arity : Operator → Nat
  | binary _ => 2
  | unary _ => 1

/-- The structural text. -/
def inspect : Operator → String
  | binary op => "Binary(" ++ op.name ++ ")"
  | unary op => "Unary(" ++ op.name ++ ")"

end Operator

end Formulary
