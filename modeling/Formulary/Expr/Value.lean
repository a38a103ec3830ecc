import Formulary.Diagnostic
import Formulary.Expr.Operator
import Formulary.Text

/-! Expression values, their equality and their texts.
A value is what an expression denotes before it is written out: variables, constants, groups,
calls, operators with their operands, and elements of arrays.  Groups take no part in equality, and
variables and constants compare by their text; a bare operation differs from an enclosed one.  When
written, an enclosed binary operation has parentheses of its own, so a group around one adds none.
The structural text shows every constructor and every field instead, types included.
-/

namespace Formulary

-----------------------------------------------------------------------------------------
-- Values
-----------------------------------------------------------------------------------------

/-- The type of variables that are declared without one. -/
def defaultType : String :=
  "double"

/-- A variable with its type.  Its identity is its name alone. -/
structure Variable where
  name : String
  type : String := defaultType
deriving DecidableEq, Repr

/-- An array with as many indirections as it has dimensions. -/
structure ArrayVariable where
  name : String
  type : String
  dims : Nat
deriving DecidableEq, Repr

/-- Whether a value with an operator is enclosed in parentheses of its own, or stands bare as the
condition of a control-flow header. -/
inductive Form where
  | enclosed
  | bare
deriving DecidableEq, Repr

/-- What an expression denotes. -/
inductive Value where
  | var (v : Variable)
  | constant (text : String)
  | parens (inner : Value)
  | call (name : String) (args : List Value)
  | binary (form : Form) (op : BinaryOp) (left right : Value)
  | unary (form : Form) (op : UnaryOp) (operand : Value)
  | element (array : ArrayVariable) (indices : List Value)

/-- Why parts do not make up a value or a statement. -/
inductive ModelError where
  | operandCount (op : Operator)
  | updateOperands (op : Operator)
  | indexCount (array : ArrayVariable) (found : Nat)
  | emptyReduction (op : BinaryOp)
deriving DecidableEq, Repr

namespace ModelError

def diagnostic : ModelError → Diagnostic
  | operandCount op =>
      ⟨.model, .arityMismatch, none,
        some ("operator '" ++ op.symbol ++ "' takes " ++ toString op.arity ++ " operands")⟩
  | updateOperands op =>
      ⟨.model, .arityMismatch, none,
        some ("update with '" ++ op.symbol ++ "' takes " ++ toString op.arity ++ " operands")⟩
  | indexCount array found =>
      ⟨.model, .arityMismatch, none,
        some ("array " ++ array.name ++ " has " ++ toString array.dims
          ++ " dimensions but was indexed with " ++ toString found)⟩
  | emptyReduction op =>
      ⟨.model, .emptyReduction, none,
        some ("cannot reduce zero values with '" ++ op.symbol ++ "'")⟩

end ModelError

namespace Value

/-- The variable of the default type with a name. -/
def named (name : String) : Value :=
  var { name }

/-- Applies an operator to as many operands as it takes. -/
def operate (form : Form) (op : Operator) (left : Value) (right : Option Value)
    : Except ModelError Value :=
  match op, right with
  | .binary op, some right => .ok (binary form op left right)
  | .unary op, none => .ok (unary form op left)
  | op, _ => .error (.operandCount op)

/-- The element of an array at one index for each dimension. -/
def elementAt (array : ArrayVariable) (indices : List Value) : Except ModelError Value :=
  if indices.length = array.dims then .ok (element array indices)
  else .error (.indexCount array indices.length)

/-- Joins values with a binary operator from left to right: `a`, `b`, `c` become
`((a op b) op c)`. -/
def reduce (op : BinaryOp) : List Value → Except ModelError Value
  | [] => .error (.emptyReduction op)
  | first :: rest => .ok (rest.foldl (binary .enclosed op) first)

def product (values : List Value) : Except ModelError Value :=
  reduce .mul values

/-- The conjunction of conditions. -/
def all (conditions : List Value) : Except ModelError Value :=
  reduce .and conditions

/-- The disjunction of conditions. -/
def any (conditions : List Value) : Except ModelError Value :=
  reduce .or conditions

/-- A value without the groups around it. -/
def ungrouped : Value → Value
  | parens inner => inner.ungrouped
  | value => value

/-- The text of a variable or a constant. -/
def nameText? : Value → Option String
  | var v => some v.name
  | constant text => some text
  | _ => none

end Value

-----------------------------------------------------------------------------------------
-- Equality
-----------------------------------------------------------------------------------------

namespace Value

mutual
/-- Whether two values are equal. -/
def same : Value → Value → Bool
  | var v, other => other.ungrouped.nameText? == some v.name
  | constant text, other => other.ungrouped.nameText? == some text
  | parens inner, other => same inner other
  | call name args, other =>
      match other.ungrouped with
      | call name' args' => name == name' && sameAll args args'
      | _ => false
  | binary form op left right, other =>
      match other.ungrouped with
      | binary form' op' left' right' =>
          form == form' && op == op' && same left left' && same right right'
      | _ => false
  | unary form op operand, other =>
      match other.ungrouped with
      | unary form' op' operand' => form == form' && op == op' && same operand operand'
      | _ => false
  | element array indices, other =>
      match other.ungrouped with
      | element array' indices' => array == array' && sameAll indices indices'
      | _ => false

/-- Whether two lists of values are equal member by member. -/
def sameAll : List Value → List Value → Bool
  | [], [] => true
  | value :: values, other :: others => same value other && sameAll values others
  | _, _ => false
end

instance : BEq Value := ⟨same⟩

end Value

-----------------------------------------------------------------------------------------
-- The written form
-----------------------------------------------------------------------------------------

namespace Value

/-- Holds of values that write parentheses around themselves. -/
def isSelfEnclosed : Value → Bool
  | binary .enclosed _ _ _ => true
  | _ => false

mutual
/-- The written form of a value. -/
def render : Value → String
  | var v => v.name
  | constant text => text
  | parens inner => if inner.isSelfEnclosed then inner.render else "(" ++ inner.render ++ ")"
  | call name args => name ++ "(" ++ ", ".intercalate (renderAll args) ++ ")"
  | binary .enclosed op left right =>
      "(" ++ left.render ++ " " ++ op.symbol ++ " " ++ right.render ++ ")"
  | binary .bare op left right => left.render ++ " " ++ op.symbol ++ " " ++ right.render
  | unary .enclosed op operand => op.symbol ++ operand.render
  | unary .bare op operand => op.symbol ++ "(" ++ operand.render ++ ")"
  | element array indices => array.name ++ renderIndices indices

/-- The written forms of values, in order. -/
def renderAll : List Value → List String
  | [] => []
  | value :: values => value.render :: renderAll values

/-- The indices of an element, each in brackets. -/
def renderIndices : List Value → String
  | [] => ""
  | index :: indices => "[" ++ index.render ++ "]" ++ renderIndices indices
end

/-- Values side by side are emitted one by one, by induction on the list. -/
theorem renderAll_eq_map (values : List Value)
    : renderAll values = values.map render := by
  induction values with
  | nil => rfl
  | cons value values ih => simp [renderAll, ih]

end Value

-----------------------------------------------------------------------------------------
-- The structural text
-----------------------------------------------------------------------------------------

namespace Variable

def inspect (v : Variable) : String :=
  "Variable \x7b name: " ++ Text.quote v.name ++ ", type_tag: " ++ Text.quote v.type ++ " \x7d"

end Variable

namespace ArrayVariable

def inspect (array : ArrayVariable) : String :=
  "Array \x7b name: " ++ Text.quote array.name ++ ", type_tag: " ++ Text.quote array.type
    ++ ", dims: " ++ toString array.dims ++ " \x7d"

end ArrayVariable

namespace Form

/-- The word that opens the structural text of an operation. -/
def name : Form → String
  | enclosed => "OpTree"
  | bare => "Condition"

end Form

namespace Value

/-- An operator with the structural texts of its operands. -/
def inspectOperation (form : Form) (op : Operator) (left right : String) : String :=
  form.name ++ "(OpTree \x7b op: " ++ op.inspect ++ ", left: " ++ left ++ ", right: " ++ right
    ++ " \x7d)"

mutual
/-- The structural text of a value. -/
def inspect : Value → String
  | var v => "Variable(" ++ v.inspect ++ ")"
  | constant text => "Constant(" ++ Text.quote text ++ ")"
  | parens inner => "Parens(" ++ inner.inspect ++ ")"
  | call name args =>
      "Call(Call \x7b name: " ++ Text.quote name ++ ", args: ["
        ++ ", ".intercalate (inspectAll args) ++ "] \x7d)"
  | binary form op left right =>
      inspectOperation form (.binary op) left.inspect ("Some(" ++ right.inspect ++ ")")
  | unary form op operand => inspectOperation form (.unary op) operand.inspect "None"
  | element array indices =>
      "Element(Element \x7b array: " ++ array.inspect ++ ", indices: ["
        ++ ", ".intercalate (inspectAll indices) ++ "] \x7d)"

/-- The structural texts of values, in order. -/
def inspectAll : List Value → List String
  | [] => []
  | value :: values => value.inspect :: inspectAll values
end

end Value

end Formulary
