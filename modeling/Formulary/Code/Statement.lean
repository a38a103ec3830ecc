import Formulary.Expr.Value

/-! Statements of generated code and their equality.
Containers, such as loops, branches and functions, hold further statements; everything else is a
simple statement.  Equality follows the structure of statements and compares the values in them as
values.  Variables are equal when their names are, so the types of parameters take no part in it,
those of arrays do.
-/

namespace Formulary

-----------------------------------------------------------------------------------------
-- Statements
-----------------------------------------------------------------------------------------

/-- A variable or an array as a declaration introduces it. -/
inductive Declaration where
  | scalar (v : Variable)
  | array (array : ArrayVariable)

/-- An assignment, which may declare its target at the same time. -/
structure Assignment where
  target : Value
  rhs : Value
  /-- The type of a target that is declared here. -/
  declaredType : Option String

/-- A change of a value in place. -/
inductive Update where
  | binary (target : Value) (op : BinaryOp) (value : Value)
  | unary (target : Value) (op : UnaryOp)

/-- A preprocessor line. -/
structure Directive where
  name : String
  args : List String
deriving DecidableEq, Repr

mutual
/-- A statement.  The text of a comment is formatted beforehand. -/
inductive Statement where
  | assignment (assignment : Assignment)
  | update (update : Update)
  | returns (value : Option Value)
  | declaration (declaration : Declaration)
  | call (name : String) (args : List Value)
  | directive (directive : Directive)
  | comment (text : String)
  | empty
  /-- A header with a braced body, followed by a blank line if it is spaced. -/
  | container (header : Header) (body : List Statement) (spaced : Bool)

/-- What opens a container.  The prototype of a function has no body. -/
inductive Header where
  | forLoop (init : Statement) (condition : Value) (update : Statement)
  | whileLoop (condition : Value)
  | ifBlock (condition : Value)
  | elseIfBlock (condition : Value)
  | elseBlock
  | function (returnType name : String) (params : List Declaration) (isPrototype : Bool)
end

namespace Assignment

/-- Assigns to what exists already. -/
def ofTarget (target rhs : Value) : Assignment :=
  ⟨target, rhs, none⟩

/-- Declares a variable and initializes it. -/
def declare (v : Variable) (rhs : Value) : Assignment :=
  ⟨.var v, rhs, some v.type⟩

def isDeclaration (assignment : Assignment) : Bool :=
  assignment.declaredType.isSome

end Assignment

namespace Update

/-- Updates a target by an operator with as many operands as it takes. -/
def operate (target : Value) (op : Operator) (value : Option Value) : Except ModelError Update :=
  match op, value with
  | .binary op, some value => .ok (binary target op value)
  | .unary op, none => .ok (unary target op)
  | op, _ => .error (.updateOperands op)

end Update

namespace Directive

/-- A file included locally is quoted, any other is put in angle brackets. -/
def inclusion (file : String) (isLocal : Bool) : Directive :=
  ⟨"include", [if isLocal then "\"" ++ file ++ "\"" else "<" ++ file ++ ">"]⟩

def definition (name : String) (value : Option String) : Directive :=
  ⟨"define", name :: value.toList⟩

end Directive

namespace Header

def isPrototype : Header → Bool
  | function _ _ _ prototype => prototype
  | _ => false

end Header

/-- A container as a value of its own. -/
structure Container where
  header : Header
  body : List Statement
  /-- Whether a blank line follows. -/
  spaced : Bool

namespace Container

def statement (container : Container) : Statement :=
  .container container.header container.body container.spaced

def forLoop (init : Statement) (condition : Value) (update : Statement) (body : List Statement)
    : Container :=
  ⟨.forLoop init condition update, body, false⟩

def whileLoop (condition : Value) (body : List Statement) : Container :=
  ⟨.whileLoop condition, body, false⟩

/-- A branch; a chained one continues the branch before it. -/
def ifBlock (condition : Value) (body : List Statement) (chained : Bool) : Container :=
  ⟨if chained then .elseIfBlock condition else .ifBlock condition, body, false⟩

def elseBlock (body : List Statement) : Container :=
  ⟨.elseBlock, body, false⟩

/-- A function definition, which a blank line follows. -/
def function (returnType name : String) (params : List Declaration) (body : List Statement)
    : Container :=
  ⟨.function returnType name params false, body, true⟩

/-- The prototype of a function. -/
def declaration? (container : Container) : Option Container :=
  match container.header with
  | .function returnType name params _ => some ⟨.function returnType name params true, [], false⟩
  | _ => none

def isPrototype (container : Container) : Bool :=
  container.header.isPrototype

/-- The loop that counts a variable from a start up to an end. -/
def forRange (v : Variable) (start stop : Value) (body : List Statement) : Container :=
  forLoop (.assignment (.declare v start)) (.binary .bare .lt (.var v) stop)
    (.update (.unary (.var v) .increment)) body

end Container

-----------------------------------------------------------------------------------------
-- Equality
-----------------------------------------------------------------------------------------

namespace Declaration

def same : Declaration → Declaration → Bool
  | scalar v, scalar w => v.name == w.name
  | array a, array b => a == b
  | _, _ => false

def sameAll : List Declaration → List Declaration → Bool
  | [], [] => true
  | d :: ds, e :: es => same d e && sameAll ds es
  | _, _ => false

end Declaration

namespace Assignment

def same (a b : Assignment) : Bool :=
  a.target == b.target && a.rhs == b.rhs && a.declaredType == b.declaredType

end Assignment

namespace Update

def same : Update → Update → Bool
  | binary target op value, binary target' op' value' =>
      target == target' && op == op' && value == value'
  | unary target op, unary target' op' => target == target' && op == op'
  | _, _ => false

end Update

mutual
/-- Whether two statements are equal. -/
def Statement.same : Statement → Statement → Bool
  | .assignment a, .assignment b => a.same b
  | .update u, .update w => u.same w
  | .returns (some v), .returns (some w) => v == w
  | .returns none, .returns none => true
  | .declaration d, .declaration e => d.same e
  | .call name args, .call name' args' => name == name' && Value.sameAll args args'
  | .directive d, .directive e => d == e
  | .comment text, .comment text' => text == text'
  | .empty, .empty => true
  | .container header body spaced, .container header' body' spaced' =>
      header.same header' && Statement.sameAll body body' && spaced == spaced'
  | _, _ => false

def Header.same : Header → Header → Bool
  | .forLoop init condition update, .forLoop init' condition' update' =>
      init.same init' && condition == condition' && update.same update'
  | .whileLoop condition, .whileLoop condition' => condition == condition'
  | .ifBlock condition, .ifBlock condition' => condition == condition'
  | .elseIfBlock condition, .elseIfBlock condition' => condition == condition'
  | .elseBlock, .elseBlock => true
  | .function returnType name params prototype, .function returnType' name' params' prototype' =>
      returnType == returnType' && name == name' && Declaration.sameAll params params'
        && prototype == prototype'
  | _, _ => false

def Statement.sameAll : List Statement → List Statement → Bool
  | [], [] => true
  | s :: ss, t :: ts => s.same t && Statement.sameAll ss ts
  | _, _ => false
end

instance : BEq Statement := ⟨Statement.same⟩

end Formulary
