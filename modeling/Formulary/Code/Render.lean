import Formulary.Code.Statement
import Formulary.Expr.Value
import Formulary.Text

/-! The text of statements and of source files.
A statement line ends in a semicolon unless it is a comment, a directive or a container with a
body.  The lines of a body are indented by two spaces and its blank lines are dropped.  A source
file has a leading comment, an include guard, includes, defines and a body, each section that is
there followed by a blank line.  The guard spans everything after the comment.
-/

namespace Formulary

-----------------------------------------------------------------------------------------
-- Statements
-----------------------------------------------------------------------------------------

namespace Variable

/-- The variable as a declaration shows it. -/
def declare (v : Variable) : String :=
  v.type ++ " " ++ v.name

end Variable

namespace ArrayVariable

/-- The array as a declaration shows it, one star for each dimension. -/
def declare (array : ArrayVariable) : String :=
  array.type ++ String.ofList (List.replicate array.dims '*') ++ " " ++ array.name

end ArrayVariable

namespace Declaration

def render : Declaration → String
  | scalar v => v.declare
  | array a => a.declare

end Declaration

namespace Assignment

def render (assignment : Assignment) : String :=
  let assigned := assignment.target.render ++ " = " ++ assignment.rhs.render
  match assignment.declaredType with
  | some type => type ++ " " ++ assigned
  | none => assigned

end Assignment

namespace Update

def render : Update → String
  | binary target op value => target.render ++ " " ++ op.symbol ++ " " ++ value.render
  | unary target op => target.render ++ op.symbol

end Update

namespace Directive

def render (directive : Directive) : String :=
  if directive.args.isEmpty then "#" ++ directive.name
  else "#" ++ directive.name ++ " " ++ " ".intercalate directive.args

end Directive

namespace Statement

/-- Whether a semicolon ends the statement. -/
def takesSeparator : Statement → Bool
  | container header _ _ => header.isPrototype
  | directive _ | comment _ | empty => false
  | _ => true

/-- Whether a blank line follows the statement. -/
def isSpaced : Statement → Bool
  | container header _ spaced => spaced && !header.isPrototype
  | _ => false

/-- The statement's text among others, trimmed and with what ends it. -/
def finish (statement : Statement) (text : String) : String :=
  let line := Text.trim text
  line ++ (if line ≠ "" && statement.takesSeparator then ";" else "")
    ++ (if statement.isSpaced then "\n" else "")

end Statement

/-- The lines of a body, indented, without the blank ones. -/
def indentBody (body : String) : String :=
  String.join (((Text.lines body).filter (!Text.isBlankText ·)).map Text.indentLine)

mutual
/-- The text of a statement by itself. -/
def Statement.render : Statement → String
  | .assignment assignment => assignment.render
  | .update update => update.render
  | .returns (some value) => "return " ++ value.render
  | .returns none => "return"
  | .declaration declaration => declaration.render
  | .call name args => (Value.call name args).render
  | .directive directive => directive.render
  | .comment text => text
  | .empty => ""
  | .container header body _ =>
      if header.isPrototype then header.render
      else
        header.render ++ " \x7b\n" ++ indentBody ("\n".intercalate (Statement.finishAll body))
          ++ "\x7d"

/-- The text of a header. -/
def Header.render : Header → String
  | .forLoop init condition update =>
      "for (" ++ init.render ++ "; " ++ condition.render ++ "; " ++ update.render ++ ")"
  | .whileLoop condition => "while (" ++ condition.render ++ ")"
  | .ifBlock condition => "if (" ++ condition.render ++ ")"
  | .elseIfBlock condition => "else if (" ++ condition.render ++ ")"
  | .elseBlock => "else"
  | .function returnType name params _ =>
      returnType ++ " " ++ name ++ "(" ++ ", ".intercalate (params.map Declaration.render) ++ ")"

/-- The finished texts of statements, in order. -/
def Statement.finishAll : List Statement → List String
  | [] => []
  | statement :: statements => statement.finish statement.render :: Statement.finishAll statements
end

/-- Statements side by side are finished one by one, by induction on the list. -/
theorem Statement.finishAll_eq_map (statements : List Statement)
    : Statement.finishAll statements
      = statements.map fun statement => statement.finish statement.render := by
  induction statements with
  | nil => rfl
  | cons statement statements ih => simp [Statement.finishAll, ih]

/-- The text of a block of statements. -/
def renderBlock (statements : List Statement) : String :=
  "\n".intercalate (Statement.finishAll statements)

-----------------------------------------------------------------------------------------
-- Source files
-----------------------------------------------------------------------------------------

/-- The sections of a source file. -/
structure SourceFile where
  comment : Option String
  guard : Option String
  includes : List Directive
  defines : List Directive
  body : List Statement

namespace SourceFile

def empty : SourceFile :=
  ⟨none, none, [], [], []⟩

/-- Puts a comment in the place of any earlier one. -/
def setComment (file : SourceFile) (text : String) : SourceFile :=
  { file with comment := some text }

/-- Puts a guard in the place of any earlier one. -/
def setGuard (file : SourceFile) (name : String) : SourceFile :=
  { file with guard := some name }

def addInclude (file : SourceFile) (name : String) (isLocal : Bool) : SourceFile :=
  { file with includes := file.includes ++ [.inclusion name isLocal] }

def addDefine (file : SourceFile) (name : String) (value : Option String) : SourceFile :=
  { file with defines := file.defines ++ [.definition name value] }

/-- Adds statements at the end of the body. -/
def extend (file : SourceFile) (statements : List Statement) : SourceFile :=
  { file with body := file.body ++ statements }

def push (file : SourceFile) (statement : Statement) : SourceFile :=
  file.extend [statement]

/-- Directives followed by a blank line, if there are any. -/
def directiveSection (directives : List Directive) : List Statement :=
  if directives.isEmpty then [] else directives.map .directive ++ [.empty]

/-- All lines of the file as statements. -/
def statements (file : SourceFile) : List Statement :=
  let comment :=
    match file.comment with
    | some text => [.comment text, .empty]
    | none => []
  let opening :=
    match file.guard with
    | some name => [.directive ⟨"ifndef", [name]⟩, .directive (.definition name none), .empty]
    | none => []
  let closing :=
    match file.guard with
    | some _ => [.empty, .directive ⟨"endif", []⟩]
    | none => []
  comment ++ opening ++ directiveSection file.includes ++ directiveSection file.defines
    ++ file.body ++ closing

/-- The text of the file. -/
def render (file : SourceFile) : String :=
  renderBlock file.statements

end SourceFile

end Formulary
