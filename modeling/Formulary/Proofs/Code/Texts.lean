import Formulary.Code.Render
import Formulary.Proofs.Text.Lines

/-! The texts that code is written with.
Whoever builds a statement chooses its names, types, constants, directives and comments.  All that
rendering adds to them lies on one line, except for the braces and the body of a container.
-/

namespace Formulary

open Text

-----------------------------------------------------------------------------------------
-- Values
-----------------------------------------------------------------------------------------

/-- Every binary operator is on one line. -/
theorem BinaryOp.oneLine_symbol (op : BinaryOp)
    : OneLine op.symbol := by
  cases op <;> decide

/-- Every unary operator is on one line. -/
theorem UnaryOp.oneLine_symbol (op : UnaryOp)
    : OneLine op.symbol := by
  cases op <;> decide

namespace Value

mutual
/-- The names and constants that a value is written with. -/
def texts : Value → List String
  | var v => [v.name]
  | constant text => [text]
  | parens inner => inner.texts
  | call name args => name :: textsAll args
  | binary _ _ left right => left.texts ++ right.texts
  | unary _ _ operand => operand.texts
  | element array indices => array.name :: textsAll indices

def textsAll : List Value → List String
  | [] => []
  | value :: values => value.texts ++ textsAll values
end

/-- Indices on one line each are on one line together, by induction on the list. -/
theorem oneLine_renderIndices {indices : List Value}
    (h : ∀ text ∈ renderAll indices, OneLine text)
    : OneLine (renderIndices indices) := by
  induction indices with
  | nil => decide
  | cons index indices ih =>
      obtain ⟨hindex, hindices⟩ := List.forall_mem_cons.1 h
      simp +decide [renderIndices, hindex, ih hindices]

mutual
/-- A value is written on one line if its names and constants are.  What is written besides them has
no line end: operators, brackets, commas and blanks. -/
theorem oneLine_render (value : Value) (h : ∀ text ∈ value.texts, OneLine text)
    : OneLine value.render := by
  cases value with
  | var v => simpa [texts, render] using h
  | constant text => simpa [texts, render] using h
  | parens inner =>
      have hinner := inner.oneLine_render (by simpa only [texts] using h)
      rw [render]
      split
      · exact hinner
      · simp +decide [hinner]
  | call name args =>
      obtain ⟨hname, hargs⟩ := List.forall_mem_cons.1 (by simpa only [texts] using h)
      have hargs : OneLine (", ".intercalate (renderAll args)) :=
        oneLine_intercalate (by decide) (oneLine_renderAll args hargs)
      simp +decide [render, hname, hargs]
  | binary form op left right =>
      obtain ⟨hleft, hright⟩ := List.forall_mem_append.1 (by simpa only [texts] using h)
      have hleft := left.oneLine_render hleft
      have hright := right.oneLine_render hright
      cases form with
      | enclosed => simp +decide [render, hleft, hright, op.oneLine_symbol]
      | bare => simp +decide [render, hleft, hright, op.oneLine_symbol]
  | unary form op operand =>
      have hoperand := operand.oneLine_render (by simpa only [texts] using h)
      cases form with
      | enclosed => simp [render, hoperand, op.oneLine_symbol]
      | bare => simp +decide [render, hoperand, op.oneLine_symbol]
  | element array indices =>
      obtain ⟨hname, hindices⟩ := List.forall_mem_cons.1 (by simpa only [texts] using h)
      simp [render, hname, oneLine_renderIndices (oneLine_renderAll indices hindices)]
termination_by sizeOf value

/-- Values side by side are on one line each if their texts are. -/
theorem oneLine_renderAll (values : List Value) (h : ∀ text ∈ textsAll values, OneLine text)
    : ∀ text ∈ renderAll values, OneLine text := by
  cases values with
  | nil => simp [renderAll]
  | cons value values =>
      obtain ⟨hvalue, hvalues⟩ := List.forall_mem_append.1 (by simpa only [textsAll] using h)
      rw [renderAll]
      exact List.forall_mem_cons.2
        ⟨value.oneLine_render hvalue, oneLine_renderAll values hvalues⟩
termination_by sizeOf values
end

end Value

-----------------------------------------------------------------------------------------
-- Parts of statements
-----------------------------------------------------------------------------------------

namespace Declaration

def texts : Declaration → List String
  | scalar v => [v.type, v.name]
  | array a => [a.type, a.name]

/-- A declaration is on one line if its texts are.  The words and marks around its texts have no
line end. -/
theorem oneLine_render (declaration : Declaration) (h : ∀ text ∈ declaration.texts, OneLine text)
    : OneLine declaration.render := by
  cases declaration with
  | scalar v =>
      obtain ⟨htype, hname⟩ : OneLine v.type ∧ OneLine v.name := by simpa [texts] using h
      simp +decide [render, Variable.declare, htype, hname]
  | array a =>
      obtain ⟨htype, hname⟩ : OneLine a.type ∧ OneLine a.name := by simpa [texts] using h
      have hstars : OneLine (String.ofList (List.replicate a.dims '*')) := by
        rw [OneLine, String.toList_ofList]
        intro c hc
        simp [List.eq_of_mem_replicate hc]
      simp +decide [render, ArrayVariable.declare, htype, hname, hstars]

end Declaration

namespace Assignment

def texts (assignment : Assignment) : List String :=
  assignment.declaredType.toList ++ assignment.target.texts ++ assignment.rhs.texts

/-- An assignment is on one line if its texts are.  A loop then has assignments and updates in it
only, which are on one line themselves. -/
theorem oneLine_render (assignment : Assignment) (h : ∀ text ∈ assignment.texts, OneLine text)
    : OneLine assignment.render := by
  obtain ⟨⟨htype, htarget⟩, hrhs⟩ := by
    simpa only [texts, List.forall_mem_append] using h
  have htarget := assignment.target.oneLine_render htarget
  have hrhs := assignment.rhs.oneLine_render hrhs
  rw [render]
  cases hdeclared : assignment.declaredType with
  | none => simp +decide [htarget, hrhs]
  | some type =>
      have htype : OneLine type := by simpa [hdeclared] using htype
      simp +decide [htype, htarget, hrhs]

end Assignment

namespace Update

def texts : Update → List String
  | binary target _ value => target.texts ++ value.texts
  | unary target _ => target.texts

/-- An update is on one line if its texts are. -/
theorem oneLine_render (update : Update) (h : ∀ text ∈ update.texts, OneLine text)
    : OneLine update.render := by
  cases update with
  | binary target op value =>
      obtain ⟨htarget, hvalue⟩ := List.forall_mem_append.1 (by simpa only [texts] using h)
      simp +decide [render, target.oneLine_render htarget, op.oneLine_symbol,
        value.oneLine_render hvalue]
  | unary target op => simp [render, target.oneLine_render h, op.oneLine_symbol]

end Update

namespace Directive

def texts (directive : Directive) : List String :=
  directive.name :: directive.args

/-- A directive is on one line if its texts are. -/
theorem oneLine_render (directive : Directive) (h : ∀ text ∈ directive.texts, OneLine text)
    : OneLine directive.render := by
  obtain ⟨hname, hargs⟩ := List.forall_mem_cons.1 (by simpa only [texts] using h)
  have hargs : OneLine (" ".intercalate directive.args) :=
    oneLine_intercalate (by decide) hargs
  rw [render]
  split
  · simp +decide [hname]
  · simp +decide [hname, hargs]

end Directive

-----------------------------------------------------------------------------------------
-- Statements
-----------------------------------------------------------------------------------------

mutual
/-- The texts that a statement is written with, those of its body included. -/
def Statement.texts : Statement → List String
  | .assignment assignment => assignment.texts
  | .update update => update.texts
  | .returns value => value.toList.flatMap Value.texts
  | .declaration declaration => declaration.texts
  | .call name args => name :: Value.textsAll args
  | .directive directive => directive.texts
  | .comment text => [text]
  | .empty => []
  | .container header body _ => header.texts ++ Statement.textsAll body

def Header.texts : Header → List String
  | .forLoop init condition update => init.texts ++ condition.texts ++ update.texts
  | .whileLoop condition | .ifBlock condition | .elseIfBlock condition => condition.texts
  | .elseBlock => []
  | .function returnType name params _ =>
      returnType :: name :: params.flatMap Declaration.texts

def Statement.textsAll : List Statement → List String
  | [] => []
  | statement :: statements => statement.texts ++ Statement.textsAll statements
end

namespace Statement

/-- The texts of statements side by side come one behind the other, by induction on the list. -/
theorem textsAll_eq_flatMap (statements : List Statement)
    : textsAll statements = statements.flatMap texts := by
  induction statements with
  | nil => rfl
  | cons statement statements ih => rw [textsAll, ih, List.flatMap_cons]

def isContainer : Statement → Bool
  | container _ _ _ => true
  | _ => false

/-- Every statement that is no container is written on one line if its texts are. -/
theorem oneLine_render {statement : Statement} (hsimple : statement.isContainer = false)
    (h : ∀ text ∈ statement.texts, OneLine text)
    : OneLine statement.render := by
  cases statement with
  | assignment assignment => exact assignment.oneLine_render h
  | update update => exact update.oneLine_render h
  | returns value =>
      cases value with
      | none => decide
      | some value => simp +decide [render, value.oneLine_render (by simpa [texts] using h)]
  | declaration declaration => exact declaration.oneLine_render h
  | call name args => exact (Value.call name args).oneLine_render h
  | directive directive => exact directive.oneLine_render h
  | comment text => simpa [texts, render] using h
  | empty => decide
  | container header body spaced => cases hsimple

end Statement

namespace Header

/-- Holds of headers whose parts are no containers. -/
def isPlain : Header → Bool
  | forLoop init _ update => !init.isContainer && !update.isContainer
  | _ => true

/-- A header without containers is written on one line if its texts are. -/
theorem oneLine_render {header : Header} (hplain : header.isPlain = true)
    (h : ∀ text ∈ header.texts, OneLine text)
    : OneLine header.render := by
  cases header with
  | forLoop init condition update =>
      obtain ⟨⟨hinit, hcondition⟩, hupdate⟩ := by
        simpa only [texts, List.forall_mem_append] using h
      obtain ⟨hinitSimple, hupdateSimple⟩
          : init.isContainer = false ∧ update.isContainer = false := by
        simpa [isPlain] using hplain
      simp +decide [render, init.oneLine_render hinitSimple hinit,
        condition.oneLine_render hcondition, update.oneLine_render hupdateSimple hupdate]
  | whileLoop condition => simp +decide [render, condition.oneLine_render h]
  | ifBlock condition => simp +decide [render, condition.oneLine_render h]
  | elseIfBlock condition => simp +decide [render, condition.oneLine_render h]
  | elseBlock => decide
  | function returnType name params isPrototype =>
      obtain ⟨htype, hname, hparams⟩ := by
        simpa only [texts, List.forall_mem_cons] using h
      have hparams : OneLine (", ".intercalate (params.map Declaration.render)) := by
        refine oneLine_intercalate (by decide) (List.forall_mem_map.2 fun declaration hmem => ?_)
        exact declaration.oneLine_render fun text htext =>
          hparams text (List.mem_flatMap.2 ⟨declaration, hmem, htext⟩)
      simp +decide [render, htype, hname, hparams]

/-- A header always has a character that is no blank. -/
theorem isBlankText_render (header : Header)
    : isBlankText header.render = false := by
  cases header <;> simp +decide [render]

end Header

end Formulary
