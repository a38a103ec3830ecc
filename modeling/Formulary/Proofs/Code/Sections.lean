import Formulary.Code.Render
import Formulary.Proofs.Code.Layout
import Formulary.Proofs.Text.Lines
import Formulary.Proofs.Token.Pattern

/-! Source files by the calls that build them.
The last comment and the last guard count, and every include, define and statement is kept behind
the earlier ones of its kind, so how calls of different kinds are mixed does not matter.  The lines
of a guarded file stand in one order, with nothing but the comment outside the guard.
-/

namespace Formulary

open Text

namespace SourceFile

-----------------------------------------------------------------------------------------
-- Calls
-----------------------------------------------------------------------------------------

/-- A call that changes a source file. -/
inductive Call where
  | comment (text : String)
  | guard (name : String)
  | inclusion (name : String) (isLocal : Bool)
  | definition (name : String) (value : Option String)
  | push (statement : Statement)
  | extend (statements : List Statement)

namespace Call

def apply (file : SourceFile) : Call → SourceFile
  | comment text => file.setComment text
  | guard name => file.setGuard name
  | inclusion name isLocal => file.addInclude name isLocal
  | definition name value => file.addDefine name value
  | push statement => file.push statement
  | extend statements => file.extend statements

def comment? : Call → Option String
  | comment text => some text
  | _ => none

def guard? : Call → Option String
  | guard name => some name
  | _ => none

def include? : Call → Option Directive
  | inclusion name isLocal => some (.inclusion name isLocal)
  | _ => none

def define? : Call → Option Directive
  | definition name value => some (.definition name value)
  | _ => none

/-- What the call adds to the body. -/
def statements : Call → List Statement
  | push statement => [statement]
  | extend statements => statements
  | _ => []

end Call

/-- The file after calls in order. -/
def build (calls : List Call) : SourceFile :=
  calls.foldl Call.apply empty

/-- Holds of calls that end in the same comment and guard and add the same includes, defines and
statements, each kind in the same order. -/
structure SameSections (calls others : List Call) : Prop where
  comment
    : (calls.filterMap Call.comment?).getLast? = (others.filterMap Call.comment?).getLast?
  guard : (calls.filterMap Call.guard?).getLast? = (others.filterMap Call.guard?).getLast?
  includes : calls.filterMap Call.include? = others.filterMap Call.include?
  defines : calls.filterMap Call.define? = others.filterMap Call.define?
  body : calls.flatMap Call.statements = others.flatMap Call.statements

/-- A file is built of the last comment and guard and of all that is added to the other sections, by
induction on the calls from the last one. -/
theorem build_eq (calls : List Call)
    : build calls
      = {
        comment := (calls.filterMap Call.comment?).getLast?
        guard := (calls.filterMap Call.guard?).getLast?
        includes := calls.filterMap Call.include?
        defines := calls.filterMap Call.define?
        body := calls.flatMap Call.statements
      } := by
  induction calls using List.reverseRecOn with
  | nil => rfl
  | append_singleton calls call ih =>
      have hlast : build (calls ++ [call]) = call.apply (build calls) := List.foldl_concat ..
      rw [hlast, ih]
      cases call <;>
        simp [Call.apply, setComment, setGuard, addInclude, addDefine, push, extend,
          Call.comment?, Call.guard?, Call.include?, Call.define?, Call.statements]

/-- Files are built alike from calls that agree section by section. -/
theorem SameSections.build_eq_build {calls others : List Call} (h : SameSections calls others)
    : build calls = build others := by
  rw [build_eq, build_eq, h.comment, h.guard, h.includes, h.defines, h.body]

-----------------------------------------------------------------------------------------
-- Lines
-----------------------------------------------------------------------------------------

/-- The lines of a leading comment and the blank one behind it. -/
def commentLines : Option String → List String
  | some text => splitLines (trim text) ++ [""]
  | none => []

/-- The lines of directives and the blank one behind them, if there are any. -/
def sectionLines (directives : List Directive) : List String :=
  if directives.isEmpty then []
  else directives.flatMap (fun directive => splitLines (trim directive.render)) ++ [""]

/-- The lines of the statements of a body, if there are any. -/
def bodyLines (statements : List Statement) : List String :=
  if statements.isEmpty then [] else splitLines (renderBlock statements)

/-- The lines of a statement among others. -/
def statementLines (statement : Statement) : List String :=
  splitLines (statement.finish statement.render)

/-- A block has the lines of its statements, as a line feed stands between any two. -/
theorem splitLines_renderBlock {statements : List Statement} (h : statements ≠ [])
    : splitLines (renderBlock statements)
      = statements.flatMap statementLines := by
  have hfinished : Statement.finishAll statements ≠ [] := by
    simpa [Statement.finishAll_eq_map] using h
  rw [renderBlock, splitLines_intercalate hfinished, Statement.finishAll_eq_map, List.flatMap_map]
  rfl

/-- A comment has the lines of its trimmed text. -/
theorem statementLines_comment (text : String)
    : statementLines (.comment text) = splitLines (trim text) := by
  rw [statementLines, Statement.finish_of_unseparated rfl rfl, Statement.render]

/-- A directive has the lines of its trimmed text. -/
theorem statementLines_directive (directive : Directive)
    : statementLines (.directive directive) = splitLines (trim directive.render) := by
  rw [statementLines, Statement.finish_of_unseparated rfl rfl, Statement.render]

/-- An empty statement is an empty line. -/
theorem statementLines_empty
    : statementLines .empty = [""] := by
  rw [statementLines, Statement.finish_of_unseparated rfl rfl, Statement.render]
  rfl

/-- A section of directives has a line for each, and an empty line behind them if there are any. -/
theorem flatMap_directiveSection (directives : List Directive)
    : (directiveSection directives).flatMap statementLines = sectionLines directives := by
  rw [directiveSection, sectionLines]
  split
  · rfl
  · simp [List.flatMap_map, statementLines_directive, statementLines_empty]

/-- The statements of a file have the lines of their block. -/
theorem flatMap_body (statements : List Statement)
    : statements.flatMap statementLines = bodyLines statements := by
  cases statements with
  | nil => rfl
  | cons statement statements =>
      rw [bodyLines, splitLines_renderBlock (List.cons_ne_nil _ _)]
      rfl

/-- A directive made of words is one line. -/
theorem statementLines_words {name arg : String} (hname : IsWord ("#" ++ name).toList)
    (harg : IsWord arg.toList)
    : statementLines (.directive ⟨name, [arg]⟩) = ["#" ++ name ++ " " ++ arg] := by
  have hrender : Directive.render ⟨name, [arg]⟩ = "#" ++ name ++ " " ++ arg := by
    simp [Directive.render]
  have hchars
      : ("#" ++ name ++ " " ++ arg).toList = ("#" ++ name).toList ++ ([' '] ++ arg.toList) := by
    simp
  have htrim : trim ("#" ++ name ++ " " ++ arg) = "#" ++ name ++ " " ++ arg := by
    rw [trim, hchars, trimChars_of_words hname [' '] harg, ← hchars, String.ofList_toList]
  have hfeed : '\n' ∉ ("#" ++ name ++ " " ++ arg).toList := by
    rw [hchars, List.mem_append, List.mem_append, not_or, not_or]
    exact ⟨fun h => (hname.isLine _ h).1 rfl, by decide, fun h => (harg.isLine _ h).1 rfl⟩
  rw [statementLines_directive, hrender, htrim, splitLines_of_not_mem hfeed]

/-- The lines of a guarded file: the comment, then the guard around the includes, the defines and
the body. -/
theorem splitLines_render_guarded {file : SourceFile} {name : String}
    (hguard : file.guard = some name) (hname : Lexeme.IsIdentifier name.toList)
    : splitLines file.render
      = commentLines file.comment
        ++ ["#ifndef " ++ name, "#define " ++ name]
        ++ ("" :: sectionLines file.includes ++ sectionLines file.defines ++ bodyLines file.body
          ++ [""])
        ++ ["#endif"] := by
  have hword : IsWord name.toList :=
    ⟨(Lexeme.isIdentifier_iff.1 hname).1, Lexeme.isBlank_eq_false_of_isIdentifier hname⟩
  have hopen : statementLines (.directive ⟨"ifndef", [name]⟩) = ["#ifndef " ++ name] :=
    statementLines_words (by simp [IsWord, isBlank]) hword
  have hdefine : statementLines (.directive (.definition name none)) = ["#define " ++ name] :=
    statementLines_words (by simp [IsWord, isBlank]) hword
  have hclose : statementLines (.directive ⟨"endif", []⟩) = ["#endif"] := by
    rw [statementLines_directive]
    rfl
  have hne : file.statements ≠ [] := by simp [statements, hguard]
  have hbody := flatMap_body file.body
  rw [render, splitLines_renderBlock hne, statements, hguard]
  simp only [List.flatMap_append, flatMap_directiveSection, hbody]
  cases file.comment with
  | none => simp [commentLines, hopen, hdefine, hclose, statementLines_empty]
  | some text =>
      simp [commentLines, hopen, hdefine, hclose, statementLines_empty, statementLines_comment]

/-- Only the last comment, the last guard and the order within each section count.  In a guarded
file everything but the comment stands between the two lines that open the guard and the last line,
which closes it, with the includes in front of the defines and the body behind them.  The calls of
the builder only ever replace the one or add to the end of the other. -/
theorem render_build (calls : List Call)
    : (∀ others, SameSections others calls → (build others).render = (build calls).render)
      ∧ ∀ name,
          (calls.filterMap Call.guard?).getLast? = some name →
          Lexeme.IsIdentifier name.toList →
          splitLines (build calls).render
          = commentLines (calls.filterMap Call.comment?).getLast?
            ++ ["#ifndef " ++ name, "#define " ++ name]
            ++ ("" :: sectionLines (calls.filterMap Call.include?)
              ++ sectionLines (calls.filterMap Call.define?)
              ++ bodyLines (calls.flatMap Call.statements)
              ++ [""])
            ++ ["#endif"] := by
  constructor
  · intro others h
    rw [h.build_eq_build]
  · intro name hguard hname
    have hbuild := build_eq calls
    rw [splitLines_render_guarded (by rw [hbuild, hguard]) hname, hbuild]

/-- Calls in a mixed order, with a guard that is replaced. -/
theorem render_build_mixed
    : let calls : List Call :=
        [
          .push (.call "f" []), .guard "A_H", .definition "N" (some "2"),
          .inclusion "math.h" false, .guard "B_H", .comment "/* a */", .extend [.returns none],
          .inclusion "b.h" true
        ]
      let others : List Call :=
        [
          .comment "/* a */", .guard "B_H", .inclusion "math.h" false, .inclusion "b.h" true,
          .definition "N" (some "2"), .extend [.call "f" [], .returns none]
        ]
      SameSections others calls
      ∧ (calls.filterMap Call.guard?).getLast? = some "B_H"
      ∧ Lexeme.IsIdentifier "B_H".toList
      ∧ (build others).render = (build calls).render
      ∧ splitLines (build calls).render
        = [
            "/* a */", "", "#ifndef B_H", "#define B_H", "", "#include <math.h>",
            "#include \"b.h\"", "", "#define N 2", "", "f();", "return;", "", "#endif"
          ] := by
  intro calls others
  have hsame : SameSections others calls := ⟨rfl, rfl, rfl, rfl, rfl⟩
  have hname : Lexeme.IsIdentifier "B_H".toList := by
    simp [Lexeme.IsIdentifier, Lexeme.isIdentifierStart, Lexeme.isIdentifierPart]
  obtain ⟨hrender, hlines⟩ := render_build calls
  refine ⟨hsame, rfl, hname, hrender others hsame, ?_⟩
  rw [hlines "B_H" rfl hname]
  decide

end SourceFile

end Formulary
