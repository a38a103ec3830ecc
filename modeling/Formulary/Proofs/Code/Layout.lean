import Formulary.Proofs.Code.Texts

/-! The layout of code.
A block is written line by line.  How deep a statement stands among the containers decides how far
its lines are indented, and whether an empty line stands for a blank statement and behind a spaced
container.
-/

namespace Formulary

open Text

-----------------------------------------------------------------------------------------
-- The lines of a block
-----------------------------------------------------------------------------------------

namespace Layout

/-- Two spaces for each level. -/
def indent : Nat → String
  | 0 => ""
  | depth + 1 => "  " ++ indent depth

/-- The line of a text with what ends it.  For a blank one there is an empty line at the outermost
level and none below it. -/
def simple (depth : Nat) (text ending : String) : List String :=
  if isBlankText text then if depth = 0 then [""] else []
  else [indent depth ++ trim text ++ ending]

/-- Lines that are one level deeper.  The blank ones are left out. -/
def deepen (lines : List String) : List String :=
  (lines.filter (!isBlankText ·)).map ("  " ++ ·)

/-- Indentation is one line, by induction on the depth. -/
theorem oneLine_indent (depth : Nat)
    : OneLine (indent depth) := by
  induction depth with
  | zero => decide
  | succ depth ih => simp +decide [indent, ih]

/-- What stands for a text on one line is lines of one line each. -/
theorem oneLine_simple {text ending : String} (depth : Nat) (htext : OneLine text)
    (hending : OneLine ending)
    : ∀ line ∈ simple depth text ending, OneLine line := by
  rw [simple]
  split
  · split <;> simp +decide
  · simp [oneLine_indent, oneLine_trim htext, hending]

/-- No lines are indented to no lines. -/
@[simp]
theorem deepen_nil
    : deepen [] = [] := by
  rfl

/-- Lines are indented one by one. -/
@[simp]
theorem deepen_append (first second : List String)
    : deepen (first ++ second) = deepen first ++ deepen second := by
  simp [deepen]

/-- A line that is not blank is moved to the right. -/
theorem deepen_cons {line : String} (h : isBlankText line = false) (lines : List String)
    : deepen (line :: lines) = ("  " ++ line) :: deepen lines := by
  simp [deepen, h]

/-- One level further down a text stands further to the right, and a blank one has no line. -/
theorem simple_succ (depth : Nat) (text ending : String)
    : simple (depth + 1) text ending = deepen (simple depth text ending) := by
  rw [simple, simple]
  split
  · rw [if_neg (Nat.succ_ne_zero depth)]
    split <;> rfl
  · rename_i htext
    simp [deepen_cons, htext, indent, String.append_assoc]

end Layout

namespace Statement

mutual
/-- The lines of a statement so many levels deep. -/
def lines (depth : Nat) : Statement → List String
  | .container header body spaced =>
      if header.isPrototype then [Layout.indent depth ++ trim header.render ++ ";"]
      else
        (Layout.indent depth ++ trimStart header.render ++ " \x7b")
        :: (linesAll (depth + 1) body
          ++ (Layout.indent depth ++ "\x7d") :: if spaced ∧ depth = 0 then [""] else [])
  | .directive line => Layout.simple depth line.render ""
  | .comment text => Layout.simple depth text ""
  | .empty => Layout.simple depth "" ""
  | statement => Layout.simple depth statement.render ";"

def linesAll (depth : Nat) : List Statement → List String
  | [] => []
  | statement :: statements => statement.lines depth ++ linesAll depth statements
end

mutual
/-- The headers of a statement and of all statements within it. -/
def headers : Statement → List Header
  | .container header body _ => header :: headersAll body
  | _ => []

def headersAll : List Statement → List Header
  | [] => []
  | statement :: statements => statement.headers ++ headersAll statements
end

/-- Statements side by side have their lines one behind the other, by induction on the list. -/
theorem linesAll_eq_flatMap (depth : Nat) (statements : List Statement)
    : linesAll depth statements = statements.flatMap (lines depth) := by
  induction statements with
  | nil => rfl
  | cons statement statements ih => rw [linesAll, ih, List.flatMap_cons]

/-- The headers of statements side by side come one behind the other, by induction on the list. -/
theorem headersAll_eq_flatMap (statements : List Statement)
    : headersAll statements = statements.flatMap headers := by
  induction statements with
  | nil => rfl
  | cons statement statements ih => rw [headersAll, ih, List.flatMap_cons]

/-- What holds of simple statements, and of containers if it holds of their bodies, holds of all
statements. -/
theorem body_induction {motive : Statement → Prop}
    (simple : ∀ statement, statement.isContainer = false → motive statement)
    (container
      : ∀ header body spaced,
          (∀ statement ∈ body, motive statement) → motive (.container header body spaced))
    (statement : Statement)
    : motive statement := by
  cases hcontainer : statement.isContainer with
  | false => exact simple statement hcontainer
  | true =>
      cases statement with
      | container header body spaced =>
          exact container header body spaced fun inner hmem =>
            have hsmaller := List.sizeOf_lt_of_mem hmem
            body_induction simple container inner
      | _ => cases hcontainer
termination_by sizeOf statement
decreasing_by
  rw [Statement.container.sizeOf_spec]
  omega

/-- A statement that is no container stands on a line of its own. -/
theorem lines_eq_simple {statement : Statement} (h : statement.isContainer = false) (depth : Nat)
    : statement.lines depth
      = Layout.simple depth statement.render (if statement.takesSeparator then ";" else "") := by
  cases statement with
  | container header body spaced => cases h
  | _ => rfl

-----------------------------------------------------------------------------------------
-- One level deeper
-----------------------------------------------------------------------------------------

/-- If each statement is only moved to the right one level further down, so are all of them. -/
theorem linesAll_succ {statements : List Statement} {depth : Nat}
    (h
      : ∀ statement ∈ statements,
          statement.lines (depth + 1) = Layout.deepen (statement.lines depth))
    : linesAll (depth + 1) statements = Layout.deepen (linesAll depth statements) := by
  induction statements with
  | nil => rfl
  | cons statement statements ih =>
      obtain ⟨hfirst, hothers⟩ := List.forall_mem_cons.1 h
      rw [linesAll, linesAll, hfirst, ih hothers, Layout.deepen_append]

/-- A level more only indents the lines that are not blank and leaves out the others. -/
theorem lines_succ (statement : Statement) (depth : Nat)
    : statement.lines (depth + 1) = Layout.deepen (statement.lines depth) := by
  induction statement using body_induction generalizing depth with
  | simple statement hsimple =>
      rw [lines_eq_simple hsimple, lines_eq_simple hsimple, Layout.simple_succ]
  | container header body spaced ih =>
      have hbody := linesAll_succ fun statement hmem => ih statement hmem (depth + 1)
      have hspace : Layout.deepen (if spaced ∧ depth = 0 then [""] else []) = [] := by
        split <;> rfl
      simp only [lines]
      split
      · simp +decide [Layout.deepen_cons, Layout.indent, String.append_assoc]
      · simp +decide [Layout.deepen_cons, Layout.indent, String.append_assoc, hbody, hspace]

-----------------------------------------------------------------------------------------
-- Lines without line ends
-----------------------------------------------------------------------------------------

/-- Holds of statements whose texts lie on one line each and whose headers hold no containers. -/
structure IsPlain (statement : Statement) : Prop where
  texts : ∀ text ∈ statement.texts, OneLine text
  headers : ∀ header ∈ statement.headers, header.isPlain = true

/-- Statements are plain if all their texts are on one line and all their headers are plain. -/
theorem isPlain_of_all {statements : List Statement}
    (htexts : ∀ text ∈ textsAll statements, OneLine text)
    (hheaders : ∀ header ∈ headersAll statements, header.isPlain = true)
    : ∀ statement ∈ statements, statement.IsPlain := by
  rw [textsAll_eq_flatMap, List.forall_mem_flatMap] at htexts
  rw [headersAll_eq_flatMap, List.forall_mem_flatMap] at hheaders
  exact fun statement hmem => ⟨htexts statement hmem, hheaders statement hmem⟩

/-- The header of a plain container is written on one line, and its body is plain. -/
theorem IsPlain.parts {header : Header} {body : List Statement} {spaced : Bool}
    (h : (container header body spaced).IsPlain)
    : OneLine header.render ∧ ∀ statement ∈ body, statement.IsPlain := by
  obtain ⟨htexts, hheaders⟩ := h
  rw [Statement.texts, List.forall_mem_append] at htexts
  rw [Statement.headers, List.forall_mem_cons] at hheaders
  exact ⟨header.oneLine_render hheaders.1 htexts.1, isPlain_of_all htexts.2 hheaders.2⟩

/-- The lines of a plain statement hold no line ends.  The lines of a container are its header with
a brace, those of its body and a closing brace. -/
theorem oneLine_lines {statement : Statement} (h : statement.IsPlain) (depth : Nat)
    : ∀ line ∈ statement.lines depth, OneLine line := by
  induction statement using body_induction generalizing depth with
  | simple statement hsimple =>
      rw [lines_eq_simple hsimple]
      refine Layout.oneLine_simple depth (oneLine_render hsimple h.texts) ?_
      split <;> decide
  | container header body spaced ih =>
      obtain ⟨hheader, hplain⟩ := h.parts
      have hbody : ∀ line ∈ linesAll (depth + 1) body, OneLine line := by
        rw [linesAll_eq_flatMap, List.forall_mem_flatMap]
        exact fun statement hmem => ih statement hmem (hplain statement hmem) (depth + 1)
      have hindent := Layout.oneLine_indent depth
      have hspace : ∀ line ∈ if spaced ∧ depth = 0 then [""] else [], OneLine line := by
        split <;> simp +decide
      rw [lines]
      split
      · simp +decide [hindent, oneLine_trim hheader]
      · simp only [List.forall_mem_cons, List.forall_mem_append, oneLine_append]
        exact ⟨⟨⟨hindent, oneLine_trimStart hheader⟩, by decide⟩, hbody,
          ⟨hindent, by decide⟩, hspace⟩

-----------------------------------------------------------------------------------------
-- Rendering
-----------------------------------------------------------------------------------------

/-- Every statement has a line at least, even where it is empty. -/
theorem lines_ne_nil (statement : Statement)
    : statement.lines 0 ≠ [] := by
  cases hcontainer : statement.isContainer with
  | false =>
      rw [lines_eq_simple hcontainer, Layout.simple]
      split <;> simp
  | true =>
      cases statement with
      | container header body spaced =>
          rw [lines]
          split <;> simp
      | _ => cases hcontainer

/-- What takes no semicolon and is no container is written trimmed. -/
theorem finish_of_unseparated {statement : Statement} (h : statement.isContainer = false)
    (hseparator : statement.takesSeparator = false) (text : String)
    : statement.finish text = trim text := by
  have hspaced : statement.isSpaced = false := by
    cases statement with
    | container header body spaced => cases h
    | _ => rfl
  simp [finish, hseparator, hspaced]

/-- A statement that is no container is finished as its only line. -/
theorem finish_render_of_simple {statement : Statement} (h : statement.isContainer = false)
    : statement.finish statement.render = "\n".intercalate (statement.lines 0) := by
  have hspaced : statement.isSpaced = false := by
    cases statement with
    | container header body spaced => cases h
    | _ => rfl
  rw [lines_eq_simple h, finish, Layout.simple, hspaced]
  by_cases hblank : isBlankText statement.render
  · simp [hblank, trim_eq_empty_iff.2 hblank]
  · have htrim : trim statement.render ≠ "" := by rwa [Ne, trim_eq_empty_iff]
    simp [hblank, htrim, Layout.indent]

/-- If each statement is finished as its lines, so are all of them. -/
theorem intercalate_finishAll {statements : List Statement}
    (h
      : ∀ statement ∈ statements,
          statement.finish statement.render = "\n".intercalate (statement.lines 0))
    : "\n".intercalate (finishAll statements) = "\n".intercalate (linesAll 0 statements) := by
  rw [finishAll_eq_map, linesAll_eq_flatMap,
    intercalate_flatMap _ fun statement _ => statement.lines_ne_nil, List.map_congr_left h]

/-- The body of a container is indented line by line. -/
theorem indentBody_intercalate {lines : List String} (h : ∀ line ∈ lines, OneLine line)
    : indentBody ("\n".intercalate lines)
      = String.join ((Layout.deepen lines).map (· ++ "\n")) := by
  rw [indentBody, filter_lines_intercalate h, Layout.deepen, List.map_map]
  rfl

/-- A container whose header stands alone is finished as one line, with a semicolon behind it. -/
theorem finish_prototype {header : Header} (h : header.isPrototype = true) (body : List Statement)
    (spaced : Bool)
    : (container header body spaced).finish (container header body spaced).render
      = "\n".intercalate ((container header body spaced).lines 0) := by
  have htrim : trim header.render ≠ "" := by simp [trim_eq_empty_iff, header.isBlankText_render]
  simp [lines, finish, render, takesSeparator, isSpaced, h, htrim, Layout.indent]

/-- A container is written on its lines if its indented body is.  Trimming only reaches the blanks
in front of the header, since the closing brace is no blank. -/
theorem finish_braced {header : Header} (h : header.isPrototype = false) {body : List Statement}
    (hbody
      : indentBody ("\n".intercalate (finishAll body))
        = String.join ((linesAll 1 body).map (· ++ "\n")))
    (spaced : Bool)
    : (container header body spaced).finish (container header body spaced).render
      = "\n".intercalate ((container header body spaced).lines 0) := by
  have hrender
      : (container header body spaced).render
        = header.render ++ " \x7b\n" ++ String.join ((linesAll 1 body).map (· ++ "\n"))
          ++ "\x7d" := by
    simp [render, h, hbody]
  have hlines
      : (container header body spaced).lines 0
        = (trimStart header.render ++ " \x7b") :: linesAll 1 body
          ++ "\x7d" :: if spaced then [""] else [] := by
    simp [lines, h, Layout.indent]
  have hclose : IsWord "\x7d".toList := isWord_singleton (by decide)
  have htrim (inner : String)
      : trim (header.render ++ " \x7b\n" ++ inner ++ "\x7d")
        = trimStart header.render ++ " \x7b\n" ++ inner ++ "\x7d" := by
    simpa only [String.append_assoc] using
      trim_append_word header.isBlankText_render (" \x7b\n" ++ inner) hclose
  have hopen (text : String) : text ++ " \x7b" ++ "\n" = text ++ " \x7b\n" := by
    simp [String.append_assoc]
  rw [hlines, intercalate_append_cons, List.map_cons, String.join_cons, hopen, finish, hrender,
    htrim]
  cases spaced <;> simp [takesSeparator, isSpaced, h, String.append_assoc]

/-- A body is indented to its lines one level deeper. -/
theorem indentBody_finishAll {body : List Statement}
    (hplain : ∀ statement ∈ body, statement.IsPlain)
    (h
      : ∀ statement ∈ body,
          statement.finish statement.render = "\n".intercalate (statement.lines 0))
    : indentBody ("\n".intercalate (finishAll body))
      = String.join ((linesAll 1 body).map (· ++ "\n")) := by
  have hlines : ∀ line ∈ linesAll 0 body, OneLine line := by
    rw [linesAll_eq_flatMap, List.forall_mem_flatMap]
    exact fun statement hmem => oneLine_lines (hplain statement hmem) 0
  have hdeeper : linesAll 1 body = Layout.deepen (linesAll 0 body) :=
    linesAll_succ fun statement _ => statement.lines_succ 0
  rw [intercalate_finishAll h, indentBody_intercalate hlines, hdeeper]

/-- A plain statement is finished as its lines, by induction on its body. -/
theorem finish_render_of_isPlain {statement : Statement} (h : statement.IsPlain)
    : statement.finish statement.render = "\n".intercalate (statement.lines 0) := by
  induction statement using body_induction with
  | simple statement hsimple => exact finish_render_of_simple hsimple
  | container header body spaced ih =>
      cases hheader : header.isPrototype with
      | true => exact finish_prototype hheader body spaced
      | false =>
          obtain ⟨-, hplain⟩ := h.parts
          have hbody := indentBody_finishAll hplain fun statement hmem =>
            ih statement hmem (hplain statement hmem)
          exact finish_braced hheader hbody spaced

end Statement

/-- A block of statements without line ends of their own is written line by line.  To indent the
lines of a body once more is then to write it one level deeper. -/
theorem renderBlock_eq_intercalate_linesAll (statements : List Statement)
    (htexts : ∀ text ∈ Statement.textsAll statements, OneLine text)
    (hheaders : ∀ header ∈ Statement.headersAll statements, header.isPlain = true)
    : renderBlock statements = "\n".intercalate (Statement.linesAll 0 statements) := by
  have hplain := Statement.isPlain_of_all htexts hheaders
  rw [renderBlock]
  exact Statement.intercalate_finishAll fun statement hmem =>
    Statement.finish_render_of_isPlain (hplain statement hmem)

/-- A loop in a function, behind a directive and an empty line. -/
theorem renderBlock_eq_intercalate_linesAll_nested
    : let statements : List Statement :=
        [
          .directive (.inclusion "math.h" false),
          .empty,
          .container (.function "void" "f" [.scalar ⟨"n", "int"⟩] false)
            [
              .comment " ",
              .container
                (.forLoop (.assignment (.declare ⟨"i", "int"⟩ (.constant "0")))
                  (.binary .bare .lt (.named "i") (.named "n"))
                  (.update (.unary (.named "i") .increment)))
                [.call "g" [.named "i"]] true
            ]
            true,
          .container (.function "" "h" [] true) [] true,
          .returns none
        ]
      (∀ text ∈ Statement.textsAll statements, OneLine text)
      ∧ (∀ header ∈ Statement.headersAll statements, header.isPlain = true)
      ∧ renderBlock statements
        = "\n".intercalate
          [
            "#include <math.h>", "", "void f(int n) \x7b", "  for (int i = 0; i < n; i++) \x7b",
            "    g(i);", "  \x7d", "\x7d", "", "h();", "return;"
          ] := by
  intro statements
  have htexts : ∀ text ∈ Statement.textsAll statements, OneLine text := by decide
  have hheaders : ∀ header ∈ Statement.headersAll statements, header.isPlain = true := by decide
  refine ⟨htexts, hheaders, ?_⟩
  rw [renderBlock_eq_intercalate_linesAll statements htexts hheaders]
  rfl

end Formulary
