import Formulary.Proofs.Code.Layout
import Formulary.Proofs.Text.Lines
import Formulary.Proofs.Text.NonBlankLines

/-! Comments among other statements.
A comment stands in a block or in the body of a container in it, and what is written around it does
not depend on its text.  In a block it is written trimmed.  Each container takes the blank lines
out, indents the others and drops the carriage returns at their ends, so the text appears as it was
given exactly if there was nothing to trim and nothing to drop.
-/

namespace Formulary

open Text

-----------------------------------------------------------------------------------------
-- The text of a comment
-----------------------------------------------------------------------------------------

namespace Layout

/-- What a comment brings if its text is written as it is: the text itself in the outermost block,
and its lines that are not blank so many levels below. -/
def verbatim : Nat → String → String
  | 0, text => text
  | depth + 1, text =>
      String.join ((nonBlankLines text).map fun line => indent (depth + 1) ++ line ++ "\n")

/-- What a comment brings.  Its text is trimmed, and at every level but the first a line loses a
carriage return. -/
def comment : Nat → String → String
  | 0, text => trim text
  | depth + 1, text =>
      String.join
        ((nonBlankLines (trim text)).map fun line =>
          indent (depth + 1) ++ dropReturns depth line ++ "\n")

/-- Holds of texts that neither trimming nor indenting changes. -/
def Keeps : Nat → String → Prop
  | 0, text => trim text = text
  | depth + 1, text =>
      (∀ line ∈ (nonBlankLines text).head?, trimStart line = line)
      ∧ (∀ line ∈ (nonBlankLines text).getLast?, trimEnd line = line)
      ∧ ∀ line ∈ nonBlankLines text, depth = 0 ∨ dropReturn line = line

/-- Indentation holds no line feed. -/
theorem newline_not_mem_indent (depth : Nat)
    : '\n' ∉ (indent depth).toList := by
  intro h
  exact (oneLine_indent depth '\n' h).1 rfl

/-- Indentation ends in no carriage return. -/
theorem dropReturn_indent_append (depth : Nat) (line : String)
    : dropReturn (indent depth ++ line) = indent depth ++ dropReturn line :=
  dropReturn_append (fun h => (oneLine_indent depth '\r' h).2 rfl) line

/-- Indented lines can be told from what they are joined to.  The indentation is the same in front
of each, and the first line feed ends the line. -/
theorem join_indent_inj {lines others : List String} (h : ∀ line ∈ lines, '\n' ∉ line.toList)
    (hothers : ∀ line ∈ others, '\n' ∉ line.toList) (depth : Nat)
    : String.join (lines.map fun line => indent depth ++ line ++ "\n")
          = String.join (others.map fun line => indent depth ++ line ++ "\n")
      ↔ lines = others := by
  have hinjective : Function.Injective (indent depth ++ ·) := fun _ _ =>
    (String.append_right_inj _).1
  have hjoin (lines : List String)
      : lines.map (fun line => indent depth ++ line ++ "\n")
        = (lines.map (indent depth ++ ·)).map (· ++ "\n") := by
    rw [List.map_map]
    rfl
  have hfeed {lines : List String} (h : ∀ line ∈ lines, '\n' ∉ line.toList)
      : ∀ line ∈ lines.map (indent depth ++ ·), '\n' ∉ line.toList := by
    refine List.forall_mem_map.2 fun line hline => ?_
    simpa [newline_not_mem_indent] using h line hline
  rw [hjoin, hjoin, join_newline_inj (hfeed h) (hfeed hothers), hinjective.list_map.eq_iff]

/-- What a comment brings is its text as it is exactly if the text stays as it is.  At the outermost
level nothing is indented, and further in the lines can be told from the text that they are joined
to. -/
theorem comment_eq_verbatim_iff {depth : Nat} {text : String}
    : comment depth text = verbatim depth text ↔ Keeps depth text := by
  cases depth with
  | zero => rfl
  | succ depth =>
      have hdropped
          : ∀ line ∈ (nonBlankLines (trim text)).map (dropReturns depth), '\n' ∉ line.toList := by
        refine List.forall_mem_map.2 fun line hline hfeed => ?_
        rw [dropReturns, String.toList_ofList] at hfeed
        exact newline_not_mem_of_mem_nonBlankLines hline
          ((dropReturnsChars_sublist depth _).subset hfeed)
      have hlines : ∀ line ∈ nonBlankLines text, '\n' ∉ line.toList := fun line hline =>
        newline_not_mem_of_mem_nonBlankLines hline
      have hcomment
          : comment (depth + 1) text
            = String.join
              (((nonBlankLines (trim text)).map (dropReturns depth)).map fun line =>
                indent (depth + 1) ++ line ++ "\n") := by
        rw [List.map_map]
        rfl
      rw [hcomment, verbatim, join_indent_inj hdropped hlines,
        map_dropReturns_nonBlankLines_trim_eq_iff, Keeps]

/-- A carriage return that is kept at one level is lost at the next. -/
example
    : comment 1 "a\r\r\nb" = "  a\r\n  b\n" ∧ comment 2 "a\r\r\nb" = "    a\n    b\n" := by
  decide

/-- Nothing is written for a text exactly if it has only blank lines. -/
theorem verbatim_succ_eq_empty_iff {depth : Nat} {text : String}
    : verbatim (depth + 1) text = "" ↔ nonBlankLines text = [] := by
  have hlines : ∀ line ∈ nonBlankLines text, '\n' ∉ line.toList := fun line hline =>
    newline_not_mem_of_mem_nonBlankLines hline
  exact join_indent_inj hlines (List.forall_mem_nil _) (depth + 1)

end Layout

-----------------------------------------------------------------------------------------
-- Blocks
-----------------------------------------------------------------------------------------

/-- A statement in a block stands behind the finished texts before it and in front of those after
it. -/
theorem renderBlock_append_cons (before : List Statement) (statement : Statement)
    (after : List Statement)
    : renderBlock (before ++ statement :: after)
      = String.join ((Statement.finishAll before).map (· ++ "\n"))
        ++ statement.finish statement.render
        ++ String.join ((Statement.finishAll after).map ("\n" ++ ·)) := by
  have hbehind (text : String) (texts : List String)
      : "\n".intercalate (text :: texts) = text ++ String.join (texts.map ("\n" ++ ·)) := by
    induction texts generalizing text with
    | nil => simp
    | cons next texts ih =>
        rw [String.intercalate_cons_cons, ih, List.map_cons, String.join_cons]
        simp only [String.append_assoc]
  have hfinish
      : Statement.finishAll (before ++ statement :: after)
        = Statement.finishAll before
          ++ statement.finish statement.render :: Statement.finishAll after := by
    simp only [Statement.finishAll_eq_map, List.map_append, List.map_cons]
  rw [renderBlock, hfinish, intercalate_append_cons, hbehind, String.append_assoc]

namespace Statement

/-- A finished text ends in a semicolon, a line feed or no blank at all. -/
theorem getLast?_finish_ne (statement : Statement) (text : String)
    : (statement.finish text).toList.getLast? ≠ some '\r' := by
  have htrim : (trim text).toList.getLast? ≠ some '\r' := by
    rw [trim, String.toList_ofList, trimChars, trimEndChars, List.getLast?_reverse]
    intro h
    have hhead := List.head?_dropWhile_not isBlank (trimStartChars text.toList).reverse
    rw [h] at hhead
    exact Bool.noConfusion hhead
  simp only [finish]
  split <;> split <;> simp [htrim]

/-- The lines of a block that are not blank are those of its statements, in order.  The line feed
between two statements starts no line of its own, as no statement ends in a carriage return. -/
theorem nonBlankLines_renderBlock (statements : List Statement)
    : nonBlankLines (renderBlock statements)
      = statements.flatMap fun statement => nonBlankLines (statement.finish statement.render) := by
  induction statements with
  | nil => rfl
  | cons statement statements ih =>
      cases statements with
      | nil => simp [renderBlock, finishAll]
      | cons next statements =>
          have hblock
              : renderBlock (statement :: next :: statements)
                = statement.finish statement.render ++ "\n"
                  ++ renderBlock (next :: statements) := by
            rw [renderBlock, renderBlock, finishAll, finishAll, String.intercalate_cons_cons]
          have hfeed := nonBlankLines_newline (statement.getLast?_finish_ne statement.render)
          rw [hblock, nonBlankLines_append_newline, hfeed, ih, List.flatMap_cons (x := statement)]

/-- A container with a body is finished as its header, the indented lines of the body and the
closing bracket; trimming only takes the blanks in front of the header. -/
theorem finish_container {header : Header} (h : header.isPrototype = false)
    (body : List Statement) (spaced : Bool)
    : (container header body spaced).finish (container header body spaced).render
      = trimStart header.render ++ " \x7b\n" ++ indentBody (renderBlock body) ++ "\x7d"
        ++ (if spaced then "\n" else "") := by
  have hclose : IsWord "\x7d".toList := isWord_singleton (by decide)
  have htrim
      : trim (header.render ++ " \x7b\n" ++ indentBody (renderBlock body) ++ "\x7d")
        = trimStart header.render ++ " \x7b\n" ++ indentBody (renderBlock body) ++ "\x7d" := by
    simpa only [String.append_assoc] using
      trim_append_word header.isBlankText_render (" \x7b\n" ++ indentBody (renderBlock body)) hclose
  have hrender
      : (container header body spaced).render
        = header.render ++ " \x7b\n" ++ indentBody (renderBlock body) ++ "\x7d" := by
    rw [render, h, renderBlock]
    rfl
  rw [finish, hrender, htrim]
  simp [takesSeparator, isSpaced, h]

/-- A container has the lines of its header and of its body, and closes with one more.  Every line
of the body is indented, and the closing brace stands on a line of its own. -/
theorem nonBlankLines_container {header : Header} (h : header.isPrototype = false)
    (body : List Statement) (spaced : Bool)
    : nonBlankLines
        ((container header body spaced).finish (container header body spaced).render)
      = nonBlankLines (trimStart header.render ++ " \x7b" ++ "\n")
        ++ (nonBlankLines (renderBlock body)).map (fun line => "  " ++ dropReturn line)
        ++ ["\x7d"] := by
  have hclose : nonBlankLines ("\x7d" ++ (if spaced then "\n" else "")) = ["\x7d"] := by
    cases spaced <;> rfl
  have hbody : ∀ line ∈ nonBlankLines (renderBlock body),
      isBlankText line = false ∧ '\n' ∉ line.toList := fun line hline =>
    ⟨by simpa using List.of_mem_filter hline, newline_not_mem_of_mem_nonBlankLines hline⟩
  have hindented := nonBlankLines_join_indentLine hbody ("\x7d" ++ (if spaced then "\n" else ""))
  have hparts
      : trimStart header.render ++ " \x7b\n" ++ indentBody (renderBlock body) ++ "\x7d"
          ++ (if spaced then "\n" else "")
        = trimStart header.render ++ " \x7b" ++ "\n"
          ++ (String.join ((nonBlankLines (renderBlock body)).map indentLine)
            ++ ("\x7d" ++ (if spaced then "\n" else ""))) := by
    simp [indentBody, nonBlankLines, String.append_assoc]
  rw [finish_container h, hparts, nonBlankLines_append_newline, hindented, hclose,
    List.append_assoc]

-----------------------------------------------------------------------------------------
-- Places
-----------------------------------------------------------------------------------------

/-- A place for a statement in a block: among other statements, or within one of them that is a
container. -/
inductive Place where
  | among (before after : List Statement)
  | within (before : List Statement) (header : Header) (place : Place) (spaced : Bool)
      (after : List Statement)

namespace Place

/-- The block with the statement in its place. -/
def fill (statement : Statement) : Place → List Statement
  | among before after => before ++ statement :: after
  | within before header place spaced after =>
      before ++ .container header (place.fill statement) spaced :: after

/-- How many containers the place is within. -/
def depth : Place → Nat
  | among _ _ => 0
  | within _ _ place _ _ => place.depth + 1

/-- Whether the place is in no prototype, which is written without its body. -/
def isWritten : Place → Bool
  | among _ _ => true
  | within _ header place _ _ => !header.isPrototype && place.isWritten

/-- What a comment brings in its place. -/
def comment (place : Place) (text : String) : String :=
  if place.isWritten then Layout.comment place.depth text else ""

/-- Holds of texts that a comment in this place has as they are. -/
def Keeps (place : Place) (text : String) : Prop :=
  if place.isWritten then Layout.Keeps place.depth text else nonBlankLines text = []

/-- What a comment brings in its place is its text as it is exactly if the text stays as it is. -/
theorem comment_eq_verbatim_iff {place : Place} {text : String}
    : place.comment text = Layout.verbatim place.depth text ↔ place.Keeps text := by
  rw [comment, Keeps]
  split
  · exact Layout.comment_eq_verbatim_iff
  · rename_i h
    cases place with
    | among before after => exact (h rfl).elim
    | within before header place spaced after =>
        rw [eq_comm]
        exact Layout.verbatim_succ_eq_empty_iff

/-- The lines of a comment stand among others that do not depend on its text.  By induction on the
place, where each container indents them once more. -/
theorem exists_nonBlankLines {place : Place} (h : place.isWritten = true)
    : ∃ before after,
        ∀ text,
          nonBlankLines (renderBlock (place.fill (.comment text)))
          = before
            ++ (nonBlankLines (trim text)).map (fun line =>
              Layout.indent place.depth ++ dropReturns place.depth line)
            ++ after := by
  have hblock (before after : List Statement) (statement : Statement)
      : nonBlankLines (renderBlock (before ++ statement :: after))
        = nonBlankLines (renderBlock before)
          ++ nonBlankLines (statement.finish statement.render)
          ++ nonBlankLines (renderBlock after) := by
    simp only [nonBlankLines_renderBlock, List.flatMap_append, List.flatMap_cons,
      List.append_assoc]
  induction place with
  | among before after =>
      refine ⟨nonBlankLines (renderBlock before), nonBlankLines (renderBlock after), fun text => ?_⟩
      rw [fill, hblock, finish_of_unseparated rfl rfl, render]
      simp [depth, Layout.indent, dropReturns, dropReturnsChars]
  | within before header place spaced after ih =>
      obtain ⟨hheader, hplace⟩ : header.isPrototype = false ∧ place.isWritten = true := by
        simpa [isWritten] using h
      obtain ⟨front, back, hlines⟩ := ih hplace
      have hdeeper (line : String)
          : "  " ++ dropReturn (Layout.indent place.depth ++ dropReturns place.depth line)
            = Layout.indent (place.depth + 1) ++ dropReturns (place.depth + 1) line := by
        rw [Layout.dropReturn_indent_append, dropReturns_succ, Layout.indent, String.append_assoc]
      refine
        ⟨nonBlankLines (renderBlock before)
            ++ (nonBlankLines (trimStart header.render ++ " \x7b" ++ "\n")
              ++ front.map ("  " ++ dropReturn ·)),
          back.map ("  " ++ dropReturn ·) ++ "\x7d" :: nonBlankLines (renderBlock after),
          fun text => ?_⟩
      rw [fill, hblock, nonBlankLines_container hheader, hlines]
      simp [hdeeper, depth]

/-- What is in no written place leaves no trace.  Somewhere around it stands a prototype, whose body
is not written. -/
theorem renderBlock_fill_of_not_written {place : Place} (h : place.isWritten = false)
    (first second : Statement)
    : renderBlock (place.fill first) = renderBlock (place.fill second) := by
  induction place with
  | among before after => cases h
  | within before header place spaced after ih =>
      have hrender
          : (container header (place.fill first) spaced).render
            = (container header (place.fill second) spaced).render := by
        rw [render, render, ← renderBlock, ← renderBlock]
        split
        · rfl
        · rename_i hheader
          rw [ih (by simpa [isWritten, hheader] using h)]
      rw [fill, fill, renderBlock_append_cons, renderBlock_append_cons, hrender]
      rfl

/-- In an indented body a comment stands between texts that do not depend on its own. -/
theorem exists_indentBody {place : Place} (h : place.isWritten = true)
    : ∃ before after,
        ∀ text,
          indentBody (renderBlock (place.fill (.comment text)))
          = before ++ Layout.comment (place.depth + 1) text ++ after := by
  obtain ⟨front, back, hlines⟩ := exists_nonBlankLines h
  refine
    ⟨String.join (front.map indentLine), String.join (back.map indentLine), fun text => ?_⟩
  rw [indentBody, ← nonBlankLines, hlines, List.map_append, List.map_append, String.join_append,
    String.join_append, Layout.comment, List.map_map]
  simp [Function.comp_def, indentLine, Layout.indent, String.append_assoc]

/-- A comment is written between texts that do not depend on its own.  By cases on the place: what
stands before and behind in its block, and around that what the container writes. -/
theorem exists_renderBlock (place : Place)
    : ∃ before after,
        ∀ text,
          renderBlock (place.fill (.comment text)) = before ++ place.comment text ++ after := by
  cases place with
  | among before after =>
      refine
        ⟨String.join ((finishAll before).map (· ++ "\n")),
          String.join ((finishAll after).map ("\n" ++ ·)), fun text => ?_⟩
      rw [fill, renderBlock_append_cons, finish_of_unseparated rfl rfl, render]
      rfl
  | within before header place spaced after =>
      cases hwritten : (within before header place spaced after).isWritten with
      | false =>
          let outer := within before header place spaced after
          refine ⟨renderBlock (outer.fill .empty), "", fun text => ?_⟩
          rw [renderBlock_fill_of_not_written hwritten (.comment text) .empty, comment, hwritten]
          simp [outer]
      | true =>
          obtain ⟨hheader, hplace⟩ : header.isPrototype = false ∧ place.isWritten = true := by
            simpa [isWritten] using hwritten
          obtain ⟨front, back, hbody⟩ := exists_indentBody hplace
          refine
            ⟨String.join ((finishAll before).map (· ++ "\n"))
                ++ (trimStart header.render ++ " \x7b\n" ++ front),
              back ++ "\x7d" ++ (if spaced then "\n" else "")
                ++ String.join ((finishAll after).map ("\n" ++ ·)),
              fun text => ?_⟩
          rw [fill, renderBlock_append_cons, finish_container hheader, hbody, comment, hwritten,
            depth]
          simp only [if_true, String.append_assoc]

/-- What stands around a comment does not depend on its text, and what the comment brings is its
text as it is exactly if trimming and indenting change nothing in it. -/
theorem exists_surroundings (place : Place)
    : ∃ before after,
        ∀ text,
          renderBlock (place.fill (.comment text)) = before ++ place.comment text ++ after
          ∧ (renderBlock (place.fill (.comment text))
              = before ++ Layout.verbatim place.depth text ++ after
            ↔ place.Keeps text) := by
  obtain ⟨before, after, hrender⟩ := place.exists_renderBlock
  refine ⟨before, after, fun text => ⟨hrender text, ?_⟩⟩
  rw [hrender text, String.append_left_inj, String.append_right_inj, comment_eq_verbatim_iff]

end Place

/-- The first line of a comment loses the margin that the other lines keep. -/
theorem renderBlock_comment_margin
    : renderBlock [.comment "   /* Table of\n    * weights */"]
          = "/* Table of\n    * weights */"
      ∧ renderBlock [.comment "   /* Table of\n    * weights */"]
          ≠ "   /* Table of\n    * weights */" := by
  constructor
  · rfl
  · decide

end Statement

end Formulary
