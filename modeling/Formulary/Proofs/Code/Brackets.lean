import Formulary.Proofs.Code.Texts
import Formulary.Proofs.Text.Brackets

/-! Brackets in code.
Whoever builds a statement may leave brackets to the rendering alone.  Then all that open are closed
in turn, and every container with a body opens one curly bracket.  Trimming, leaving out blank
lines and indenting change no bracket.
-/

namespace Formulary

open Text

-----------------------------------------------------------------------------------------
-- Values
-----------------------------------------------------------------------------------------

/-- No binary operator is written with a bracket. -/
theorem BinaryOp.bracketless_symbol (op : BinaryOp)
    : Bracketless op.symbol := by
  cases op <;> decide

/-- No unary operator is written with a bracket. -/
theorem UnaryOp.bracketless_symbol (op : UnaryOp)
    : Bracketless op.symbol := by
  cases op <;> decide

/-- A space holds no bracket. -/
theorem balanced_space
    : Balanced 0 " " :=
  Bracketless.balanced (by decide)

namespace Value

mutual
/-- A value is balanced if its names and constants have no brackets.  Only its groups, calls,
elements and operations with parentheses write brackets, each of them a pair. -/
theorem balanced_render (value : Value) (h : ∀ text ∈ value.texts, Bracketless text)
    : Balanced 0 value.render := by
  cases value with
  | var v => exact (h v.name List.mem_cons_self).balanced
  | constant text => exact (h text List.mem_cons_self).balanced
  | parens inner =>
      have hinner := inner.balanced_render (by simpa only [texts] using h)
      rw [render]
      split
      · exact hinner
      · exact hinner.round
  | call name args =>
      obtain ⟨hname, hargs⟩ := List.forall_mem_cons.1 (by simpa only [texts] using h)
      have hargs : Balanced 0 (", ".intercalate (args.map render)) :=
        balanced_intercalate_zero (by decide) (balanced_renderAll args hargs)
      simpa only [render, renderAll_eq_map, String.append_assoc]
        using hname.balanced.append hargs.round
  | binary form op left right =>
      obtain ⟨hleft, hright⟩ := List.forall_mem_append.1 (by simpa only [texts] using h)
      have hop := op.bracketless_symbol.balanced
      have hoperation :=
        ((((left.balanced_render hleft).append balanced_space).append hop).append
          balanced_space).append (right.balanced_render hright)
      cases form with
      | enclosed => simpa only [render, String.append_assoc] using hoperation.round
      | bare => exact hoperation
  | unary form op operand =>
      have hop := op.bracketless_symbol.balanced
      have hoperand := operand.balanced_render (by simpa only [texts] using h)
      cases form with
      | enclosed => exact hop.append hoperand
      | bare => simpa only [render, String.append_assoc] using hop.append hoperand.round
  | element array indices =>
      obtain ⟨hname, hindices⟩ := List.forall_mem_cons.1 (by simpa only [texts] using h)
      exact hname.balanced.append (balanced_renderIndices indices hindices)
termination_by sizeOf value

/-- Values side by side are balanced each. -/
theorem balanced_renderAll (values : List Value) (h : ∀ text ∈ textsAll values, Bracketless text)
    : ∀ value ∈ values, Balanced 0 value.render := by
  cases values with
  | nil => exact List.forall_mem_nil _
  | cons value values =>
      obtain ⟨hvalue, hvalues⟩ := List.forall_mem_append.1 (by simpa only [textsAll] using h)
      exact List.forall_mem_cons.2
        ⟨value.balanced_render hvalue, balanced_renderAll values hvalues⟩
termination_by sizeOf values

/-- Indices are balanced, each between square brackets of its own. -/
theorem balanced_renderIndices (indices : List Value)
    (h : ∀ text ∈ textsAll indices, Bracketless text)
    : Balanced 0 (renderIndices indices) := by
  cases indices with
  | nil => exact Bracketless.balanced (by decide)
  | cons index indices =>
      obtain ⟨hindex, hindices⟩ := List.forall_mem_append.1 (by simpa only [textsAll] using h)
      exact (index.balanced_render hindex).square.append (balanced_renderIndices indices hindices)
termination_by sizeOf indices
end

end Value

-----------------------------------------------------------------------------------------
-- Parts of statements
-----------------------------------------------------------------------------------------

/-- Declarations are balanced, as neither types and names nor the stars of an array are brackets. -/
theorem Declaration.balanced_render (declaration : Declaration)
    (h : ∀ text ∈ declaration.texts, Bracketless text)
    : Balanced 0 declaration.render := by
  cases declaration with
  | scalar v =>
      obtain ⟨htype, hname⟩ : Bracketless v.type ∧ Bracketless v.name := by
        simpa [Declaration.texts] using h
      exact (htype.balanced.append balanced_space).append hname.balanced
  | array a =>
      obtain ⟨htype, hname⟩ : Bracketless a.type ∧ Bracketless a.name := by
        simpa [Declaration.texts] using h
      have hstars : Bracketless (String.ofList (List.replicate a.dims '*')) := by
        rw [Bracketless, String.toList_ofList]
        intro c hc
        rw [List.eq_of_mem_replicate hc]
        rfl
      exact ((htype.balanced.append hstars.balanced).append balanced_space).append hname.balanced

/-- Assignments are balanced, as both of their sides are.  The equals sign and the type are no
brackets. -/
theorem Assignment.balanced_render (assignment : Assignment)
    (h : ∀ text ∈ assignment.texts, Bracketless text)
    : Balanced 0 assignment.render := by
  obtain ⟨⟨htype, htarget⟩, hrhs⟩ := by
    simpa only [Assignment.texts, List.forall_mem_append] using h
  have hequals : Bracketless " = " := by decide
  have hassigned :=
    ((assignment.target.balanced_render htarget).append hequals.balanced).append
      (assignment.rhs.balanced_render hrhs)
  rw [Assignment.render]
  cases hdeclared : assignment.declaredType with
  | none => exact hassigned
  | some type =>
      have htype : Bracketless type := by simpa [hdeclared] using htype
      exact (htype.balanced.append balanced_space).append hassigned

/-- Updates are balanced, as their operands are. -/
theorem Update.balanced_render (update : Update) (h : ∀ text ∈ update.texts, Bracketless text)
    : Balanced 0 update.render := by
  cases update with
  | binary target op value =>
      obtain ⟨htarget, hvalue⟩ := List.forall_mem_append.1 (by simpa only [Update.texts] using h)
      exact ((((target.balanced_render htarget).append balanced_space).append
        op.bracketless_symbol.balanced).append balanced_space).append
          (value.balanced_render hvalue)
  | unary target op => exact (target.balanced_render h).append op.bracketless_symbol.balanced

/-- Directives are balanced, as no part of them holds a bracket. -/
theorem Directive.balanced_render (directive : Directive)
    (h : ∀ text ∈ directive.texts, Bracketless text)
    : Balanced 0 directive.render := by
  obtain ⟨hname, hargs⟩ := List.forall_mem_cons.1 (by simpa only [Directive.texts] using h)
  have hname : Balanced 0 ("#" ++ directive.name) :=
    (Bracketless.balanced (by decide)).append hname.balanced
  have hargs : Balanced 0 (" ".intercalate directive.args) := by
    have hspace : Bracketless " " := by decide
    have hbalanced : ∀ arg ∈ directive.args, Balanced 0 (id arg) := fun arg harg =>
      (hargs arg harg).balanced
    simpa using balanced_intercalate_zero hspace hbalanced
  rw [Directive.render]
  split
  · exact hname
  · exact (hname.append balanced_space).append hargs

-----------------------------------------------------------------------------------------
-- Statements
-----------------------------------------------------------------------------------------

mutual
/-- The number of containers with a body in a statement.  A prototype has none, and nothing below
it counts. -/
def Statement.bodies : Statement → Nat
  | .container header body _ =>
      if header.isPrototype then 0 else header.bodies + Statement.bodiesAll body + 1
  | _ => 0

def Header.bodies : Header → Nat
  | .forLoop init _ update => init.bodies + update.bodies
  | _ => 0

def Statement.bodiesAll : List Statement → Nat
  | [] => 0
  | statement :: statements => statement.bodies + Statement.bodiesAll statements
end

/-- A header without a body of its own holds no other body either, since only a loop holds
statements. -/
theorem Header.bodies_eq_zero {header : Header} (h : header.isPrototype = true)
    : header.bodies = 0 := by
  cases header with
  | forLoop init condition update => cases h
  | _ => rfl

/-- The bodies of statements side by side are counted together, by induction on the list. -/
theorem bodiesAll_eq_sum (statements : List Statement)
    : Statement.bodiesAll statements = (statements.map Statement.bodies).sum := by
  induction statements with
  | nil => rfl
  | cons statement statements ih => rw [Statement.bodiesAll, ih, List.map_cons, List.sum_cons]

/-- Indenting a body keeps its brackets.  The lines that are left out are blank, and what is put
around the others are blanks and line feeds. -/
theorem brackets_indentBody (body : String)
    : brackets (indentBody body).toList = brackets body.toList := by
  have hline (line : String) : brackets (indentLine line).toList = brackets line.toList := by
    have hindent : brackets "  ".toList = [] := rfl
    have hend : brackets "\n".toList = [] := rfl
    rw [indentLine, String.toList_append, String.toList_append, brackets_append, brackets_append,
      hindent, hend, List.nil_append, List.append_nil]
  have hblank (line : String) (h : isBlankText line = true) : brackets line.toList = [] :=
    brackets_eq_nil_of_blank (List.all_eq_true.1 h)
  have hjoin (lines : List String)
      : brackets (String.join ((lines.filter (!isBlankText ·)).map indentLine)).toList
        = lines.flatMap fun line => brackets line.toList := by
    induction lines with
    | nil => rfl
    | cons line lines ih =>
        rw [List.flatMap_cons, ← ih]
        cases h : isBlankText line with
        | true => rw [List.filter_cons_of_neg (by simp [h]), hblank line h, List.nil_append]
        | false =>
            rw [List.filter_cons_of_pos (by simp [h]), List.map_cons, String.join_cons,
              String.toList_append, brackets_append, hline]
  rw [indentBody, hjoin, lines, List.flatMap_map, ← flatMap_brackets_lineChars]
  simp only [String.toList_ofList]

/-- Trimming a text and closing it with a semicolon and a line feed keeps its brackets, as these are
none. -/
theorem Statement.balanced_finish {curly : Nat} {text : String} (h : Balanced curly text)
    (statement : Statement)
    : Balanced curly (statement.finish text) := by
  have hsemicolon
      : Balanced 0 (if trim text ≠ "" && statement.takesSeparator then ";" else "") := by
    split <;> exact Bracketless.balanced (by decide)
  have hspace : Balanced 0 (if statement.isSpaced then "\n" else "") := by
    split <;> exact Bracketless.balanced (by decide)
  rw [finish]
  exact (h.trim.append hsemicolon).append hspace

/-- A braced body opens a curly bracket, besides those in it and in its header. -/
theorem Text.Balanced.braced {curly more : Nat} {header body : String}
    (hheader : Balanced curly header) (hbody : Balanced more body)
    : Balanced (curly + more + 1) (header ++ " \x7b\n" ++ indentBody body ++ "\x7d") := by
  have hindented : Balanced more ("\n" ++ indentBody body) :=
    hbody.of_brackets_eq (by rw [String.toList_append, brackets_append, brackets_indentBody]; rfl)
  have hopen : " \x7b\n" = " " ++ ("\x7b" ++ "\n") := rfl
  rw [hopen, Nat.add_assoc]
  simpa only [String.append_assoc, Nat.add_zero]
    using (hheader.append balanced_space).append hindented.curly

/-- A text behind a keyword in parentheses keeps its brackets. -/
theorem balanced_parenthesized {curly : Nat} {text : String} (keyword : String)
    (hkeyword : Bracketless keyword) (h : Balanced curly text)
    : Balanced curly (keyword ++ "(" ++ text ++ ")") := by
  simpa only [String.append_assoc, Nat.zero_add] using hkeyword.balanced.append h.round

mutual
/-- A statement is balanced if its texts have no brackets, with a curly bracket for each body.  The
braces around a body are the only curly ones, and they close behind it. -/
theorem Statement.balanced_render (statement : Statement)
    (h : ∀ text ∈ statement.texts, Bracketless text)
    : Balanced statement.bodies statement.render := by
  cases statement with
  | assignment assignment => exact assignment.balanced_render h
  | update update => exact update.balanced_render h
  | returns value =>
      cases value with
      | none => exact Bracketless.balanced (by decide)
      | some value =>
          have hvalue := value.balanced_render (by simpa [Statement.texts] using h)
          have hreturn : Balanced 0 "return " := Bracketless.balanced (by decide)
          exact hreturn.append hvalue
  | declaration declaration => exact declaration.balanced_render h
  | call name args => exact (Value.call name args).balanced_render h
  | directive directive => exact directive.balanced_render h
  | comment text => exact (h text List.mem_cons_self).balanced
  | empty => exact Bracketless.balanced (by decide)
  | container header body spaced =>
      obtain ⟨hheader, hbody⟩ := List.forall_mem_append.1 (by simpa only [Statement.texts] using h)
      have hheader := header.balanced_render hheader
      have hbody := Statement.balanced_finishAll body hbody
      rw [Statement.render, Statement.bodies]
      split
      · rename_i hprototype
        rwa [Header.bodies_eq_zero hprototype] at hheader
      · exact hheader.braced hbody
termination_by sizeOf statement

/-- A header is balanced, and its curly brackets are those of the bodies inside it.  A loop puts its
three parts between parentheses, a branch its condition and a function its parameters. -/
theorem Header.balanced_render (header : Header) (h : ∀ text ∈ header.texts, Bracketless text)
    : Balanced header.bodies header.render := by
  cases header with
  | forLoop init condition update =>
      obtain ⟨⟨hinit, hcondition⟩, hupdate⟩ := by
        simpa only [Header.texts, List.forall_mem_append] using h
      have hinit := init.balanced_render hinit
      have hcondition := condition.balanced_render hcondition
      have hupdate := update.balanced_render hupdate
      have hsemicolon : Balanced 0 "; " := Bracketless.balanced (by decide)
      have hparts :=
        (((hinit.append hsemicolon).append hcondition).append hsemicolon).append hupdate
      have hopen : "for (" = "for " ++ "(" := rfl
      rw [Header.render, Header.bodies, hopen]
      simpa only [String.append_assoc, Nat.add_zero]
        using balanced_parenthesized "for " (by decide) hparts
  | whileLoop condition =>
      exact balanced_parenthesized "while " (by decide) (condition.balanced_render h)
  | ifBlock condition =>
      exact balanced_parenthesized "if " (by decide) (condition.balanced_render h)
  | elseIfBlock condition =>
      exact balanced_parenthesized "else if " (by decide) (condition.balanced_render h)
  | elseBlock => exact Bracketless.balanced (by decide)
  | function returnType name params isPrototype =>
      obtain ⟨htype, hname, hparams⟩ := by
        simpa only [Header.texts, List.forall_mem_cons] using h
      have hparams : Balanced 0 (", ".intercalate (params.map Declaration.render)) := by
        refine balanced_intercalate_zero (by decide) fun declaration hmem => ?_
        exact declaration.balanced_render fun text htext =>
          hparams text (List.mem_flatMap.2 ⟨declaration, hmem, htext⟩)
      have hopening := (htype.balanced.append balanced_space).append hname.balanced
      simpa only [Header.render, Header.bodies, String.append_assoc]
        using hopening.append hparams.round
termination_by sizeOf header

/-- The finished texts of statements are balanced one by one. -/
theorem Statement.balanced_finishAll (statements : List Statement)
    (h : ∀ text ∈ Statement.textsAll statements, Bracketless text)
    : Balanced (Statement.bodiesAll statements)
        ("\n".intercalate (Statement.finishAll statements)) := by
  rw [bodiesAll_eq_sum, Statement.finishAll_eq_map]
  rw [Statement.textsAll_eq_flatMap, List.forall_mem_flatMap] at h
  refine balanced_intercalate (by decide) fun statement hmem => ?_
  exact Statement.balanced_finish (statement.balanced_render (h statement hmem)) statement
termination_by sizeOf statements
end

/-- Code written with texts without brackets nests its brackets properly, and there are as many
curly ones that open as containers with a body.  Every construct closes the brackets that it opens
itself, and layout adds none. -/
theorem renderBlock_nested (statements : List Statement)
    (h : ∀ text ∈ Statement.textsAll statements, Bracketless text)
    : Nested (renderBlock statements)
      ∧ (renderBlock statements).toList.count '\x7b' = Statement.bodiesAll statements := by
  have hbalanced := Statement.balanced_finishAll statements h
  exact ⟨hbalanced.nested, hbalanced.count⟩

/-- A loop over an array with a branch in it, behind a comment, and a prototype with a body that is
not written. -/
theorem renderBlock_nested_loop
    : let element :=
        Value.element ⟨"D", "double", 2⟩ [.named "i", .unary .enclosed .negative (.named "j")]
      let statements : List Statement :=
        [
          .comment "columns\nof D",
          .container
            (.forLoop (.assignment (.declare ⟨"i", "int"⟩ (.constant "0")))
              (.binary .bare .lt (.named "i") (.call "rows" []))
              (.update (.unary (.named "i") .increment)))
            [
              .container (.ifBlock (.unary .bare .not (.parens element)))
                [.assignment (.ofTarget element (.binary .enclosed .add element (.constant "1")))]
                false
            ]
            false,
          .container (.function "void" "f" [] true) [.container .elseBlock [] false] false
        ]
      (∀ text ∈ Statement.textsAll statements, Bracketless text)
      ∧ Nested (renderBlock statements)
      ∧ (renderBlock statements).toList.count '\x7b' = 2 := by
  intro element statements
  have h : ∀ text ∈ Statement.textsAll statements, Bracketless text := by decide
  exact ⟨h, renderBlock_nested statements h⟩

end Formulary
