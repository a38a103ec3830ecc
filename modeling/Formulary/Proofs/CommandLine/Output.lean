import Formulary.CommandLine
import Formulary.Proofs.Synthesis.Words

/-! The ends of what commands show.
Trees, documents and values end in words, so nothing of them is trimmed before the line feed that
the command line puts behind them.  Behind a function the blank line that follows it is trimmed.
-/

namespace Formulary

open Text

-----------------------------------------------------------------------------------------
-- Trimming
-----------------------------------------------------------------------------------------

namespace Text

/-- Nothing is trimmed behind a text that ends in a word. -/
theorem EndsInWord.trimEnd_eq {text : String} (h : EndsInWord text)
    : trimEnd text = text := by
  obtain ⟨front, last, rfl, hlast⟩ := h
  have hself := trimEndChars_eq_self hlast.2
  rw [← String.toList_inj, trimEnd, String.toList_ofList, String.toList_append,
    trimEndChars_append _ (by rw [hself]; exact hlast.1), hself]

/-- A line feed behind a word is trimmed. -/
theorem EndsInWord.trimEnd_newline {text : String} (h : EndsInWord text)
    : trimEnd (text ++ "\n") = text := by
  have hfeed : trimEndChars (text.toList ++ ['\n']) = trimEndChars text.toList := by
    simp +decide [trimEndChars]
  have hself := h.trimEnd_eq
  rw [trimEnd] at hself ⊢
  rw [String.toList_append]
  simpa [hfeed] using hself

/-- What is not blank ends in a word when it is trimmed.  The last character that is left is no
blank, or it would have been trimmed. -/
theorem endsInWord_trim {text : String} (h : isBlankText text = false)
    : EndsInWord (trim text) := by
  have hne : trimChars text.toList ≠ [] := by
    rw [Ne, trimChars_eq_nil_iff, ← isBlankText, h]
    exact Bool.false_ne_true
  obtain ⟨front, c, hchars⟩ := (List.eq_nil_or_concat _).resolve_left hne
  have hreverse
      : trimStartChars (trimStartChars text.toList).reverse = c :: front.reverse := by
    have h := congrArg List.reverse hchars
    simpa [trimChars, trimEndChars, trimStartChars] using h
  refine ⟨String.ofList front, String.ofList [c], ?_, ?_⟩
  · rw [trim, hchars, List.concat_eq_append, String.ofList_append]
  · rw [String.toList_ofList]
    exact isWord_singleton (isBlank_eq_false_of_trimStartChars hreverse)

/-- Holds of texts with a word at their start. -/
def StartsInWord (text : String) : Prop :=
  ∃ first rest, text = first ++ rest ∧ IsWord first.toList

/-- Nothing is trimmed in front of a text that starts with a word, whatever follows. -/
theorem StartsInWord.trimStart_append {text : String} (h : StartsInWord text) (rest : String)
    : trimStart (text ++ rest) = text ++ rest := by
  obtain ⟨first, middle, rfl, hfirst⟩ := h
  have hself := trimStartChars_eq_self hfirst.2
  rw [← String.toList_inj, trimStart, String.toList_ofList, String.append_assoc,
    String.toList_append, trimStartChars_append (by rw [hself]; exact hfirst.1), hself]

end Text

-----------------------------------------------------------------------------------------
-- Trees and documents
-----------------------------------------------------------------------------------------

/-- A printed node is trimmed text with a quote in it. -/
theorem Tree.endsInWord_print (grammar : Grammar) (tokens : Array Token) (tree : Tree)
    : EndsInWord (tree.print grammar tokens) := by
  obtain ⟨label, start, stop, children⟩ := tree
  obtain ⟨front, hquote, -⟩ := exists_quote_eq (Tree.text tokens (node label start stop children))
  have hmark : isBlankText "\"" = false := by decide
  rw [print_eq_fold, fold, printNode]
  refine endsInWord_trim ?_
  split <;> simp [hquote, hmark]

/-- A document ends in a quote, a digit or a bracket.  None of these is a blank, so trimming leaves
the document as it is. -/
theorem Json.endsInWord_pretty (document : Json)
    : EndsInWord document.pretty := by
  rw [pretty]
  cases document with
  | text value =>
      have hquote
          : quote value
            = String.ofList ('"' :: value.toList.flatMap escapeChar) ++ String.ofList ['"'] := by
        rw [quote, ← String.ofList_append]
        rfl
      have hmark : IsWord (String.ofList ['"']).toList := isWord_singleton (by decide)
      rw [prettyAt, hquote]
      exact endsInWord_append _ hmark
  | number value => simpa [prettyAt] using endsInWord_append "" (isWord_toString value)
  | list items =>
      have hbracket : IsWord "]".toList := isWord_singleton (by decide)
      cases items with
      | nil => exact endsInWord_append "[" hbracket
      | cons item items =>
          rw [prettyAt]
          exact endsInWord_append _ hbracket
  | object fields =>
      have hbrace : IsWord "\x7d".toList := isWord_singleton (by decide)
      cases fields with
      | nil => exact endsInWord_append "\x7b" hbrace
      | cons field fields =>
          rw [prettyAt]
          exact endsInWord_append _ hbrace

-----------------------------------------------------------------------------------------
-- Values and functions
-----------------------------------------------------------------------------------------

/-- The structure of a value ends in a closing parenthesis.  So trimming leaves it as it is. -/
theorem Value.endsInWord_inspect (value : Value)
    : EndsInWord value.inspect := by
  have hparen : IsWord ")".toList := isWord_singleton (by decide)
  have hclose : " \x7d)" = " \x7d" ++ ")" := rfl
  have hcloseList : "] \x7d)" = "] \x7d" ++ ")" := rfl
  unfold inspect
  cases value with
  | var _ | constant _ | parens _ => exact endsInWord_append _ hparen
  | binary _ _ _ _ | unary _ _ _ =>
      simp only [inspectOperation, hclose, ← String.append_assoc]
      exact endsInWord_append _ hparen
  | call _ _ | element _ _ =>
      simp only [hcloseList, ← String.append_assoc]
      exact endsInWord_append _ hparen

/-- The statement that returns a value of words is one line of a body.  The value ends in a word, so
nothing of the line is trimmed. -/
theorem Statement.linesAll_returns {value : Value} (h : ∀ text ∈ value.texts, IsWord text.toList)
    : linesAll 1 [.returns (some value)] = ["  return " ++ value.render ++ ";"] := by
  have hword : IsWord "return".toList := by simp [IsWord, isBlank]
  have hvalue : EndsInWord (" " ++ value.render) := (value.endsInWord_render h).prepend " "
  have htext : "return " ++ value.render = "return" ++ (" " ++ value.render) := by
    rw [← String.append_assoc]
    rfl
  have htrim : trim ("return " ++ value.render) = "return " ++ value.render := by
    rw [htext, (trim_word_append hword hvalue).1]
  have hblank : isBlankText ("return " ++ value.render) = false := by
    have hreturn : isBlankText "return " = false := by decide
    simp [hreturn]
  simp only [linesAll, lines, render, Layout.simple, hblank, htrim]
  rw [← String.append_assoc]
  rfl

/-- A function that returns a value of words is written on three lines.  What is trimmed is the line
feed that a function has behind it. -/
theorem CommandLine.trimEnd_valueFunction {name returnType : String}
    (htype : StartsInWord returnType) {value : Value}
    (h : ∀ text ∈ value.texts, IsWord text.toList)
    : trimEnd (valueFunction name returnType value)
      = returnType ++ " " ++ name ++ "() \x7b\n  return " ++ value.render ++ ";\n\x7d" := by
  let header := Header.function returnType name [] false
  have hplain : (Statement.returns (some value)).IsPlain := by
    refine ⟨fun text htext => ?_, List.forall_mem_nil _⟩
    exact (h text (by simpa [Statement.texts] using htext)).isLine
  have hbody :=
    Statement.indentBody_finishAll (List.forall_mem_singleton.2 hplain)
      (List.forall_mem_singleton.2 (Statement.finish_render_of_simple rfl))
  have hheader : trimStart header.render = returnType ++ (" " ++ name ++ "()") := by
    rw [← htype.trimStart_append]
    simp [header, Header.render, String.append_assoc]
  have hdefinition : header.isPrototype = false := rfl
  have hfinish := Statement.finish_braced hdefinition hbody true
  simp only [Statement.lines, Statement.linesAll_returns h, hheader] at hfinish
  have htext
      : valueFunction name returnType value
        = returnType ++ " " ++ name ++ "() \x7b\n  return " ++ value.render ++ ";\n" ++ "\x7d"
          ++ "\n" := by
    rw [valueFunction, renderBlock, Statement.finishAll, Statement.finishAll,
      String.intercalate_singleton]
    refine hfinish.trans ?_
    rw [← String.toList_inj]
    simp [Layout.indent, hdefinition]
  have hbrace : IsWord "\x7d".toList := isWord_singleton (by decide)
  rw [htext, (endsInWord_append _ hbrace).trimEnd_newline, String.append_assoc]
  rfl

end Formulary
