import Formulary.Proofs.Grammar.Numbering
import Formulary.Proofs.Text.Blank
import Formulary.Proofs.Text.Lines
import Mathlib.Data.List.Basic

/-! Writing a grammar and reading the text back.
A rule that was read can be written on a line of its own, and the line is read as the same rule.
The nonterminals then come in the same order, so the whole grammar is the same again.
-/

namespace Formulary

open Text

-----------------------------------------------------------------------------------------
-- What a line of a grammar says
-----------------------------------------------------------------------------------------

namespace Rule

/-- The left side of a line is a single word that names no category. -/
theorem readHead_eq_ok_iff {chars : List Char} {name : String}
    : readHead chars = .ok name
      ↔ IsWord (trimChars chars)
        ∧ Tag.ofName? (String.ofList (trimChars chars)) = none
        ∧ name = String.ofList (trimChars chars) := by
  by_cases hword : IsWord (trimChars chars)
  · rw [readHead, if_neg (by rwa [← not_isWord_iff, not_not])]
    cases Tag.ofName? (String.ofList (trimChars chars)) with
    | some tag => simp
    | none => simp [hword, eq_comm]
  · rw [readHead, if_pos (not_isWord_iff.1 hword)]
    simp [hword]

/-- A line is a rule when both sides of its first equals sign are in order.  The right side may hold
further equals signs. -/
theorem read_eq_ok_iff {line : List Char} {rule : Rule String}
    : read line = .ok rule
      ↔ ∃ right,
          line.dropWhile (· != '=') = '=' :: right
          ∧ readHead (line.takeWhile (· != '=')) = .ok rule.head
          ∧ readBody ((wordChars right).map String.ofList) = .ok rule.body := by
  obtain ⟨head, body⟩ := rule
  rw [read]
  cases hrest : line.dropWhile (· != '=') with
  | nil => simp
  | cons c right =>
      have hc : c = '=' := by
        have hhead := List.head?_dropWhile_not (· != '=') line
        simpa [hrest] using hhead
      cases hleft : readHead (line.takeWhile (· != '=')) with
      | error fault => simp [bind, Except.bind]
      | ok name =>
          cases hright : readBody ((wordChars right).map String.ofList) with
          | error fault => simp [hc, bind, Except.bind, hright]
          | ok symbols => simp [hc, bind, Except.bind, pure, Except.pure, hright]

/-- A line is passed over when it is empty or begins with a mark. -/
theorem isPassedOver_iff {line : List Char}
    : isPassedOver line = true ↔ line = [] ∨ ['#'] <+: line ∨ ['/', '/'] <+: line := by
  fun_cases isPassedOver line with
  | case1 => simp
  | case2 tail => simp
  | case3 tail => simp
  | case4 line hnil hhash hslash =>
      refine iff_of_false Bool.false_ne_true ?_
      rintro (rfl | ⟨rest, rfl⟩ | ⟨rest, rfl⟩)
      · exact hnil rfl
      · exact hhash rest rfl
      · exact hslash rest rfl

/-- A mark that has a line passed over lies in the first word of the line. -/
theorem isPassedOver_append {name : List Char} (hne : name ≠ []) (h : isPassedOver name = true)
    (rest : List Char)
    : isPassedOver (name ++ rest) = true := by
  rw [isPassedOver_iff] at h ⊢
  rcases h with rfl | hhash | hslashes
  · exact (hne rfl).elim
  · exact .inr (.inl (hhash.trans (List.prefix_append _ _)))
  · exact .inr (.inr (hslashes.trans (List.prefix_append _ _)))

/-- No such mark comes about by a blank behind a name. -/
theorem isPassedOver_append_blank {name : List Char} (h : isPassedOver name = false)
    (rest : List Char)
    : isPassedOver (name ++ ' ' :: rest) = false := by
  rw [Bool.eq_false_iff, Ne, isPassedOver_iff] at h ⊢
  match name with
  | [] => simp at h
  | [c] => simpa using h
  | c :: d :: name => simpa using h

end Rule

-----------------------------------------------------------------------------------------
-- Rules that a line can hold
-----------------------------------------------------------------------------------------

/-- A symbol that is written as one word, which denotes the symbol. -/
structure Symbol.Legible (symbol : Symbol String) : Prop where
  isWord : IsWord symbol.word.toList
  ofWord_word : Symbol.ofWord symbol.word = symbol

/-- A rule whose symbols can be written as words, with a left side that nothing on a line can be
taken for. -/
structure Rule.Legible (rule : Rule String) : Prop where
  isWord : IsWord rule.head.toList
  noTag : Tag.ofName? rule.head = none
  noEquals : '=' ∉ rule.head.toList
  inUse : Rule.isPassedOver rule.head.toList = false
  symbols : ∀ symbol ∈ rule.body.symbols, symbol.Legible

namespace Tag

/-- The keyword of a token category names it. -/
theorem ofName?_keyword (tag : Tag)
    : ofName? tag.keyword = some tag := by
  cases tag <;> decide

/-- The keyword of a token category can be written as a symbol of a rule. -/
theorem isWord_keyword (tag : Tag)
    : IsWord tag.keyword.toList := by
  cases tag <;> simp [IsWord, keyword, isBlank]

end Tag

namespace Symbol

/-- What a word denotes is written as a word again, though perhaps in other letter case. -/
theorem legible_ofWord {word : String} (h : IsWord word.toList)
    : (ofWord word).Legible := by
  rw [ofWord]
  cases hword : Tag.ofName? word with
  | some tag => exact ⟨tag.isWord_keyword, by rw [Symbol.word, ofWord, tag.ofName?_keyword]⟩
  | none => exact ⟨h, by rw [Symbol.word, ofWord, hword]⟩

end Symbol

namespace Body

/-- The symbols of a right side as a line shows them. -/
def text (body : Body String) : List Char :=
  (" ".intercalate (body.symbols.map Symbol.word)).toList

/-- The right side of a unit rule is written as its symbol. -/
theorem text_unit (symbol : Symbol String)
    : (unit symbol).text = symbol.word.toList := by
  simp [text, symbols]

/-- The right side of a pair rule is written as its symbols with a blank between. -/
theorem text_pair (left right : Symbol String)
    : (pair left right).text = left.word.toList ++ ' ' :: right.word.toList := by
  simp [text, symbols, String.intercalate_cons_cons]

/-- Legible symbols are the words of their text, which reads as the body that they make up. -/
theorem readBody_text {body : Body String} (h : ∀ symbol ∈ body.symbols, symbol.Legible)
    : Rule.readBody ((wordChars body.text).map String.ofList) = .ok body := by
  cases body with
  | unit symbol =>
      have hsymbol := h symbol (by simp [symbols])
      simp [text_unit, hsymbol.isWord.wordChars_eq, Rule.readBody, hsymbol.ofWord_word]
  | pair left right =>
      have hleft := h left (by simp [symbols])
      have hright := h right (by simp [symbols])
      rw [text_pair, wordChars_append_blank (by decide), hleft.isWord.wordChars_eq,
        hright.isWord.wordChars_eq]
      simp [Rule.readBody, hleft.ofWord_word, hright.ofWord_word]

/-- A right side of legible symbols is written without a line break. -/
theorem isLine_text {body : Body String} (h : ∀ symbol ∈ body.symbols, symbol.Legible)
    : IsLine body.text := by
  cases body with
  | unit symbol =>
      rw [text_unit]
      exact (h symbol (by simp [symbols])).isWord.isLine
  | pair left right =>
      rw [text_pair, isLine_append, isLine_cons]
      exact ⟨(h left (by simp [symbols])).isWord.isLine, by decide,
        (h right (by simp [symbols])).isWord.isLine⟩

/-- The text of a right side ends with the word of its last symbol. -/
theorem exists_text_eq (body : Body String)
    : ∃ front, body.text = front ++ body.last.word.toList := by
  cases body with
  | unit symbol => exact ⟨[], text_unit symbol⟩
  | pair left right => exact ⟨left.word.toList ++ [' '], by simp [text_pair, last]⟩

/-- The last symbol of a right side is one of its symbols. -/
theorem last_mem_symbols (body : Body String)
    : body.last ∈ body.symbols := by
  cases body <;> simp [last, symbols]

/-- Words are read as legible symbols. -/
theorem legible_of_readBody {words : List (List Char)} (hwords : ∀ word ∈ words, IsWord word)
    {body : Body String} (h : Rule.readBody (words.map String.ofList) = .ok body)
    : ∀ symbol ∈ body.symbols, symbol.Legible := by
  have hlegible : ∀ word ∈ words, (Symbol.ofWord (String.ofList word)).Legible :=
    fun word hword => Symbol.legible_ofWord (by simpa using hwords word hword)
  match words with
  | [] => cases h
  | [only] =>
      cases h
      simpa [symbols] using hlegible
  | [left, right] =>
      cases h
      simpa [symbols] using hlegible
  | _ :: _ :: _ :: _ => cases h

end Body

namespace Rule

/-- What is read from a line in use is legible.  The left side is what the line begins with.  So it
is in use as the line is. -/
theorem legible_of_read {source : List Char} (hsource : isPassedOver (trimChars source) = false)
    {rule : Rule String} (h : read (trimChars source) = .ok rule)
    : rule.Legible := by
  obtain ⟨right, hright, hhead, hbody⟩ := read_eq_ok_iff.1 h
  obtain ⟨hword, htag, hname⟩ := readHead_eq_ok_iff.1 hhead
  generalize hleft : (trimChars source).takeWhile (· != '=') = left at hword htag hname
  have htoList : rule.head.toList = trimChars left := by
    rw [hname, String.toList_ofList]
  have hbegins : trimChars left <+: left := by
    cases left with
    | nil => exact List.nil_prefix
    | cons c left =>
        -- The left side begins as the trimmed line does, with no blank.
        have hline : trimChars source = c :: (left ++ '=' :: right) := by
          rw [← List.takeWhile_append_dropWhile (p := (· != '=')) (l := trimChars source), hleft,
            hright, List.cons_append]
        exact trimChars_prefix (isBlank_eq_false_of_trimChars hline) left
  have hunused : ∀ c ∈ left, (c != '=') = true :=
    fun c hc => List.mem_takeWhile_imp (p := (· != '=')) (hleft ▸ hc)
  refine ⟨htoList ▸ hword, hname ▸ htag, ?_, ?_, ?_⟩
  · rw [htoList]
    intro hmem
    simpa using hunused '=' (hbegins.subset hmem)
  · rw [htoList, ← Bool.not_eq_true]
    intro hpassed
    obtain ⟨rest, hrest⟩ := hbegins.trans (hleft ▸ List.takeWhile_prefix _)
    have hline := isPassedOver_append hword.1 hpassed rest
    rw [hrest, hsource] at hline
    cases hline
  · exact Body.legible_of_readBody (fun word hmem => isWord_of_mem_wordChars hmem) hbody

/-- A rule is written as its left side, an equals sign between blanks, and its right side. -/
theorem toList_line (rule : Rule String)
    : rule.line.toList = rule.head.toList ++ ' ' :: '=' :: ' ' :: rule.body.text := by
  simp [line, Body.text]

variable {rule : Rule String}

/-- A legible rule is written on one line. -/
theorem Legible.isLine_line (h : rule.Legible)
    : IsLine rule.line.toList := by
  rw [toList_line, isLine_append]
  refine ⟨h.isWord.isLine, ?_⟩
  simpa using Body.isLine_text h.symbols

/-- No blank stands around the line of a legible rule: a word begins it and a word ends it. -/
theorem Legible.trimChars_line (h : rule.Legible)
    : trimChars rule.line.toList = rule.line.toList := by
  obtain ⟨front, hfront⟩ := rule.body.exists_text_eq
  have hlast := (h.symbols _ rule.body.last_mem_symbols).isWord
  rw [toList_line, hfront]
  exact trimChars_of_words h.isWord (' ' :: '=' :: ' ' :: front) hlast

/-- The line of a legible rule is in use: it begins with its left side, which is neither blank nor
marked as a comment. -/
theorem Legible.isPassedOver_line (h : rule.Legible)
    : isPassedOver rule.line.toList = false := by
  rw [toList_line]
  exact isPassedOver_append_blank h.inUse _

/-- The line of a legible rule is read back as the rule: the first equals sign ends the left side,
as no name has one, and the blanks tell the symbols of the right side apart. -/
theorem Legible.read_line (h : rule.Legible)
    : read rule.line.toList = .ok rule := by
  have hbefore : ∀ c ∈ rule.head.toList ++ [' '], (c != '=') = true := by
    rw [List.forall_mem_append]
    refine ⟨fun c hc => ?_, by simp⟩
    rw [bne_iff_ne]
    exact fun heq => h.noEquals (heq ▸ hc)
  have hline : rule.line.toList = (rule.head.toList ++ [' ']) ++ '=' :: ' ' :: rule.body.text := by
    simp [toList_line]
  rw [read_eq_ok_iff, hline]
  refine ⟨' ' :: rule.body.text, ?_, ?_, ?_⟩
  · rw [List.dropWhile_append_of_pos hbefore]
    rfl
  · rw [List.takeWhile_append_of_pos hbefore, readHead_eq_ok_iff]
    have hhead := h.isWord.trimChars_append_blank (c := ' ') (by decide)
    have hnil : ('=' :: ' ' :: rule.body.text).takeWhile (· != '=') = [] := rfl
    rw [hnil, List.append_nil, hhead, String.ofList_toList]
    exact ⟨h.isWord, h.noTag, rfl⟩
  · rw [wordChars_cons_blank (by decide)]
    exact Body.readBody_text h.symbols

/-- Lines that hold legible rules are read as these rules.  By induction on the rules, each of which
takes up a line of its own. -/
theorem readLines_lines {rules : List (Rule String)} (h : ∀ rule ∈ rules, rule.Legible)
    (number : Nat)
    : readLines number (lineChars (String.join (rules.map fun rule => rule.line ++ "\n")).toList)
      = .ok rules := by
  induction rules generalizing number with
  | nil => rfl
  | cons rule rules ih =>
      obtain ⟨hrule, hrules⟩ := List.forall_mem_cons.1 h
      have htext
          : (String.join ((rule :: rules).map fun rule => rule.line ++ "\n")).toList
            = rule.line.toList
              ++ '\n' :: (String.join (rules.map fun rule => rule.line ++ "\n")).toList := by
        simp
      rw [htext, lineChars_append_newline hrule.isLine_line, readLines, hrule.trimChars_line,
        hrule.isPassedOver_line, hrule.read_line]
      simp only [ih hrules, Except.map, Bool.false_eq_true, if_false]

/-- All rules that are read from a text are legible.  By induction on the lines. -/
theorem legible_of_readLines {number : Nat} {lines : List (List Char)} {rules : List (Rule String)}
    (h : readLines number lines = .ok rules)
    : ∀ rule ∈ rules, rule.Legible := by
  induction lines generalizing number rules with
  | nil =>
      cases h
      exact List.forall_mem_nil _
  | cons line lines ih =>
      simp only [readLines] at h
      split at h
      · exact ih h
      · rename_i hused
        split at h
        · cases h
        · rename_i rule hrule
          cases hrest : readLines (number + 1) lines with
          | error fault =>
              rw [hrest] at h
              cases h
          | ok others =>
              rw [hrest] at h
              cases h
              exact List.forall_mem_cons.2 ⟨legible_of_read (by simpa using hused) hrule, ih hrest⟩

end Rule

namespace Grammar

/-- The text of a grammar that was compiled compiles to the same grammar: the names with their
numbers, the rules with their order, and all tables are the same.  Every rule is written on a line
that is read as the rule, so names come up in the order in which they did before. -/
theorem compile_render {text : String} {grammar : Grammar} (h : compile text = .ok grammar)
    : compile grammar.render = .ok grammar := by
  obtain ⟨rules, hread, hrules⟩ := exists_rules_of_compile h
  have hrender : grammar.render = String.join (rules.map fun rule => rule.line ++ "\n") := by
    rw [render, ← map_nonterminalName_of_ofRules hrules, List.map_map]
    rfl
  have hagain : Rule.readText grammar.render = .ok rules := by
    rw [hrender, Rule.readText]
    exact Rule.readLines_lines (Rule.legible_of_readLines hread) 1
  rw [compile_of_readText hagain, hrules]

/-- Names may hold the marks of comments and, on the right, equals signs. -/
theorem compile_render_marks
    : ∃ grammar,
        compile "/ =a=b #c\r\n\n// no rule\n  p\t= NUMBER" = .ok grammar
        ∧ grammar.render = "/ = a=b #c\np = number\n"
        ∧ compile grammar.render = .ok grammar := by
  have hrender
      : (compile "/ =a=b #c\r\n\n// no rule\n  p\t= NUMBER").map render
        = .ok "/ = a=b #c\np = number\n" := by
    decide +kernel
  cases hgrammar : compile "/ =a=b #c\r\n\n// no rule\n  p\t= NUMBER" with
  | error error =>
      rw [hgrammar] at hrender
      cases hrender
  | ok grammar =>
      rw [hgrammar] at hrender
      exact ⟨grammar, rfl, Except.ok.inj hrender, compile_render hgrammar⟩

end Grammar

end Formulary
