import Formulary.Proofs.Code.Layout
import Formulary.Proofs.Grammar.Names
import Formulary.Proofs.Parse.Derivation
import Formulary.Proofs.Text.Quoted
import Formulary.Proofs.Tree.Outline
import Formulary.Tree

/-! The printed form of a tree, line by line.
Printing splits what is printed for the children into lines, indents these and trims the whole at
every node.  No line is broken, lost or trimmed by this: a tree is printed as the lines of its
nodes in pre-order.  Each line shows the depth and the label of its node, and so the print tells
which tree it is of.
-/

namespace Formulary

open Text

-----------------------------------------------------------------------------------------
-- Texts that begin and end with words
-----------------------------------------------------------------------------------------

namespace Text

/-- Holds of texts with a word at their end. -/
def EndsInWord (text : String) : Prop :=
  ∃ front last, text = front ++ last ∧ IsWord last.toList

/-- What stands in front does not change how a text ends. -/
theorem EndsInWord.prepend {text : String} (h : EndsInWord text) (front : String)
    : EndsInWord (front ++ text) := by
  obtain ⟨middle, last, rfl, hlast⟩ := h
  exact ⟨front ++ middle, last, (String.append_assoc ..).symm, hlast⟩

/-- A text ends with the last of the texts that it is joined from. -/
theorem endsInWord_intercalate (separator : String) {texts : List String} (hne : texts ≠ [])
    (h : ∀ text ∈ texts, EndsInWord text)
    : EndsInWord (separator.intercalate texts) := by
  obtain ⟨first, last, rfl⟩ := (List.eq_nil_or_concat texts).resolve_left hne
  have hlast := h last (by simp)
  rw [List.concat_eq_append, intercalate_append_cons, String.intercalate_singleton]
  exact hlast.prepend _

/-- Nothing is trimmed between words at both ends, with or without a line feed behind them. -/
theorem trim_word_append {first text : String} (hfirst : IsWord first.toList)
    (htext : EndsInWord text)
    : trim (first ++ text) = first ++ text ∧ trim (first ++ text ++ "\n") = first ++ text := by
  obtain ⟨middle, last, rfl, hlast⟩ := htext
  have hchars := trimChars_of_words hfirst middle.toList hlast
  constructor
  · rw [← String.toList_inj]
    simpa [trim] using hchars
  · have hfeed := trimChars_concat_blank (first ++ (middle ++ last)).toList
      (by decide : isBlank '\n' = true)
    rw [← String.toList_inj]
    simpa [trim, hchars] using hfeed

/-- The blanks in front of a text and the word behind them. -/
def blanksAndWord (chars : List Char) : List Char × List Char :=
  (chars.takeWhile isBlank, (chars.dropWhile isBlank).takeWhile (!isBlank ·))

/-- Blanks and a word in front of a blank are read off the line. -/
theorem blanksAndWord_append {blanks word : List Char}
    (hblanks : ∀ c ∈ blanks, isBlank c = true) (hword : IsWord word) (rest : List Char)
    : blanksAndWord (blanks ++ (word ++ ' ' :: rest)) = (blanks, word) := by
  have hnoBlanks : (word ++ ' ' :: rest).takeWhile isBlank = [] := by
    obtain ⟨c, word, rfl⟩ := List.exists_cons_of_ne_nil hword.1
    simp [hword.2 c List.mem_cons_self]
  have hstart : trimStartChars (word ++ ' ' :: rest) = word ++ ' ' :: rest := by
    have hself := trimStartChars_eq_self hword.2
    rw [trimStartChars_append (by rw [hself]; exact hword.1), hself]
  have hend : (' ' :: rest).takeWhile (!isBlank ·) = [] := rfl
  rw [blanksAndWord, List.takeWhile_append_of_pos hblanks, List.dropWhile_append_of_pos hblanks,
    hnoBlanks, ← trimStartChars, hstart,
    List.takeWhile_append_of_pos (by simpa using hword.2), hend, List.append_nil, List.append_nil]

end Text

/-- An indentation is made of two blanks for every level. -/
theorem Layout.toList_indent (depth : Nat)
    : (indent depth).toList = List.replicate (2 * depth) ' ' := by
  induction depth with
  | zero => rfl
  | succ depth ih =>
      rw [indent, String.toList_append, ih, Nat.mul_succ, Nat.add_comm, List.replicate_add]
      rfl

-----------------------------------------------------------------------------------------
-- The lines of a tree
-----------------------------------------------------------------------------------------

namespace Tree

/-- Holds of trees whose labels all have names in a grammar. -/
def KnownTo (grammar : Grammar) (tree : Tree) : Prop :=
  ∀ node ∈ tree.nodes, grammar.Knows node.label

/-- The labels of a tree are known to a grammar if that of the root is and those of the children
are. -/
theorem knownTo_node {grammar : Grammar} {label : Symbol Nat} {start stop : Nat}
    {children : List Tree}
    : (node label start stop children).KnownTo grammar
      ↔ grammar.Knows label ∧ ∀ child ∈ children, child.KnownTo grammar := by
  rw [KnownTo, nodes_node, List.forall_mem_cons, List.forall_mem_flatMap]
  rfl

/-- The label of the root is among those of the tree. -/
theorem KnownTo.label {grammar : Grammar} {tree : Tree} (h : tree.KnownTo grammar)
    : grammar.Knows tree.label := by
  cases tree with
  | node label start stop children => exact (knownTo_node.1 h).1

/-- A derivation shows only symbols of its grammar's rules below the root. -/
theorem knownTo_of_derivation {grammar : Grammar} {tags : Array Tag} {label : Symbol Nat}
    {start stop : Nat} {tree : Tree}
    (h : Parse.Derivation grammar tags label start stop tree) (hlabel : grammar.Knows label)
    : tree.KnownTo grammar := by
  induction h with
  | leaf _ => exact knownTo_node.2 ⟨hlabel, List.forall_mem_nil _⟩
  | unit hrule _ ih =>
      have hchild := ih (Grammar.knows_of_rule hrule (by simp [Body.symbols]))
      exact knownTo_node.2 ⟨hlabel, List.forall_mem_singleton.2 hchild⟩
  | pair hrule _ _ _ _ ihLeft ihRight =>
      have hleft := ihLeft (Grammar.knows_of_rule hrule (by simp [Body.symbols]))
      have hright := ihRight (Grammar.knows_of_rule hrule (by simp [Body.symbols]))
      exact knownTo_node.2
        ⟨hlabel, List.forall_mem_cons.2 ⟨hleft, List.forall_mem_singleton.2 hright⟩⟩

/-- The line of a node so many levels deep: its label and its quoted text, with a colon if there
are children beneath it. -/
def outlineLine (grammar : Grammar) (tokens : Array Token) (depth : Nat) (tree : Tree) : String :=
  Layout.indent depth
    ++ (grammar.symbolName tree.label
      ++ (" " ++ Text.quote (tree.text tokens) ++ if tree.isLeaf then "" else ":"))

/-- The lines of the nodes of a tree in pre-order. -/
def outlineLines (grammar : Grammar) (tokens : Array Token) (depth : Nat) (tree : Tree)
    : List String :=
  (tree.outline depth).map fun entry => outlineLine grammar tokens entry.1 entry.2

section Lines

variable (grammar : Grammar) (tokens : Array Token)

/-- The lines of a tree are that of its root and then those of its children, one level deeper. -/
theorem outlineLines_node (depth : Nat) (label : Symbol Nat) (start stop : Nat)
    (children : List Tree)
    : (node label start stop children).outlineLines grammar tokens depth
      = outlineLine grammar tokens depth (node label start stop children)
        :: children.flatMap (outlineLines grammar tokens (depth + 1)) := by
  rw [outlineLines, outline, outlineAll_eq_flatMap, List.map_cons, List.map_flatMap]
  rfl

/-- A level more only indents the lines. -/
theorem outlineLines_succ (depth : Nat) (tree : Tree)
    : tree.outlineLines grammar tokens (depth + 1)
      = (tree.outlineLines grammar tokens depth).map ("  " ++ ·) := by
  rw [outlineLines, outline_succ, List.map_map, outlineLines, List.map_map]
  apply List.map_congr_left
  intro entry _
  simp [outlineLine, Layout.indent, String.append_assoc]

/-- Behind the indentation a line begins and ends with a word. -/
theorem exists_outlineLine_eq (depth : Nat) (tree : Tree)
    : ∃ rest,
        outlineLine grammar tokens depth tree
          = Layout.indent depth ++ (grammar.symbolName tree.label ++ rest)
        ∧ EndsInWord rest := by
  refine ⟨_, rfl, ?_⟩
  split
  · obtain ⟨front, hquote, -⟩ := exists_quote_eq (tree.text tokens)
    exact ⟨" " ++ front, "\"", by simp [hquote, String.append_assoc],
      isWord_singleton (by decide)⟩
  · exact ⟨_, ":", rfl, isWord_singleton (by decide)⟩

/-- Trees have at least one line if there is any. -/
theorem flatMap_outlineLines_ne_nil (depth : Nat) {trees : List Tree} (hne : trees ≠ [])
    : trees.flatMap (outlineLines grammar tokens depth) ≠ [] := by
  obtain ⟨⟨label, start, stop, children⟩, others, rfl⟩ := List.exists_cons_of_ne_nil hne
  rw [List.flatMap_cons, outlineLines_node]
  exact List.cons_ne_nil _ _

variable {grammar tokens}

/-- Every line of a tree ends in a word, so trimming it takes nothing away. -/
theorem endsInWord_of_mem_outlineLines {depth : Nat} {tree : Tree} {line : String}
    (h : line ∈ tree.outlineLines grammar tokens depth)
    : EndsInWord line := by
  obtain ⟨⟨level, node⟩, -, rfl⟩ := List.mem_map.1 h
  obtain ⟨rest, hline, hrest⟩ := exists_outlineLine_eq grammar tokens level node
  rw [hline]
  exact (hrest.prepend _).prepend _

end Lines

section Compiled

variable {source : String} {grammar : Grammar} (hgrammar : Grammar.compile source = .ok grammar)
  (tokens : Array Token)

include hgrammar

/-- The line of a node has no line break in it: the name of a label has none and the quoted text has
its own escaped. -/
theorem oneLine_outlineLine (depth : Nat) {tree : Tree} (h : grammar.Knows tree.label)
    : OneLine (outlineLine grammar tokens depth tree) := by
  obtain ⟨front, hquote, hfront⟩ := exists_quote_eq (tree.text tokens)
  have hname := (Grammar.isWord_symbolName hgrammar h).isLine
  rw [outlineLine, hquote]
  simp only [oneLine_append]
  refine ⟨Layout.oneLine_indent depth, hname, ⟨by decide, hfront, by decide⟩, ?_⟩
  split <;> decide

/-- What the lines of a tree are joined to falls into the same lines again.  None of them has a line
end in it, and none is empty. -/
theorem lines_intercalate_outlineLines {depth : Nat} {tree : Tree} (h : tree.KnownTo grammar)
    : lines ("\n".intercalate (tree.outlineLines grammar tokens depth))
      = tree.outlineLines grammar tokens depth := by
  have hlines
      : ∀ line ∈ tree.outlineLines grammar tokens depth, OneLine line ∧ line ≠ "" := by
    intro line hline
    obtain ⟨front, last, hword, hlast⟩ := endsInWord_of_mem_outlineLines hline
    obtain ⟨⟨level, node⟩, hentry, rfl⟩ := List.mem_map.1 hline
    have hnode : node ∈ tree.nodes := by
      rw [← tree.map_snd_outline depth]
      exact List.mem_map_of_mem hentry
    refine ⟨oneLine_outlineLine hgrammar tokens level (h node hnode), ?_⟩
    rw [hword]
    intro hempty
    exact hlast.1 (by simp_all)
  exact lines_intercalate (fun line hline => (hlines line hline).1) fun line hline =>
    (hlines line hline).2

/-- The printed children are taken apart into their lines, and these are indented. -/
theorem join_map_indentLine {children : List Tree} (hne : children ≠ [])
    (h : ∀ child ∈ children, child.KnownTo grammar)
    : String.join
        (((children.map fun child =>
            "\n".intercalate (child.outlineLines grammar tokens 0)).flatMap lines).map indentLine)
      = "\n".intercalate (children.flatMap (outlineLines grammar tokens 1)) ++ "\n" := by
  rw [← join_map_append_separator _ (flatMap_outlineLines_ne_nil grammar tokens 1 hne),
    List.flatMap_map, List.map_flatMap, List.map_flatMap]
  refine congrArg String.join (List.flatMap_congr fun child hchild => ?_)
  rw [lines_intercalate_outlineLines hgrammar tokens (h child hchild), outlineLines_succ,
    List.map_map]
  rfl

/-- If the children are printed line by line, so is the node. -/
theorem printNode_intercalate {label : Symbol Nat} (hlabel : grammar.Knows label)
    (start stop : Nat) {children : List Tree} (h : ∀ child ∈ children, child.KnownTo grammar)
    : printNode (grammar.symbolName label) tokens (node label start stop children)
          (children.map fun child => "\n".intercalate (child.outlineLines grammar tokens 0))
      = "\n".intercalate ((node label start stop children).outlineLines grammar tokens 0) := by
  have hname : IsWord (grammar.symbolName label).toList := Grammar.isWord_symbolName hgrammar hlabel
  obtain ⟨rest, hline, hrest⟩ :=
    exists_outlineLine_eq grammar tokens 0 (node label start stop children)
  simp only [Tree.label, Layout.indent, String.empty_append] at hline
  rw [outlineLines_node, hline]
  cases children with
  | nil =>
      have hprint
          : printNode (grammar.symbolName label) tokens (node label start stop []) []
            = trim (grammar.symbolName label ++ rest) := by
        rw [← hline]
        simp [printNode, outlineLine, Layout.indent, isLeaf, Tree.children, Tree.label,
          String.append_assoc]
      rw [List.map_nil, hprint, (trim_word_append hname hrest).1]
      simp
  | cons child others =>
      have hbelow :=
        flatMap_outlineLines_ne_nil grammar tokens 1 (List.cons_ne_nil child others)
      have hends := endsInWord_intercalate "\n" hbelow fun line hline => by
        obtain ⟨_, _, hmem⟩ := List.mem_flatMap.1 hline
        exact endsInWord_of_mem_outlineLines hmem
      have hprint
          : printNode (grammar.symbolName label) tokens (node label start stop (child :: others))
              ((child :: others).map fun child =>
                "\n".intercalate (child.outlineLines grammar tokens 0))
            = trim
                (grammar.symbolName label ++ rest ++ "\n"
                  ++ ("\n".intercalate
                        ((child :: others).flatMap (outlineLines grammar tokens 1)) ++ "\n")) := by
        rw [← hline, ← join_map_indentLine hgrammar tokens (List.cons_ne_nil _ _) h]
        simp [printNode, outlineLine, Layout.indent, isLeaf, Tree.children, Tree.label,
          String.append_assoc]
      have htrim := (trim_word_append hname (hends.prepend (rest ++ "\n"))).2
      rw [String.intercalate_cons_of_ne_nil hbelow, hprint]
      simpa only [String.append_assoc] using htrim

/-- The print of a tree are its lines with a line feed between, by induction on the tree. -/
theorem print_of_knownTo {tree : Tree} (h : tree.KnownTo grammar)
    : tree.print grammar tokens = "\n".intercalate (tree.outlineLines grammar tokens 0) := by
  induction tree using children_induction with
  | node label start stop children ih =>
      obtain ⟨hlabel, hchildren⟩ := knownTo_node.1 h
      simp only [print_eq_fold] at ih
      rw [← printNode_intercalate hgrammar tokens hlabel start stop hchildren, print_eq_fold, fold,
        foldAll_eq_map]
      exact congrArg _
        (List.map_congr_left fun child hchild => ih child hchild (hchildren child hchild))

-----------------------------------------------------------------------------------------
-- From the lines back to the tree
-----------------------------------------------------------------------------------------

/-- The indentation of a line and its first word are those of the node's depth and label. -/
theorem blanksAndWord_outlineLine (depth : Nat) {tree : Tree} (h : grammar.Knows tree.label)
    : blanksAndWord (outlineLine grammar tokens depth tree).toList
      = (List.replicate (2 * depth) ' ', (grammar.symbolName tree.label).toList) := by
  have hblanks : ∀ c ∈ List.replicate (2 * depth) ' ', isBlank c = true := by
    intro c hc
    rw [List.eq_of_mem_replicate hc]
    rfl
  rw [outlineLine, String.toList_append, String.toList_append, String.toList_append,
    String.toList_append, Layout.toList_indent]
  exact blanksAndWord_append hblanks (Grammar.isWord_symbolName hgrammar h) _

/-- Nodes that are shown on the same line have the same depth and the same label. -/
theorem outlineLine_injOn {depth otherDepth : Nat} {tree other : Tree}
    (htree : grammar.Knows tree.label) (hother : grammar.Knows other.label)
    (h
      : outlineLine grammar tokens depth tree = outlineLine grammar tokens otherDepth other)
    : depth = otherDepth ∧ tree.label = other.label := by
  have hparts := blanksAndWord_outlineLine hgrammar tokens depth htree
  rw [h, blanksAndWord_outlineLine hgrammar tokens otherDepth hother] at hparts
  obtain ⟨hblanks, hname⟩ := Prod.mk.inj hparts
  have hdepth : 2 * otherDepth = 2 * depth := by
    simpa using congrArg List.length hblanks
  exact ⟨by omega,
    Grammar.symbolName_injOn hgrammar htree hother (String.toList_inj.1 hname.symm)⟩

/-- Trees with the same lines have the same sketch: the indentation tells the depth, and the word
behind it the label, as different symbols of a grammar have different names. -/
theorem sketch_eq_of_outlineLines_eq {tree other : Tree} (htree : tree.KnownTo grammar)
    (hother : other.KnownTo grammar)
    (h : tree.outlineLines grammar tokens 0 = other.outlineLines grammar tokens 0)
    : tree.sketch 0 = other.sketch 0 := by
  have hlength : (tree.outline 0).length = (other.outline 0).length := by
    simpa [outlineLines] using congrArg List.length h
  refine List.ext_getElem (by simpa [sketch] using hlength) fun position htreeLt hotherLt => ?_
  simp only [sketch, List.length_map] at htreeLt hotherLt
  have hline := List.getElem_of_eq h (by simpa [outlineLines] using htreeLt : position < _)
  simp only [outlineLines, List.getElem_map] at hline
  obtain ⟨hdepth, hlabel⟩ :=
    outlineLine_injOn hgrammar tokens
      (htree _ (List.mem_map_of_mem (List.getElem_mem htreeLt)))
      (hother _ (List.mem_map_of_mem (List.getElem_mem hotherLt))) hline
  simp only [sketch, List.getElem_map]
  exact Prod.ext hdepth hlabel

end Compiled

/-- A tree with labels of a compiled grammar is printed as the lines of its nodes in pre-order, and
what is printed tells it from all other well-formed trees that begin at the same place.  The
indentation of a line tells the depth of its node, the word behind it the label, and depths and
labels in pre-order tell the tree. -/
theorem print_eq_intercalate_outlineLines {source : String} {grammar : Grammar}
    (hgrammar : Grammar.compile source = .ok grammar) (tokens : Array Token)
    : (∀ tree : Tree,
        tree.KnownTo grammar
        → tree.print grammar tokens
          = "\n".intercalate
            ((tree.outline 0).map fun entry => outlineLine grammar tokens entry.1 entry.2))
      ∧ ∀ tree other : Tree,
          tree.KnownTo grammar
          → other.KnownTo grammar
          → tree.wellFormed = true
          → other.wellFormed = true
          → tree.start = other.start
          → tree.print grammar tokens = other.print grammar tokens
          → tree = other := by
  refine ⟨fun tree => print_of_knownTo hgrammar tokens, ?_⟩
  intro tree other htree hother htreeWellFormed hotherWellFormed hstart hprint
  have hlines := congrArg lines hprint
  rw [print_of_knownTo hgrammar tokens htree, print_of_knownTo hgrammar tokens hother,
    lines_intercalate_outlineLines hgrammar tokens htree,
    lines_intercalate_outlineLines hgrammar tokens hother] at hlines
  exact eq_of_sketch_eq htreeWellFormed hotherWellFormed hstart
    (sketch_eq_of_outlineLines_eq hgrammar tokens htree hother hlines)

/-- Two ways to group the same tokens, whose texts hold blanks, a line feed and quotes. -/
theorem print_eq_intercalate_outlineLines_groups
    : let tokens := #[Token.mk .name "a\n", .mk .addOp " + ", .mk .name "\"b\""]
      let leaf (tag : Tag) (start : Nat) := Tree.leaf (.terminal tag) start
      let tree :=
        node (.nonterminal 0) 0 3
          [node (.nonterminal 1) 0 2 [leaf .name 0, leaf .addOp 1], leaf .name 2]
      let other :=
        node (.nonterminal 0) 0 3
          [leaf .name 0, node (.nonterminal 1) 1 3 [leaf .addOp 1, leaf .name 2]]
      ∃ grammar,
        Grammar.compile "sum = head name\nhead = name addop" = .ok grammar
        ∧ tree.KnownTo grammar
        ∧ other.KnownTo grammar
        ∧ tree.wellFormed = true
        ∧ other.wellFormed = true
        ∧ tree.start = other.start
        ∧ tree.print grammar tokens
          = "\n".intercalate
            [
              "sum \"a\\n + \\\"b\\\"\":", "  head \"a\\n + \":", "    NAME \"a\\n\"",
              "    ADDOP \" + \"", "  NAME \"\\\"b\\\"\""
            ]
        ∧ tree.print grammar tokens ≠ other.print grammar tokens := by
  intro tokens leaf tree other
  let source := "sum = head name\nhead = name addop"
  have hfacts
      : (Grammar.compile source).map
          (fun grammar => (grammar.names, tree.outlineLines grammar tokens 0))
        = .ok
          (#["sum", "head"],
            [
              "sum \"a\\n + \\\"b\\\"\":", "  head \"a\\n + \":", "    NAME \"a\\n\"",
              "    ADDOP \" + \"", "  NAME \"\\\"b\\\"\""
            ]) := by
    decide +kernel
  obtain ⟨grammar, hgrammar⟩ : ∃ grammar, Grammar.compile source = .ok grammar := by
    cases hgrammar : Grammar.compile source with
    | error error =>
        rw [hgrammar] at hfacts
        cases hfacts
    | ok grammar => exact ⟨grammar, rfl⟩
  rw [hgrammar] at hfacts
  obtain ⟨hnames, hlines⟩ := Prod.mk.inj (Except.ok.inj hfacts)
  have htree : tree.KnownTo grammar := by
    simp [tree, leaf, Tree.leaf, knownTo_node, Grammar.Knows, hnames]
  have hother : other.KnownTo grammar := by
    simp [other, leaf, Tree.leaf, knownTo_node, Grammar.Knows, hnames]
  obtain ⟨hprint, hinjective⟩ := print_eq_intercalate_outlineLines hgrammar tokens
  refine ⟨grammar, hgrammar, htree, hother, by decide, by decide, rfl, ?_, ?_⟩
  · rw [hprint tree htree, ← outlineLines, hlines]
  · intro hsame
    have heq := hinjective tree other htree hother (by decide) (by decide) rfl hsame
    simp [tree, other, leaf, Tree.leaf] at heq

end Tree

end Formulary
