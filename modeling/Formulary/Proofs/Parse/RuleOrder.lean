import Formulary.Proofs.Grammar.Lines
import Formulary.Proofs.Grammar.Renumbering
import Formulary.Proofs.Parse.Comparison

/-! The order of the rules decides nothing but the order of the trees.
Rules in another order give their nonterminals other numbers, so the trees are the same under their
names only, and each comes as often.
-/

namespace Formulary

open Rule

namespace Grammar

variable {rules others : List (Rule String)} {grammar other : Grammar}

/-- Rules in another order compile where the first ones do, or both lie on a cycle. -/
theorem ofRules_perm (hperm : rules.Perm others)
    : ((∃ name, ofRules rules = .error (.unitCycle name))
        ∧ ∃ name, ofRules others = .error (.unitCycle name))
      ∨ ∃ grammar other, ofRules rules = .ok grammar ∧ ofRules others = .ok other := by
  rcases ofRules_decides rules with ⟨⟨name, hcycle⟩, hfails⟩ | ⟨hacyclic, grammar, hgrammar, -⟩
  · rcases ofRules_decides others with ⟨-, hothers⟩ | ⟨hothers, -⟩
    · exact .inl ⟨hfails, hothers⟩
    · exact (hothers name (hcycle.mono hperm.subset)).elim
  · rcases ofRules_decides others with ⟨⟨name, hcycle⟩, -⟩ | ⟨-, other, hother, -⟩
    · exact (hacyclic name (hcycle.mono hperm.symm.subset)).elim
    · exact .inr ⟨grammar, other, hgrammar, hother⟩

/-- Rules in another order give the same trees in another order, under other numbers. -/
theorem enumeration_perm (hperm : rules.Perm others) (h : ofRules rules = .ok grammar)
    (hother : ofRules others = .ok other) (tags : Array Tag) (start stop : Nat)
    (label : Symbol Nat)
    : ((Parse.enumeration grammar tags start stop label).map
          (Tree.transport (Numbering.renumber rules others) 0)).Perm
        (Parse.enumeration other tags start stop
          (label.map (Numbering.renumber rules others))) := by
  have htags : ∀ place, start ≤ place → place < stop → tags[place]? = tags[place + 0]? :=
    fun _ _ _ => rfl
  exact Parse.comparison_perm.enumeration (alternatives_perm hperm h hother) start stop label htags

/-- Under their names the trees are the same, each as often. -/
theorem named_enumeration_perm (hperm : rules.Perm others) (h : ofRules rules = .ok grammar)
    (hother : ofRules others = .ok other) (tokens : Array Token) (start stop : Nat)
    (label : Symbol Nat)
    : ((Parse.enumeration grammar (tokens.map Token.tag) start stop label).map
          (Tree.named grammar tokens)).Perm
        ((Parse.enumeration other (tokens.map Token.tag) start stop
            (label.map (Numbering.renumber rules others))).map
          (Tree.named other tokens)) := by
  have hnames
      : Tree.named other tokens ∘ Tree.transport (Numbering.renumber rules others) 0
        = Tree.named grammar tokens :=
    funext (Tree.named_transport (nonterminalName_renumber hperm h hother) tokens)
  have hmoved :=
    (enumeration_perm hperm h hother (tokens.map Token.tag) start stop label).map
      (Tree.named other tokens)
  rwa [List.map_map, hnames] at hmoved

/-- Texts whose lines in use hold rules, and are the same but for their order, fail together for a
cycle of unit rules or compile together.  Then a name denotes a symbol in both or in neither, and
over every span it has the same trees in both, each as often, where labels are shown by name.  The
numbers of the nonterminals are translated by way of their names, and the edge tables along with
them. -/
theorem compile_permuted_lines {first second : String}
    (hrules : ∀ line ∈ linesInUse first, ∃ rule, Holds line rule)
    (hperm : (linesInUse first).Perm (linesInUse second))
    : ((∃ name, compile first = .error (.unitCycle name))
        ∧ ∃ name, compile second = .error (.unitCycle name))
      ∨ ∃ grammar other,
          compile first = .ok grammar
          ∧ compile second = .ok other
          ∧ ∀ name,
              grammar.lookup? name = none ∧ other.lookup? name = none
              ∨ ∃ label otherLabel,
                  grammar.lookup? name = some label
                  ∧ other.lookup? name = some otherLabel
                  ∧ ∀ tokens start stop,
                      start ≤ stop
                      → stop ≤ tokens.size
                      → ∃ found otherFound trees otherTrees,
                          Parse.forest grammar tokens start stop label = .ok found
                          ∧ Parse.forest other tokens start stop otherLabel = .ok otherFound
                          ∧ found.Delivers trees
                          ∧ otherFound.Delivers otherTrees
                          ∧ (trees.map (Tree.named grammar tokens)).Perm
                              (otherTrees.map (Tree.named other tokens)) := by
  obtain ⟨rules, hholds, hread⟩ := exists_readText hrules
  obtain ⟨others, hothers, hreadOthers⟩ :=
    exists_readText fun line hline => hrules line (hperm.symm.subset hline)
  have hsame := perm_of_forall₂_holds hperm hholds hothers
  rw [compile_of_readText hread, compile_of_readText hreadOthers]
  rcases ofRules_perm hsame with hfails | ⟨grammar, other, hgrammar, hother⟩
  · exact .inl hfails
  · refine .inr ⟨grammar, other, hgrammar, hother, fun name => ?_⟩
    have hlookup := lookup?_of_perm hsame hgrammar hother name
    cases hlabel : grammar.lookup? name with
    | none =>
        rw [hlabel] at hlookup
        exact .inl ⟨rfl, hlookup⟩
    | some label =>
        rw [hlabel] at hlookup
        refine .inr ⟨label, _, rfl, hlookup, fun tokens start stop hspan htokens => ?_⟩
        refine Parse.exists_forests hspan htokens hspan htokens ?_
        exact named_enumeration_perm hsame hgrammar hother tokens start stop label

/-- Sums of names, with the rules back to front. -/
theorem compile_permuted_lines_sum
    : let first := "start = start tail\nstart = name\ntail = addop start"
      let second := "tail = addop start\n# turned\nstart = name\nstart = start tail\n"
      let tokens := #[Token.mk .name "a", .mk .addOp "+", .mk .name "b"]
      (∀ line ∈ linesInUse first, ∃ rule, Holds line rule)
      ∧ (linesInUse first).Perm (linesInUse second)
      ∧ ∃ grammar other label otherLabel,
          compile first = .ok grammar
          ∧ compile second = .ok other
          ∧ grammar.lookup? "start" = some label
          ∧ other.lookup? "start" = some otherLabel
          ∧ ∃ found otherFound trees otherTrees,
              Parse.forest grammar tokens 0 3 label = .ok found
              ∧ Parse.forest other tokens 0 3 otherLabel = .ok otherFound
              ∧ found.Delivers trees
              ∧ otherFound.Delivers otherTrees
              ∧ (trees.map (Tree.named grammar tokens)).Perm
                  (otherTrees.map (Tree.named other tokens)) := by
  intro first second tokens
  have hread
      : readText first
        = .ok [
            ⟨"start", .pair (.nonterminal "start") (.nonterminal "tail")⟩,
            ⟨"start", .unit (.terminal .name)⟩,
            ⟨"tail", .pair (.terminal .addOp) (.nonterminal "start")⟩
          ] := by
    decide +kernel
  have hrules := exists_rule_of_forall₂ (readText_eq_ok_iff.1 hread)
  have hperm : (linesInUse first).Perm (linesInUse second) := by decide +kernel
  have hstart : (compile first).map (lookup? · "start") = .ok (some (.nonterminal 0)) := by
    rw [compile_of_readText hread]
    decide +kernel
  rcases compile_permuted_lines hrules hperm with
    ⟨⟨name, hfails⟩, -⟩ | ⟨grammar, other, hgrammar, hother, hnames⟩
  · rw [hfails] at hstart
    cases hstart
  · rw [hgrammar] at hstart
    have hlookup : grammar.lookup? "start" = some (.nonterminal 0) := Except.ok.inj hstart
    rcases hnames "start" with ⟨hnone, -⟩ | ⟨label, otherLabel, hlabel, hotherLabel, hforests⟩
    · cases hnone.symm.trans hlookup
    · exact ⟨hrules, hperm, grammar, other, label, otherLabel, hgrammar, hother, hlabel,
        hotherLabel, hforests tokens 0 3 (by decide) (by decide)⟩

end Grammar

end Formulary
