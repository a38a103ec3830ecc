import Formulary.Proofs.Grammar.Lines
import Formulary.Proofs.Grammar.Renumbering
import Formulary.Proofs.Parse.Comparison

/-! More rules only add trees.
The rules that a grammar is extended by may belong to nonterminals anywhere in it, and they enlarge
the tables of edges.  The trees that were there all stay, and in their order.
-/

namespace Formulary

open Rule

/-- With more alternatives come more trees, between those that were there. -/
theorem Parse.enumeration_sublist {grammar larger : Grammar}
    (h : ∀ a, (grammar.alternatives a).Sublist (larger.alternatives a)) (tags : Array Tag)
    (start stop : Nat) (label : Symbol Nat)
    : (enumeration grammar tags start stop label).Sublist
        (enumeration larger tags start stop label) := by
  have hrules : ∀ a,
      ((grammar.alternatives a).map (Body.map id)).Sublist (larger.alternatives (id a)) := by
    intro a
    rw [map_id_alternatives]
    exact h a
  have htags : ∀ place, start ≤ place → place < stop → tags[place]? = tags[place + 0]? :=
    fun _ _ _ => rfl
  have hmoved := comparison_sublist.enumeration hrules start stop label htags
  rwa [List.map_congr_left fun tree _ => tree.transport_id_zero, List.map_id', Symbol.map_id,
    Nat.add_zero, Nat.add_zero] at hmoved

namespace Grammar

variable {text extended : String} {extra : List (List Char)} {grammar larger : Grammar}

/-- The rules of a text with more lines in use behind its own begin with those of the text. -/
theorem exists_rules_of_append (hlines : linesInUse extended = linesInUse text ++ extra)
    (hgrammar : compile text = .ok grammar) (hlarger : compile extended = .ok larger)
    : ∃ rules more, ofRules rules = .ok grammar ∧ ofRules (rules ++ more) = .ok larger := by
  obtain ⟨rules, hread, hrules⟩ := exists_rules_of_compile hgrammar
  obtain ⟨others, hreadOthers, hothers⟩ := exists_rules_of_compile hlarger
  rw [readText_eq_ok_iff] at hread hreadOthers
  rw [hlines] at hreadOthers
  obtain ⟨more, rfl⟩ := exists_append_of_forall₂_holds hread hreadOthers
  exact ⟨rules, more, hrules, hothers⟩

/-- A grammar whose text goes on with more lines in use keeps the symbols of the shorter one
under their names, and over every span its trees contain those of the shorter one in their order.
The longer text numbers the names of the shorter one first, and its edge tables hold at least as
much. -/
theorem compile_more_lines (hlines : linesInUse extended = linesInUse text ++ extra)
    (hgrammar : compile text = .ok grammar) (hlarger : compile extended = .ok larger)
    : (∀ name label, grammar.lookup? name = some label → larger.lookup? name = some label)
      ∧ ∀ label tokens start stop,
          start ≤ stop
          → stop ≤ tokens.size
          → ∃ found foundMore trees moreTrees,
              Parse.forest grammar tokens start stop label = .ok found
              ∧ Parse.forest larger tokens start stop label = .ok foundMore
              ∧ found.Delivers trees
              ∧ foundMore.Delivers moreTrees
              ∧ trees.Sublist moreTrees := by
  obtain ⟨rules, more, hrules, hothers⟩ := exists_rules_of_append hlines hgrammar hlarger
  refine ⟨fun name label => lookup?_of_append hrules hothers, ?_⟩
  intro label tokens start stop hspan htokens
  refine Parse.exists_forests hspan htokens hspan htokens ?_
  exact Parse.enumeration_sublist (alternatives_sublist_of_append hrules hothers) _ start stop label

/-- Sums of names, to which a product of names is added. -/
theorem compile_more_lines_product
    : let text := "start = name\nstart = start tail\ntail = addop start"
      let extended := text ++ "\n" ++ "// more\nstart = head start\nhead = name mulop"
      let tokens := #[Token.mk .name "a", .mk .addOp "+", .mk .name "b"]
      ∃ grammar larger,
        linesInUse extended
          = linesInUse text ++ linesInUse "// more\nstart = head start\nhead = name mulop"
        ∧ compile text = .ok grammar
        ∧ compile extended = .ok larger
        ∧ larger.lookup? "start" = some (.nonterminal 0)
        ∧ ∃ found foundMore trees moreTrees,
            Parse.forest grammar tokens 0 3 (.nonterminal 0) = .ok found
            ∧ Parse.forest larger tokens 0 3 (.nonterminal 0) = .ok foundMore
            ∧ found.Delivers trees
            ∧ foundMore.Delivers moreTrees
            ∧ trees.Sublist moreTrees := by
  intro text extended tokens
  have hlines := linesInUse_append_lineFeed text "// more\nstart = head start\nhead = name mulop"
  have hstart : (compile text).map (lookup? · "start") = .ok (some (.nonterminal 0)) := by
    decide +kernel
  have hextended : (compile extended).map (lookup? · "tail") = .ok (some (.nonterminal 1)) := by
    decide +kernel
  cases hgrammar : compile text with
  | error error =>
      rw [hgrammar] at hstart
      cases hstart
  | ok grammar =>
      cases hlarger : compile extended with
      | error error =>
          rw [hlarger] at hextended
          cases hextended
      | ok larger =>
          rw [hgrammar] at hstart
          obtain ⟨hlookup, hforests⟩ := compile_more_lines hlines hgrammar hlarger
          exact ⟨grammar, larger, hlines, rfl, rfl, hlookup _ _ (Except.ok.inj hstart),
            hforests _ tokens 0 3 (by decide) (by decide)⟩

end Grammar

end Formulary
