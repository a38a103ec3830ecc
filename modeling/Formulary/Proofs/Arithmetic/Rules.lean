import Formulary.Grammar.Arithmetic
import Formulary.Proofs.Grammar.Numbering
import Formulary.Proofs.Parse.Derivation

/-! The built-in rules with their nonterminals by name.
The text of the built-in grammar compiles to these rules in numbers.  Numbering the nonterminals
loses nothing, so whatever derives by the numbered rules derives by the rules as they are written,
and the reverse.
-/

namespace Formulary.Arithmetic

open Formulary.Parse Nonterminal

-----------------------------------------------------------------------------------------
-- The text of the grammar
-----------------------------------------------------------------------------------------

-- The characters of the whole text are matched at once.
set_option maxRecDepth 8000 in
/-- Every line of the text that is not blank is a rule, and the rules stand in this order. -/
theorem readText_grammarText
    : Rule.readText grammarText = .ok (rules.map (Rule.map name)) :=
  have hchars (chars : List Char)
      : Rule.readText (String.ofList chars) = Rule.readLines 1 (Text.lineChars chars) := by
    rw [Rule.readText, String.toList_ofList]
  (hchars _).trans (by decide +kernel)

/-- The built-in grammar is what its text compiles to: the nonterminals are numbered in the order
in which the rules mention them, and walking the unit rules comes to an end. -/
theorem compile_grammarText
    : Grammar.compile grammarText = .ok .arithmetic :=
  Grammar.compile_eq_ok readText_grammarText (by decide +kernel) (by decide +kernel)
    walk_numberedRules

-----------------------------------------------------------------------------------------
-- Rules by number and by name
-----------------------------------------------------------------------------------------

/-- Different nonterminals have different numbers, since the list holds all of them. -/
theorem number_injective
    : Function.Injective number := by
  intro a b h
  have hmem : ∀ c : Nonterminal, c ∈ Nonterminal.all := by
    intro c
    cases c <;> decide
  exact (List.idxOf_inj (hmem a)).1 h

/-- A rule as it is written is a rule of the grammar in numbers. -/
theorem mem_arithmetic_rules {a : Nonterminal} {body : Body Nonterminal}
    (h : ⟨a, body⟩ ∈ rules)
    : ⟨number a, body.map number⟩ ∈ Grammar.arithmetic.rules :=
  List.mem_map.2 ⟨_, h, rfl⟩

/-- Every numbered rule of a nonterminal is one of its rules as they are written. -/
theorem exists_rule_of_mem {a : Nonterminal} {body : Body Nat}
    (h : ⟨number a, body⟩ ∈ Grammar.arithmetic.rules)
    : ∃ written, ⟨a, written⟩ ∈ rules ∧ written.map number = body := by
  obtain ⟨⟨head, written⟩, hrule, heq⟩ := List.mem_map.1 h
  simp only [Rule.map, Rule.mk.injEq] at heq
  obtain ⟨hhead, hbody⟩ := heq
  rw [number_injective hhead] at hrule
  exact ⟨written, hrule, hbody⟩

-----------------------------------------------------------------------------------------
-- Derivations by the rules as they are written
-----------------------------------------------------------------------------------------

/-- A rule with one symbol passes on what the symbol derives. -/
theorem derives_unit (a : Nonterminal) (child : Symbol Nonterminal) {word : List Tag}
    (hrule : ⟨a, .unit child⟩ ∈ rules)
    (below : Derives .arithmetic (child.map number) word)
    : Derives .arithmetic (.nonterminal (number a)) word :=
  .unit (mem_arithmetic_rules hrule) below

/-- A rule with two symbols puts together what they derive. -/
theorem derives_pair (a : Nonterminal) (left right : Symbol Nonterminal)
    {first second : List Tag} (hrule : ⟨a, .pair left right⟩ ∈ rules)
    (hleft : Derives .arithmetic (left.map number) first)
    (hright : Derives .arithmetic (right.map number) second)
    : Derives .arithmetic (.nonterminal (number a)) (first ++ second) :=
  .pair (mem_arithmetic_rules hrule) hleft hright

/-- A property of derivation trees follows from its cases for the rules as they are written.  The
numbers of the compiled grammar are those of the enumerated nonterminals, so every step is one of
the written rules. -/
theorem derivation_induction {tags : Array Tag}
    {motive : Symbol Nonterminal → Nat → Nat → Tree → Prop}
    (leaf : ∀ {tag start},
      tags[start]? = some tag
      → motive (.terminal tag) start (start + 1) (.leaf (.terminal tag) start))
    (unit : ∀ {a child start stop tree},
      ⟨a, .unit child⟩ ∈ rules
      → motive child start stop tree
      → motive (.nonterminal a) start stop (.node (.nonterminal (number a)) start stop [tree]))
    (pair : ∀ {a left right start middle stop leftTree rightTree},
      ⟨a, .pair left right⟩ ∈ rules
      → start < middle
      → middle < stop
      → motive left start middle leftTree
      → motive right middle stop rightTree
      → motive (.nonterminal a) start stop
          (.node (.nonterminal (number a)) start stop [leftTree, rightTree]))
    {symbol : Symbol Nonterminal} {start stop : Nat} {tree : Tree}
    (h : Derivation .arithmetic tags (symbol.map number) start stop tree)
    : motive symbol start stop tree := by
  generalize hlabel : symbol.map number = label at h
  induction h generalizing symbol with
  | leaf htag =>
      cases symbol with
      | terminal tag =>
          cases hlabel
          exact leaf htag
      | nonterminal a => cases hlabel
  | unit hrule _ ih =>
      cases symbol with
      | terminal tag => cases hlabel
      | nonterminal a =>
          cases hlabel
          obtain ⟨written, hwritten, heq⟩ := exists_rule_of_mem hrule
          cases written with
          | unit child =>
              cases heq
              exact unit hwritten (ih rfl)
          | pair _ _ => cases heq
  | pair hrule hstart hstop _ _ ihLeft ihRight =>
      cases symbol with
      | terminal tag => cases hlabel
      | nonterminal a =>
          cases hlabel
          obtain ⟨written, hwritten, heq⟩ := exists_rule_of_mem hrule
          cases written with
          | unit _ => cases heq
          | pair left right =>
              cases heq
              exact pair hwritten hstart hstop (ihLeft rfl) (ihRight rfl)

/-- Only symbols that the rules mention have derivation trees. -/
theorem exists_symbol_of_derivation {tags : Array Tag} {label : Symbol Nat} {start stop : Nat}
    {tree : Tree} (h : Derivation .arithmetic tags label start stop tree)
    : ∃ symbol : Symbol Nonterminal, symbol.map number = label := by
  have hhead : ∀ {a : Nat} {body : Body Nat},
      ⟨a, body⟩ ∈ Grammar.arithmetic.rules
      → ∃ symbol : Symbol Nonterminal, symbol.map number = .nonterminal a := by
    intro a body hrule
    obtain ⟨⟨written, _⟩, _, heq⟩ := List.mem_map.1 hrule
    cases heq
    exact ⟨.nonterminal written, rfl⟩
  cases h with
  | leaf _ => exact ⟨.terminal _, rfl⟩
  | unit hrule _ => exact hhead hrule
  | pair hrule _ _ _ _ => exact hhead hrule

end Formulary.Arithmetic
