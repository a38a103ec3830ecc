import Formulary.Proofs.Grammar.Sweeps
import Formulary.Proofs.Parse.Derivation

/-! The categories at both ends of the words of a nonterminal.
No production is empty, so a word begins and ends with the end of a chain of rules.  The other way
round, every chain is part of a derivation as long as each nonterminal derives some word.
-/

namespace Formulary.Parse

open Boundary

/-- The two edges of a derivation. -/
inductive Side where
  | left
  | right

namespace Side

/-- The symbol at an edge of a body. -/
def edge : Side → Body Nat → Symbol Nat
  | left => Body.first
  | right => Body.last

/-- The category at an end of a word. -/
def tag? : Side → List Tag → Option Tag
  | left => List.head?
  | right => List.getLast?

/-- Either edge of the right side of a unit rule is its symbol. -/
@[simp]
theorem edge_unit (side : Side) (child : Symbol Nat)
    : side.edge (.unit child) = child := by
  cases side <;> rfl

/-- Either edge of a word of one category is the category. -/
@[simp]
theorem tag?_singleton (side : Side) (tag : Tag)
    : side.tag? [tag] = some tag := by
  cases side <;> rfl

end Side

variable {grammar : Grammar}

/-- A word has the end of a chain at each of its ends, by induction on the derivation.  Every step
of it leads to a symbol at the edge of a right side, as no word is empty. -/
theorem Derives.exists_chain {label : Symbol Nat} {word : List Tag} (h : Derives grammar label word)
    (side : Side)
    : ∃ tag, side.tag? word = some tag ∧ Chain grammar.rules side.edge label tag := by
  induction h with
  | terminal tag => exact ⟨tag, side.tag?_singleton tag, .refl⟩
  | unit hrule _ ih =>
      obtain ⟨tag, htag, hchain⟩ := ih
      exact ⟨tag, htag, .cons hrule (by rwa [side.edge_unit])⟩
  | pair hrule _ _ ihLeft ihRight =>
      cases side with
      | left =>
          obtain ⟨tag, htag, hchain⟩ := ihLeft
          exact ⟨tag, by simp_all [Side.tag?], .cons hrule hchain⟩
      | right =>
          obtain ⟨tag, htag, hchain⟩ := ihRight
          exact ⟨tag, by simp_all [Side.tag?], .cons hrule hchain⟩

/-- Every nonterminal derives some word. -/
def Productive (grammar : Grammar) : Prop :=
  ∀ a < grammar.names.size, ∃ word, Derives grammar (.nonterminal a) word

/-- In a productive grammar every symbol of a right side derives some word. -/
theorem Productive.exists_derives (h : Productive grammar) {a : Nat} {body : Body Nat}
    (hrule : ⟨a, body⟩ ∈ grammar.rules) (symbol : Symbol Nat) (hsymbol : symbol ∈ body.symbols)
    : ∃ word, Derives grammar symbol word := by
  cases symbol with
  | terminal tag => exact ⟨_, .terminal tag⟩
  | nonterminal b =>
      refine h b (grammar.bounded _ hrule b (List.mem_cons_of_mem _ ?_))
      exact List.mem_flatMap.2 ⟨_, hsymbol, List.mem_cons_self⟩

/-- A chain is part of a derivation, by induction on the chain from its end: the symbols beside it
are filled up with any words of theirs. -/
theorem Productive.exists_word (h : Productive grammar) (side : Side) {symbol : Symbol Nat}
    {tag : Tag} (hchain : Chain grammar.rules side.edge symbol tag)
    : ∃ word, Derives grammar symbol word ∧ side.tag? word = some tag := by
  induction hchain using Relation.ReflTransGen.head_induction_on with
  | refl => exact ⟨_, .terminal tag, side.tag?_singleton tag⟩
  | head hstep _ ih =>
      obtain ⟨word, hword, htag⟩ := ih
      cases hstep with
      | @rule a body hrule =>
          cases body with
          | unit child =>
              rw [side.edge_unit] at hword
              exact ⟨word, .unit hrule hword, htag⟩
          | pair left right =>
              cases side with
              | left =>
                  obtain ⟨other, hother⟩ :=
                    h.exists_derives hrule right (by simp [Body.symbols])
                  exact ⟨word ++ other, .pair hrule hword hother, by simp_all [Side.tag?]⟩
              | right =>
                  obtain ⟨other, hother⟩ :=
                    h.exists_derives hrule left (by simp [Body.symbols])
                  exact ⟨other ++ word, .pair hrule hother hword, by simp_all [Side.tag?]⟩

/-- Sweeps over the rules fill the edge tables and come to an end.  The tables then hold the ends of
chains along first and along last symbols, among them the first and the last category of every word,
and no others if every nonterminal derives a word.  Every sweep but the last adds an entry, and
there are at most nine for a nonterminal in each table. -/
theorem edgeTables_hold_chains (grammar : Grammar)
    : (∃ sweeps ≤ 18 * grammar.names.size + 1,
        Tables.Settles grammar.rules (.blank grammar.names.size) sweeps
          ⟨grammar.firsts, grammar.lasts⟩)
      ∧ (∀ a tag,
        ((grammar.firstTags (.nonterminal a)).contains tag = true
          ↔ Chain grammar.rules Body.first (.nonterminal a) tag)
        ∧ ((grammar.lastTags (.nonterminal a)).contains tag = true
          ↔ Chain grammar.rules Body.last (.nonterminal a) tag))
      ∧ (∀ a word,
        Derives grammar (.nonterminal a) word
        → (∃ tag,
            word.head? = some tag ∧ (grammar.firstTags (.nonterminal a)).contains tag = true)
          ∧ ∃ tag,
            word.getLast? = some tag ∧ (grammar.lastTags (.nonterminal a)).contains tag = true)
      ∧ (Productive grammar
        → ∀ a tag,
          ((grammar.firstTags (.nonterminal a)).contains tag = true
            → ∃ word, Derives grammar (.nonterminal a) word ∧ word.head? = some tag)
          ∧ ((grammar.lastTags (.nonterminal a)).contains tag = true
            → ∃ word, Derives grammar (.nonterminal a) word ∧ word.getLast? = some tag)) := by
  refine ⟨grammar.exists_settles,
    fun a tag => ⟨grammar.contains_firstTags_iff, grammar.contains_lastTags_iff⟩,
    fun a word hword => ?_, fun hproductive a tag => ⟨fun htag => ?_, fun htag => ?_⟩⟩
  · obtain ⟨first, hfirst, hleft⟩ := hword.exists_chain .left
    obtain ⟨last, hlast, hright⟩ := hword.exists_chain .right
    exact ⟨⟨first, hfirst, grammar.contains_firstTags_iff.2 hleft⟩,
      ⟨last, hlast, grammar.contains_lastTags_iff.2 hright⟩⟩
  · exact hproductive.exists_word .left (grammar.contains_firstTags_iff.1 htag)
  · exact hproductive.exists_word .right (grammar.contains_lastTags_iff.1 htag)

/-- Dotted paths, where each of two nonterminals derives the other: what stands before the last
name ends in a dot, which both the table and a word show. -/
theorem edgeTables_hold_chains_path
    : let rules : List (Rule Nat) :=
        [
          ⟨0, .unit (.terminal .name)⟩,
          ⟨0, .pair (.nonterminal 1) (.terminal .name)⟩,
          ⟨1, .pair (.nonterminal 0) (.terminal .dot)⟩
        ]
      ∃ grammar : Grammar,
        grammar.names = #["path", "head"]
        ∧ grammar.rules = rules
        ∧ Productive grammar
        ∧ Derives grammar (.nonterminal 1) [.name, .dot]
        ∧ (grammar.lastTags (.nonterminal 1)).contains .dot = true
        ∧ (grammar.firstTags (.nonterminal 1)).contains .name = true
        ∧ ∃ word, Derives grammar (.nonterminal 1) word ∧ word.head? = some .name := by
  intro rules
  have hacyclic : UnitAcyclic rules := ⟨fun _ => 0, by simp [rules, Body.unitChild?]⟩
  let grammar := Grammar.ofNumbered #["path", "head"] rules (by decide) hacyclic
  have hpath : Derives grammar (.nonterminal 0) [.name] := .unit (.head _) (.terminal .name)
  have hhead : Derives grammar (.nonterminal 1) [.name, .dot] :=
    .pair (by simp [grammar, rules, Grammar.ofNumbered]) hpath (.terminal .dot)
  have hproductive : Productive grammar := by
    intro a ha
    match a, ha with
    | 0, _ => exact ⟨_, hpath⟩
    | 1, _ => exact ⟨_, hhead⟩
  obtain ⟨-, -, hends, hwords⟩ := edgeTables_hold_chains grammar
  obtain ⟨⟨first, hfirst, hfirsts⟩, last, hlast, hlasts⟩ := hends 1 _ hhead
  cases hfirst
  cases hlast
  exact ⟨grammar, rfl, rfl, hproductive, hhead, hlasts, hfirsts,
    (hwords hproductive 1 .name).1 hfirsts⟩

end Formulary.Parse
