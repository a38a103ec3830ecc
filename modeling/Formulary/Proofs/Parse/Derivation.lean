import Formulary.Parse.Trees
import Formulary.Proofs.Grammar.Edges

/-! Derivation trees.
A derivation tree is described by the rules alone, without any search: a leaf for a token of its
category, and a node for each rule over derivation trees that lie side by side.  The categories
at the ends of its span are always among those that the grammar's tables allow.  Wherever a word
that a symbol derives stands among the tokens, there is a derivation tree over it.
-/

namespace Formulary.Parse

/-- The trees of a symbol over a span, one constructor for each way to derive. -/
inductive Derivation (grammar : Grammar) (tags : Array Tag)
    : Symbol Nat → Nat → Nat → Tree → Prop where
  | leaf {tag : Tag} {start : Nat} (htag : tags[start]? = some tag)
    : Derivation grammar tags (.terminal tag) start (start + 1) (.leaf (.terminal tag) start)
  | unit {a : Nat} {child : Symbol Nat} {start stop : Nat} {tree : Tree}
    (hrule : ⟨a, .unit child⟩ ∈ grammar.rules)
    (below : Derivation grammar tags child start stop tree)
    : Derivation grammar tags (.nonterminal a) start stop
        (.node (.nonterminal a) start stop [tree])
  | pair {a : Nat} {left right : Symbol Nat} {start middle stop : Nat}
    {leftTree rightTree : Tree}
    (hrule : ⟨a, .pair left right⟩ ∈ grammar.rules)
    (hstart : start < middle) (hstop : middle < stop)
    (hleft : Derivation grammar tags left start middle leftTree)
    (hright : Derivation grammar tags right middle stop rightTree)
    : Derivation grammar tags (.nonterminal a) start stop
        (.node (.nonterminal a) start stop [leftTree, rightTree])

/-- A set admits a position exactly if there is a token at it whose category is in the set. -/
theorem holds_eq_true_iff {tags : Array Tag} {set : TagSet} {position : Nat}
    : holds tags set position = true
      ↔ ∃ tag, tags[position]? = some tag ∧ set.contains tag = true := by
  unfold holds
  cases tags[position]? <;> simp

namespace Derivation

variable {grammar : Grammar} {tags : Array Tag} {label : Symbol Nat} {start stop : Nat}
  {tree : Tree}

/-- A derived tree has the symbol that it is derived from at its root. -/
theorem label_eq (h : Derivation grammar tags label start stop tree)
    : tree.label = label := by
  cases h <;> rfl

/-- A derived tree ends where its span ends. -/
theorem stop_eq (h : Derivation grammar tags label start stop tree)
    : tree.stop = stop := by
  cases h <;> rfl

/-- No derivation is empty. -/
theorem start_lt_stop (h : Derivation grammar tags label start stop tree)
    : start < stop := by
  induction h with
  | leaf _ => exact Nat.lt_succ_self _
  | unit _ _ ih => exact ih
  | pair _ hstart hstop _ _ _ _ => exact hstart.trans hstop

/-- A derivation begins with a category that the tables allow at its symbol's left edge. -/
theorem holds_first (h : Derivation grammar tags label start stop tree)
    : holds tags (grammar.firstTags label) start = true := by
  rw [holds_eq_true_iff]
  induction h with
  | leaf htag => exact ⟨_, htag, by simp [Grammar.firstTags, Boundary.edgeSet]⟩
  | unit hrule _ ih =>
      obtain ⟨tag, htag, hfirst⟩ := ih
      exact ⟨tag, htag, Grammar.firstTags_of_rule hrule hfirst⟩
  | pair hrule _ _ _ _ ih _ =>
      obtain ⟨tag, htag, hfirst⟩ := ih
      exact ⟨tag, htag, Grammar.firstTags_of_rule hrule hfirst⟩

/-- A derivation ends with a category that the tables allow at its symbol's right edge. -/
theorem holds_last (h : Derivation grammar tags label start stop tree)
    : holds tags (grammar.lastTags label) (stop - 1) = true := by
  rw [holds_eq_true_iff]
  induction h with
  | leaf htag => exact ⟨_, htag, by simp [Grammar.lastTags, Boundary.edgeSet]⟩
  | unit hrule _ ih =>
      obtain ⟨tag, htag, hlast⟩ := ih
      exact ⟨tag, htag, Grammar.lastTags_of_rule hrule hlast⟩
  | pair hrule _ _ _ _ _ ih =>
      obtain ⟨tag, htag, hlast⟩ := ih
      exact ⟨tag, htag, Grammar.lastTags_of_rule hrule hlast⟩

/-- The test on the edges of a span never rules out a derivation. -/
theorem fits (h : Derivation grammar tags label start stop tree)
    : Parse.fits grammar tags start stop label = true := by
  rw [Parse.fits, Bool.and_eq_true]
  exact ⟨h.holds_first, h.holds_last⟩

end Derivation

/-- The words of a symbol, wherever they stand. -/
inductive Derives (grammar : Grammar) : Symbol Nat → List Tag → Prop where
  | terminal (tag : Tag)
    : Derives grammar (.terminal tag) [tag]
  | unit {a : Nat} {child : Symbol Nat} {word : List Tag}
    (hrule : ⟨a, .unit child⟩ ∈ grammar.rules) (below : Derives grammar child word)
    : Derives grammar (.nonterminal a) word
  | pair {a : Nat} {left right : Symbol Nat} {first second : List Tag}
    (hrule : ⟨a, .pair left right⟩ ∈ grammar.rules)
    (hleft : Derives grammar left first) (hright : Derives grammar right second)
    : Derives grammar (.nonterminal a) (first ++ second)

namespace Derives

variable {grammar : Grammar} {label : Symbol Nat} {word : List Tag}

/-- No symbol derives the empty word. -/
theorem length_pos (h : Derives grammar label word)
    : 0 < word.length := by
  induction h with
  | terminal _ => exact Nat.one_pos
  | unit _ _ ih => exact ih
  | pair _ _ _ ih _ =>
      rw [List.length_append]
      omega

/-- A derivable word has a derivation tree over it between any other tokens.  By induction on the
derivation of the word: the right part follows the left one, which belongs to what stands before
it. -/
theorem exists_derivation (h : Derives grammar label word) (before after : List Tag)
    : ∃ tree,
        Derivation grammar (before ++ word ++ after).toArray label before.length
          (before.length + word.length) tree := by
  induction h generalizing before after with
  | terminal tag => exact ⟨_, .leaf (by simp)⟩
  | unit hrule _ ih =>
      obtain ⟨tree, htree⟩ := ih before after
      exact ⟨_, .unit hrule htree⟩
  | @pair a left right first second hrule hleft hright ihLeft ihRight =>
      -- The right word follows the left one, which becomes part of what stands before it.
      obtain ⟨leftTree, hleftTree⟩ := ihLeft before (second ++ after)
      obtain ⟨rightTree, hrightTree⟩ := ihRight (before ++ first) after
      have hfirst := hleft.length_pos
      have hsecond := hright.length_pos
      simp only [List.append_assoc, List.length_append, ← Nat.add_assoc]
        at hleftTree hrightTree ⊢
      exact ⟨_, .pair hrule (by omega) (by omega) hleftTree hrightTree⟩

end Derives

end Formulary.Parse
