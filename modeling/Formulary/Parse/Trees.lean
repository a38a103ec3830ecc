import Formulary.Grammar.Basic
import Formulary.LazySeq
import Formulary.Tree

/-! Enumerating the parse trees of a span.
The trees of a symbol over a span come in a fixed order: rules in grammar order, split points
from left to right, then left trees before right ones.  Nothing is computed before it is asked
for.  A span or a split is passed over when the categories at its edges rule it out, and a split
also when its right half has no tree; neither loses a tree.  As lists, the trees of a nonterminal
over a span that its edges allow are those of its alternatives in turn; an alternative with two
symbols takes the splits in turn, and at each split every left tree with every right tree.  Leaving
out the splits without a right tree does not show in the list.
-/

namespace Formulary.Parse

-----------------------------------------------------------------------------------------
-- The enumeration
-----------------------------------------------------------------------------------------

/-- Whether the category at a position is there and in a set. -/
def holds (tags : Array Tag) (set : TagSet) (position : Nat) : Bool :=
  match tags[position]? with
  | some tag => set.contains tag
  | none => false

/-- Whether the categories at the ends of a span allow a derivation of the symbol over it. -/
def fits (grammar : Grammar) (tags : Array Tag) (start stop : Nat) (label : Symbol Nat) : Bool :=
  holds tags (grammar.firstTags label) start && holds tags (grammar.lastTags label) (stop - 1)

/-- The positions inside a span at which the categories on either side allow a split between two
symbols, from left to right. -/
def splits (grammar : Grammar) (tags : Array Tag) (start stop : Nat) (left right : Symbol Nat)
    : List Nat :=
  let ends := grammar.lastTags left
  let starts := grammar.firstTags right
  (List.range' (start + 1) (stop - (start + 1))).filter fun middle =>
    holds tags ends (middle - 1) && holds tags starts middle

/-- A split leaves both halves at least one token, so both are shorter than the span. -/
theorem lt_of_mem_splits {grammar : Grammar} {tags : Array Tag} {start stop middle : Nat}
    {left right : Symbol Nat} (h : middle ∈ splits grammar tags start stop left right)
    : start < middle ∧ middle < stop := by
  have := List.mem_range'_1.1 (List.mem_filter.1 h).1
  omega

/-- The trees of a symbol over a span. -/
def trees (grammar : Grammar) (tags : Array Tag) (start stop : Nat) (label : Symbol Nat)
    : LazySeq Tree :=
  if start < stop then
    match label with
    | .terminal tag =>
        if stop = start + 1 ∧ tags[start]? = some tag then .single (.leaf label start) else .nil
    | .nonterminal a =>
        if fits grammar tags start stop label then
          LazySeq.concatMap
            (fun
              | ⟨.unit child, _hchild⟩ =>
                  (trees grammar tags start stop child).map fun tree =>
                    .node label start stop [tree]
              | ⟨.pair left right, _⟩ =>
                  LazySeq.concatMap
                    (fun ⟨middle, _hmiddle⟩ =>
                      let rights := trees grammar tags middle stop right
                      if rights.isEmpty then .nil
                      else
                        (trees grammar tags start middle left).flatMap fun leftTree =>
                          rights.map fun rightTree => .node label start stop [leftTree, rightTree])
                    (splits grammar tags start stop left right).attach)
            (grammar.alternatives a).attach
        else .nil
  else .nil
termination_by (stop - start, grammar.rank label)
decreasing_by
  · exact Prod.Lex.right _ (Grammar.rank_unit_lt (Grammar.mem_alternatives.1 _hchild))
  all_goals
    have := lt_of_mem_splits _hmiddle
    exact Prod.Lex.left _ _ (by omega)

-----------------------------------------------------------------------------------------
-- The enumeration as lists
-----------------------------------------------------------------------------------------

open LazySeq

/-- The trees with two children that a split gives. -/
def joined (grammar : Grammar) (tags : Array Tag) (start stop : Nat) (label : Symbol Nat)
    (left right : Symbol Nat) (middle : Nat) : List Tree :=
  (trees grammar tags start middle left).toList.flatMap fun leftTree =>
    (trees grammar tags middle stop right).toList.map fun rightTree =>
      .node label start stop [leftTree, rightTree]

/-- The trees that an alternative gives over a span. -/
def expansions (grammar : Grammar) (tags : Array Tag) (start stop : Nat) (label : Symbol Nat)
    : Body Nat → List Tree
  | .unit child =>
      (trees grammar tags start stop child).toList.map fun tree => .node label start stop [tree]
  | .pair left right =>
      (splits grammar tags start stop left right).flatMap
        (joined grammar tags start stop label left right)

/-- A terminal has one tree over a single token of its category and none over any other span. -/
theorem toList_trees_terminal (grammar : Grammar) (tags : Array Tag) (start stop : Nat) (tag : Tag)
    : (trees grammar tags start stop (.terminal tag)).toList
      = if stop = start + 1 ∧ tags[start]? = some tag then [.leaf (.terminal tag) start]
        else [] := by
  rw [trees]
  by_cases h : start < stop
  · simp only [h, if_true]
    split <;> simp
  · have : ¬ stop = start + 1 := by omega
    simp [h, this]

/-- The trees of a nonterminal are those of its alternatives in turn.  A split that is passed over
for want of a right tree would have given none. -/
theorem toList_trees_nonterminal (grammar : Grammar) (tags : Array Tag) (start stop a : Nat)
    : (trees grammar tags start stop (.nonterminal a)).toList
      = if start < stop ∧ fits grammar tags start stop (.nonterminal a) then
          (grammar.alternatives a).flatMap (expansions grammar tags start stop (.nonterminal a))
        else [] := by
  rw [trees]
  by_cases hspan : start < stop
  · by_cases hfits : fits grammar tags start stop (.nonterminal a) = true
    · simp only [hspan, hfits, if_true, and_self, toList_concatMap]
      rw [List.flatMap_subtype, List.unattach_attach]
      intro body _
      cases body with
      | unit child => simp [expansions]
      | pair left right =>
          simp only [toList_concatMap, expansions]
          rw [List.flatMap_subtype, List.unattach_attach]
          intro middle _
          by_cases hright : (trees grammar tags middle stop right).isEmpty = true
          · simp [joined, hright, (isEmpty_eq_true_iff _).1 hright]
          · simp [joined, hright]
    · simp [hspan, hfits]
  · simp [hspan]

end Formulary.Parse
