import Formulary.Proofs.Parse.Derivation
import Formulary.Tree
import Mathlib.Data.Finset.Card
import Mathlib.Tactic.Ring

/-! How large a derivation tree is.
A tree has a leaf for each token of its span and one node with two children fewer.  All other nodes
stand in chains of unit rules, each above a leaf or a node with two children, and along such a
chain no nonterminal comes twice.
-/

namespace Formulary

-----------------------------------------------------------------------------------------
-- Levels along unit rules
-----------------------------------------------------------------------------------------

namespace Grammar

/-- A nonterminal and those that rank below it. -/
noncomputable def downward (grammar : Grammar) (a : Nat) : Finset Nat :=
  (Finset.range grammar.names.size).filter fun b =>
    b = a ∨ grammar.rank (.nonterminal b) < grammar.rank (.nonterminal a)

/-- No chain of unit rules from the symbol has more nonterminals than this. -/
noncomputable def level (grammar : Grammar) : Symbol Nat → Nat
  | .terminal _ => 0
  | .nonterminal a => (grammar.downward a).card

variable {grammar : Grammar}

/-- A level is at most the number of names, as the nonterminals below a symbol have different
ones. -/
theorem level_le (grammar : Grammar) (symbol : Symbol Nat)
    : grammar.level symbol ≤ grammar.names.size := by
  cases symbol with
  | terminal tag => exact Nat.zero_le _
  | nonterminal a => exact (Finset.card_filter_le _ _).trans (Finset.card_range _).le

/-- The nonterminals of a rule have a number that is in use. -/
theorem lt_size_of_rule {a : Nat} {body : Body Nat} (hrule : ⟨a, body⟩ ∈ grammar.rules)
    : a < grammar.names.size :=
  grammar.bounded _ hrule a List.mem_cons_self

/-- A nonterminal with a rule is at or below itself. -/
theorem self_mem_downward {a : Nat} {body : Body Nat} (hrule : ⟨a, body⟩ ∈ grammar.rules)
    : a ∈ grammar.downward a :=
  Finset.mem_filter.2 ⟨Finset.mem_range.2 (lt_size_of_rule hrule), .inl rfl⟩

/-- A nonterminal with a rule is above the terminals. -/
theorem level_pos_of_rule {a : Nat} {body : Body Nat} (hrule : ⟨a, body⟩ ∈ grammar.rules)
    : 0 < grammar.level (.nonterminal a) :=
  Finset.card_pos.2 ⟨a, self_mem_downward hrule⟩

/-- A unit rule leads to a lower level: what ranks below the child ranks below the nonterminal,
which does not rank below the child. -/
theorem level_unit_lt {a : Nat} {child : Symbol Nat} (hrule : ⟨a, .unit child⟩ ∈ grammar.rules)
    : grammar.level child < grammar.level (.nonterminal a) := by
  have hrank := rank_unit_lt hrule
  cases child with
  | terminal tag => exact level_pos_of_rule hrule
  | nonterminal b =>
      refine Finset.card_lt_card (Finset.ssubset_iff_subset_ne.2 ⟨fun c hc => ?_, fun heq => ?_⟩)
      · obtain ⟨hrange, hc⟩ := Finset.mem_filter.1 hc
        refine Finset.mem_filter.2 ⟨hrange, .inr ?_⟩
        rcases hc with rfl | hbelow
        · exact hrank
        · exact hbelow.trans hrank
      · have ha := self_mem_downward hrule
        rw [← heq] at ha
        rcases (Finset.mem_filter.1 ha).2 with rfl | hbelow
        · exact Nat.lt_irrefl _ hrank
        · exact Nat.lt_asymm hrank hbelow

end Grammar

-----------------------------------------------------------------------------------------
-- Counting the nodes of a tree
-----------------------------------------------------------------------------------------

namespace Tree

/-- The number of nodes with a property. -/
def count (p : Tree → Bool) (tree : Tree) : Nat :=
  tree.fold fun node results => results.sum + (p node).toNat

/-- The nodes of a kind are those below the root, and the root if it is of the kind. -/
theorem count_node (p : Tree → Bool) (label : Symbol Nat) (start stop : Nat)
    (children : List Tree)
    : (node label start stop children).count p
      = (children.map (count p)).sum + (p (node label start stop children)).toNat := by
  rw [count, fold, foldAll_eq_map]
  rfl

/-- A leaf has no node but itself. -/
theorem count_leaf (p : Tree → Bool) (label : Symbol Nat) (start : Nat)
    : (leaf label start).count p = (p (leaf label start)).toNat := by
  rw [leaf, count_node, List.map_nil, List.sum_nil, Nat.zero_add]

/-- With one child, the nodes of a kind are those of the child and possibly the root. -/
theorem count_unit (p : Tree → Bool) (label : Symbol Nat) (start stop : Nat) (child : Tree)
    : (node label start stop [child]).count p
      = child.count p + (p (node label start stop [child])).toNat := by
  rw [count_node, List.map_singleton, List.sum_singleton]

/-- With two children, the nodes of a kind are those of both and possibly the root. -/
theorem count_pair (p : Tree → Bool) (label : Symbol Nat) (start stop : Nat) (left right : Tree)
    : (node label start stop [left, right]).count p
      = left.count p + right.count p + (p (node label start stop [left, right])).toNat := by
  rw [count_node, List.map_cons, List.map_singleton, List.sum_cons, List.sum_singleton]

/-- The size of a tree counts its nodes of any kind. -/
theorem size_eq_count (tree : Tree)
    : tree.size = tree.count fun _ => true := by
  rw [size, count]
  congr
  funext _ results
  induction results with
  | nil => rfl
  | cons result results ih => rw [List.foldr_cons, ih, List.sum_cons, Nat.add_assoc]

/-- Whether a node has two children. -/
def isPair (tree : Tree) : Bool :=
  tree.children.length == 2

end Tree

namespace Parse.Derivation

variable {grammar : Grammar} {tags : Array Tag} {label : Symbol Nat} {start stop : Nat}
  {tree : Tree}

/-- There is one leaf for each token. -/
theorem count_isLeaf (h : Derivation grammar tags label start stop tree)
    : start + tree.count Tree.isLeaf = stop := by
  induction h with
  | leaf _ => rfl
  | unit _ _ ih =>
      rw [Tree.count_unit]
      exact ih
  | @pair a left right start middle stop leftTree rightTree _ _ _ _ _ ihLeft ihRight =>
      have hinner : (Tree.node (.nonterminal a) start stop [leftTree, rightTree]).isLeaf = false :=
        rfl
      rw [Tree.count_pair, hinner, Bool.toNat_false]
      omega

/-- Every node with two children joins two parts of the span. -/
theorem count_isPair (h : Derivation grammar tags label start stop tree)
    : start + (tree.count Tree.isPair + 1) = stop := by
  induction h with
  | leaf _ => rfl
  | unit _ _ ih =>
      rw [Tree.count_unit]
      exact ih
  | @pair a left right start middle stop leftTree rightTree _ _ _ _ _ ihLeft ihRight =>
      have hjoin : (Tree.node (.nonterminal a) start stop [leftTree, rightTree]).isPair = true :=
        rfl
      rw [Tree.count_pair, hjoin, Bool.toNat_true]
      omega

/-- Below every leaf and every node with two children the chain of unit rules starts anew, and it
has no more nodes than there are levels.  The induction counts the levels left to the root. -/
theorem size_le_level (h : Derivation grammar tags label start stop tree)
    : tree.size
      ≤ stop - start + grammar.names.size * (2 * (stop - start - 1)) + grammar.level label := by
  rw [Tree.size_eq_count]
  induction h with
  | leaf _ =>
      rw [Tree.count_leaf, Bool.toNat_true]
      omega
  | unit hrule _ ih =>
      have hlevel := Grammar.level_unit_lt hrule
      rw [Tree.count_unit, Bool.toNat_true]
      omega
  | @pair a left right start middle stop _ _ hrule hstart hstop _ _ ihLeft ihRight =>
      have hlevel := Grammar.level_pos_of_rule hrule
      have hleft := grammar.level_le left
      have hright := grammar.level_le right
      obtain ⟨first, rfl⟩ := Nat.exists_eq_add_of_lt hstart
      obtain ⟨second, rfl⟩ := Nat.exists_eq_add_of_lt hstop
      have hchains
          : grammar.names.size * (2 * (first + second + 1))
            = grammar.names.size * (2 * first) + grammar.names.size * (2 * second)
              + 2 * grammar.names.size := by
        ring
      have hfirst : start + first + 1 - start - 1 = first := by omega
      have hsecond : start + first + 1 + second + 1 - (start + first + 1) - 1 = second := by omega
      have hboth : start + first + 1 + second + 1 - start - 1 = first + second + 1 := by omega
      rw [hfirst] at ihLeft
      rw [hsecond] at ihRight
      rw [Tree.count_pair, Bool.toNat_true, hboth, hchains]
      omega

/-- The bound without levels: a derived tree has a leaf for every token, and its inner nodes fall
into at most two chains for every token but one, none longer than there are names. -/
theorem size_le (h : Derivation grammar tags label start stop tree)
    : tree.size ≤ stop - start + grammar.names.size * (2 * (stop - start) - 1) := by
  have hsize := h.size_le_level
  have hlevel := grammar.level_le label
  obtain ⟨length, rfl⟩ := Nat.exists_eq_add_of_lt h.start_lt_stop
  have hinner : start + length + 1 - start - 1 = length := by omega
  have hall : 2 * (start + length + 1 - start) - 1 = 2 * length + 1 := by omega
  rw [hinner] at hsize
  rw [hall, Nat.mul_add, Nat.mul_one]
  omega

end Parse.Derivation

end Formulary
