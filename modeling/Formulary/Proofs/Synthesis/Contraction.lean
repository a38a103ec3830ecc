import Formulary.Grammar.Arithmetic
import Formulary.Proofs.Parse.Forest
import Formulary.Proofs.Synthesis.Failure
import Formulary.Proofs.Tree.Outline

/-! Synthesis and the way in which a grammar splits up lists.
Punctuation and the nodes that only hand on what their children yield leave no trace of their own.
So a tree may be contracted to its other nodes, and it still yields the same or fails in the same
way.
-/

namespace Formulary

/-- Categories whose tokens yield nothing. -/
def Tag.isPunctuation : Tag → Bool
  | dot | comma | leftParen | rightParen => true
  | _ => false

/-- Whether the nodes with a label hand on what their children yield. -/
def Reductions.handsOn (reductions : Reductions) : Symbol Nat → Bool
  | .terminal _ => false
  | .nonterminal a => reductions.get? a == some .structural

-----------------------------------------------------------------------------------------
-- Contracting trees
-----------------------------------------------------------------------------------------

namespace Tree

variable {reductions : Reductions}

/-- The leaves over punctuation. -/
def isPunctuation : Tree → Bool
  | node (.terminal tag) _ _ [] => tag.isPunctuation
  | _ => false

mutual
/-- What is left of a tree below another: nothing of punctuation, and of a node that hands on what
its children yield only what is left of these. -/
def remains (reductions : Reductions) : Tree → List Tree
  | node label start stop children =>
      if (node label start stop children).isPunctuation then []
      else if reductions.handsOn label then remainsAll reductions children
      else [node label start stop (remainsAll reductions children)]

def remainsAll (reductions : Reductions) : List Tree → List Tree
  | [] => []
  | tree :: trees => tree.remains reductions ++ remainsAll reductions trees
end

/-- The tree with what is left below its root. -/
def contract (reductions : Reductions) : Tree → Tree
  | node label start stop children =>
      node label start stop (remainsAll reductions children)

/-- A punctuation mark has no children. -/
theorem children_eq_nil_of_isPunctuation {label : Symbol Nat} {start stop : Nat}
    {children : List Tree} (h : (node label start stop children).isPunctuation = true)
    : children = [] := by
  cases children with
  | nil => rfl
  | cons child children => cases label <;> cases h

/-- What remains of trees side by side is what remains of each, by induction on the list. -/
theorem remainsAll_eq_flatMap (trees : List Tree)
    : remainsAll reductions trees = trees.flatMap (remains reductions) := by
  induction trees with
  | nil => rfl
  | cons tree trees ih => rw [remainsAll, ih, List.flatMap_cons]

/-- The label and the span of a node. -/
def head (tree : Tree) : Symbol Nat × Nat × Nat :=
  (tree.label, tree.start, tree.stop)

/-- Whether a node stays where it hangs below another. -/
def stays (reductions : Reductions) (tree : Tree) : Bool :=
  !tree.isPunctuation && !reductions.handsOn tree.label

/-- In pre-order, the nodes of what is left are the nodes that stay.  By induction on the tree: a
node that does not stay leaves its place to what is left below it. -/
theorem heads_remains (tree : Tree)
    : ((tree.remains reductions).flatMap nodes).map head
      = (tree.nodes.filter (stays reductions)).map head := by
  induction tree using children_induction with
  | node label start stop children ih =>
      have hbelow
          : ((remainsAll reductions children).flatMap nodes).map head
            = ((children.flatMap nodes).filter (stays reductions)).map head := by
        rw [remainsAll_eq_flatMap, List.flatMap_assoc, List.map_flatMap, List.filter_flatMap,
          List.map_flatMap]
        exact List.flatMap_congr ih
      rw [remains, nodes_node, List.filter_cons]
      by_cases hpunctuation : (node label start stop children).isPunctuation = true
      · obtain rfl := children_eq_nil_of_isPunctuation hpunctuation
        simp [hpunctuation, stays]
      · by_cases hhands : reductions.handsOn label = true
        · simp [hpunctuation, hhands, stays, Tree.label, hbelow]
        · simp [hpunctuation, hhands, stays, Tree.label, nodes_node, hbelow, head, Tree.start,
            Tree.stop]

/-- Contracting a tree keeps its root and takes away the nodes below it that do not stay. -/
theorem heads_contract (tree : Tree)
    : (tree.contract reductions).head = tree.head
      ∧ (tree.contract reductions).descendants.map head
        = (tree.descendants.filter (stays reductions)).map head := by
  obtain ⟨label, start, stop, children⟩ := tree
  refine ⟨rfl, ?_⟩
  rw [contract, descendants, descendants, Tree.children, Tree.children, remainsAll_eq_flatMap,
    List.flatMap_assoc, List.map_flatMap, List.filter_flatMap, List.map_flatMap]
  exact List.flatMap_congr fun child _ => heads_remains child

end Tree

-----------------------------------------------------------------------------------------
-- Flat fragments
-----------------------------------------------------------------------------------------

namespace Fragment

/-- Fragments side by side are flattened one by one. -/
@[simp]
theorem flattenAll_append (first second : List Fragment)
    : flattenAll (first ++ second) = flattenAll first ++ flattenAll second := by
  rw [flattenAll_eq_flatMap, flattenAll_eq_flatMap, flattenAll_eq_flatMap, List.flatMap_append]

mutual
/-- What a fragment is taken apart into cannot be taken apart any further. -/
theorem flattenAll_flatten (fragment : Fragment)
    : flattenAll fragment.flatten = fragment.flatten := by
  cases fragment with
  | list items =>
      rw [flatten]
      exact flattenAll_flattenAll items
  | _ => rfl
termination_by sizeOf fragment

/-- Flattened fragments have nothing left to flatten. -/
@[simp]
theorem flattenAll_flattenAll (fragments : List Fragment)
    : flattenAll (flattenAll fragments) = flattenAll fragments := by
  cases fragments with
  | nil => rfl
  | cons fragment fragments =>
      rw [flattenAll, flattenAll_append, flattenAll_flatten fragment,
        flattenAll_flattenAll fragments]
termination_by sizeOf fragments
end

end Fragment

-----------------------------------------------------------------------------------------
-- What trees leave to their parent
-----------------------------------------------------------------------------------------

namespace Synthesis

variable {grammar : Grammar} {reductions : Reductions} {tokens : Array Token}

/-- The flattened fragments of trees side by side, or the failure of the first that fails. -/
def flatFragments (grammar : Grammar) (reductions : Reductions) (tokens : Array Token)
    (trees : List Tree)
    : Except SynthesisError (List Fragment) :=
  (Tree.foldAllM (combine grammar reductions tokens) trees).map Fragment.flattenAll

/-- No trees have no fragments. -/
theorem flatFragments_nil
    : flatFragments grammar reductions tokens [] = .ok [] := by
  rfl

/-- The fragments of trees side by side are those of the first and then those of the others; the
first failure decides. -/
theorem flatFragments_cons (tree : Tree) (trees : List Tree)
    : flatFragments grammar reductions tokens (tree :: trees)
      = (fragment grammar reductions tokens tree).bind fun first =>
          (flatFragments grammar reductions tokens trees).map (first.flatten ++ ·) := by
  rw [flatFragments, Tree.foldAllM, flatFragments, fragment]
  cases Tree.foldM (combine grammar reductions tokens) tree with
  | error _ => rfl
  | ok first =>
      cases Tree.foldAllM (combine grammar reductions tokens) trees <;> rfl

/-- The fragments of a single tree are those that its own falls into. -/
theorem flatFragments_singleton (tree : Tree)
    : flatFragments grammar reductions tokens [tree]
      = (fragment grammar reductions tokens tree).map Fragment.flatten := by
  rw [flatFragments_cons]
  cases fragment grammar reductions tokens tree with
  | error _ => rfl
  | ok first =>
      rw [flatFragments_nil]
      simp [Except.map, Except.bind]

/-- The fragments of trees side by side come part by part, by induction on the first part. -/
theorem flatFragments_append (first second : List Tree)
    : flatFragments grammar reductions tokens (first ++ second)
      = (flatFragments grammar reductions tokens first).bind fun before =>
          (flatFragments grammar reductions tokens second).map (before ++ ·) := by
  induction first with
  | nil =>
      rw [List.nil_append, flatFragments_nil]
      cases flatFragments grammar reductions tokens second <;> rfl
  | cons tree first ih =>
      rw [List.cons_append, flatFragments_cons, flatFragments_cons, ih]
      cases fragment grammar reductions tokens tree with
      | error _ => rfl
      | ok result =>
          cases flatFragments grammar reductions tokens first with
          | error _ => rfl
          | ok before =>
              cases flatFragments grammar reductions tokens second with
              | error _ => rfl
              | ok after => simp [Except.bind, Except.map]

/-- What a nonterminal's node yields depends on its children by their flattened fragments alone. -/
theorem fragment_node (a start stop : Nat) (children : List Tree)
    : fragment grammar reductions tokens (.node (.nonterminal a) start stop children)
      = (flatFragments grammar reductions tokens children).bind
          (inner grammar reductions a) := by
  rw [fragment, Tree.foldM, flatFragments]
  cases Tree.foldAllM (combine grammar reductions tokens) children <;> rfl

/-- The flattened fragments of trees are flat. -/
theorem map_flattenAll_flatFragments (trees : List Tree)
    : (flatFragments grammar reductions tokens trees).map Fragment.flattenAll
      = flatFragments grammar reductions tokens trees := by
  rw [flatFragments]
  cases Tree.foldAllM (combine grammar reductions tokens) trees with
  | error _ => rfl
  | ok results => simp [Except.map]

-----------------------------------------------------------------------------------------
-- Contracting changes nothing
-----------------------------------------------------------------------------------------

/-- What is left of a tree yields the same to its parent as the tree. -/
def Replaces (grammar : Grammar) (reductions : Reductions) (tokens : Array Token) (tree : Tree)
    : Prop :=
  flatFragments grammar reductions tokens (tree.remains reductions)
    = (fragment grammar reductions tokens tree).map Fragment.flatten

/-- Trees that may each be replaced by what remains of them may be so side by side. -/
theorem flatFragments_remainsAll {trees : List Tree}
    (h : ∀ tree ∈ trees, Replaces grammar reductions tokens tree)
    : flatFragments grammar reductions tokens (Tree.remainsAll reductions trees)
      = flatFragments grammar reductions tokens trees := by
  induction trees with
  | nil => rfl
  | cons tree trees ih =>
      obtain ⟨htree, htrees⟩ := List.forall_mem_cons.1 h
      rw [Tree.remainsAll, flatFragments_append, htree, ih htrees, flatFragments_cons]
      cases fragment grammar reductions tokens tree <;> rfl

/-- A nonterminal's node yields the same over what is left of its children. -/
theorem fragment_contract_node {children : List Tree}
    (h : ∀ child ∈ children, Replaces grammar reductions tokens child) (a start stop : Nat)
    : fragment grammar reductions tokens
          (.contract reductions (.node (.nonterminal a) start stop children))
      = fragment grammar reductions tokens (.node (.nonterminal a) start stop children) := by
  rw [Tree.contract, fragment_node, flatFragments_remainsAll h, fragment_node]

/-- An inner node may be replaced by what remains of it if its children may.  A node without a
reduction passes on the fragments of its children flattened, so leaving it out changes nothing for
the node above. -/
theorem replaces_node {children : List Tree}
    (h : ∀ child ∈ children, Replaces grammar reductions tokens child) (a start stop : Nat)
    : Replaces grammar reductions tokens (.node (.nonterminal a) start stop children) := by
  have hinner : (Tree.node (.nonterminal a) start stop children).isPunctuation = false := rfl
  rw [Replaces, Tree.remains, hinner, if_neg Bool.false_ne_true]
  cases hhands : reductions.handsOn (.nonterminal a) with
  | false =>
      rw [if_neg Bool.false_ne_true, flatFragments_singleton, ← Tree.contract,
        fragment_contract_node h]
  | true =>
      -- The list that such a node yields is taken apart again by its parent.
      have hreduction : reductions.get? a = some .structural := by
        simpa [Reductions.handsOn] using hhands
      rw [if_pos rfl, flatFragments_remainsAll h, fragment_node,
        ← map_flattenAll_flatFragments children]
      cases flatFragments grammar reductions tokens children with
      | error _ => rfl
      | ok results =>
          simp [Except.map, Except.bind, inner_eq, hreduction, Reduction.apply, Fragment.flatten]

/-- Punctuation yields nothing, and any other leaf stays. -/
theorem replaces_leaf {token : Token} {start : Nat} (htoken : tokens[start]? = some token)
    : Replaces grammar reductions tokens (.leaf (.terminal token.tag) start) := by
  rw [Replaces, fragment_leaf htoken, Tree.leaf, Tree.remains]
  cases hpunctuation : (Tree.node (.terminal token.tag) start (start + 1) []).isPunctuation with
  | false =>
      rw [if_neg Bool.false_ne_true, Reductions.handsOn, if_neg Bool.false_ne_true,
        flatFragments_singleton, Tree.remainsAll, ← Tree.leaf, fragment_leaf htoken]
  | true =>
      rw [if_pos rfl]
      obtain ⟨tag, text⟩ := token
      cases tag with
      | dot | comma | leftParen | rightParen => rfl
      | _ => cases hpunctuation

/-- In every derivation tree the parts below the root may be contracted, by induction on the
derivation. -/
theorem replaces_of_derivation {label : Symbol Nat} {start stop : Nat} {tree : Tree}
    (h : Parse.Derivation grammar (tokens.map Token.tag) label start stop tree)
    : Replaces grammar reductions tokens tree := by
  induction h with
  | leaf htag =>
      rw [Array.getElem?_map, Option.map_eq_some_iff] at htag
      obtain ⟨token, htoken, rfl⟩ := htag
      exact replaces_leaf htoken
  | unit _ _ ih => exact replaces_node (by simpa using ih) _ _ _
  | pair _ _ _ _ _ ihLeft ihRight => exact replaces_node (by simpa using ⟨ihLeft, ihRight⟩) _ _ _

/-- A derived tree and its contraction have the same fragment, as only the root is kept whether or
not it has a reduction. -/
theorem fragment_contract {label : Symbol Nat} {start stop : Nat} {tree : Tree}
    (h : Parse.Derivation grammar (tokens.map Token.tag) label start stop tree)
    : fragment grammar reductions tokens (tree.contract reductions)
      = fragment grammar reductions tokens tree := by
  cases h with
  | leaf _ => rfl
  | unit _ below =>
      exact fragment_contract_node (by simpa using replaces_of_derivation below) _ _ _
  | pair _ _ _ hleft hright =>
      refine fragment_contract_node ?_ _ _ _
      simpa using ⟨replaces_of_derivation hleft, replaces_of_derivation hright⟩

end Synthesis

/-- Every tree of a forest yields the same fragment, and comes to the same value or fails in the
same way, when all nodes below its root are taken away that are punctuation or only hand on what
their children yield.  Such a node adds nothing to the flattened fragments that the node above it
joins. -/
theorem forest_contracts (grammar : Grammar) (reductions : Reductions) (tokens : Array Token)
    (start stop : Nat) (label : Symbol Nat) (hspan : start ≤ stop) (htokens : stop ≤ tokens.size)
    : ∃ found trees,
        Parse.forest grammar tokens start stop label = .ok found
        ∧ found.Delivers trees
        ∧ ∀ tree ∈ trees,
            ((tree.contract reductions).head = tree.head
              ∧ (tree.contract reductions).descendants.map Tree.head
                = (tree.descendants.filter (Tree.stays reductions)).map Tree.head)
            ∧ Synthesis.fragment grammar reductions tokens (tree.contract reductions)
              = Synthesis.fragment grammar reductions tokens tree
            ∧ synthesize grammar reductions tokens (tree.contract reductions)
              = synthesize grammar reductions tokens tree := by
  obtain ⟨found, hfound, htrees⟩ := Parse.exists_forest grammar tokens hspan htokens label
  refine ⟨found, found.toList, hfound, found.delivers_toList, fun tree htree => ?_⟩
  rw [htrees] at htree
  have hderivation := Parse.derivation_of_mem_enumeration htree
  have hfragment
      : Synthesis.fragment grammar reductions tokens (tree.contract reductions)
        = Synthesis.fragment grammar reductions tokens tree :=
    Synthesis.fragment_contract hderivation
  refine ⟨tree.heads_contract, hfragment, ?_⟩
  have hlabel : (tree.contract reductions).label = tree.label :=
    congrArg Prod.fst tree.heads_contract.1
  rw [synthesize_eq, synthesize_eq, hfragment, hlabel]

/-- A name in parentheses, where the nonterminal for an open parenthesis goes with both marks. -/
theorem forest_contracts_group
    : let tokens := #[Token.mk .leftParen "(", .mk .name "a", .mk .rightParen ")"]
      let reductions : Reductions :=
        ⟨[(9, .grouped), (11, .structural), (1, .expression), (3, .expression), (6, .expression)]⟩
      let factor := Tree.node (.nonterminal 6) 1 2 [.leaf (.terminal .name) 1]
      let inner := Tree.node (.nonterminal 1) 1 2 [.node (.nonterminal 3) 1 2 [factor]]
      let front := Tree.node (.nonterminal 11) 0 2 [.leaf (.terminal .leftParen) 0, inner]
      let tree := Tree.node (.nonterminal 9) 0 3 [front, .leaf (.terminal .rightParen) 2]
      0 ≤ 3
      ∧ 3 ≤ tokens.size
      ∧ tree.contract reductions = .node (.nonterminal 9) 0 3 [inner]
      ∧ ∃ found trees,
          Parse.forest .arithmetic tokens 0 3 (.nonterminal 9) = .ok found
          ∧ found.Delivers trees
          ∧ tree ∈ trees
          ∧ Synthesis.fragment .arithmetic reductions tokens (.node (.nonterminal 9) 0 3 [inner])
            = Synthesis.fragment .arithmetic reductions tokens tree := by
  intro tokens reductions factor inner front tree
  have hcontract : tree.contract reductions = .node (.nonterminal 9) 0 3 [inner] := rfl
  let tags : Array Tag := #[.leftParen, .name, .rightParen]
  have htags : tokens.map Token.tag = tags := by simp [tokens, tags]
  have htree : Parse.Derivation .arithmetic (tokens.map Token.tag) (.nonterminal 9) 0 3 tree := by
    rw [htags]
    have hfactor : Parse.Derivation .arithmetic tags (.nonterminal 6) 1 2 factor :=
      .unit (by decide) (.leaf rfl)
    have hinner : Parse.Derivation .arithmetic tags (.nonterminal 1) 1 2 inner :=
      .unit (by decide) (.unit (by decide) hfactor)
    have hfront : Parse.Derivation .arithmetic tags (.nonterminal 11) 0 2 front :=
      .pair (by decide) (by decide) (by decide) (.leaf rfl) hinner
    exact .pair (by decide) (by decide) (by decide) hfront (.leaf rfl)
  obtain ⟨found, trees, hfound, htrees, hsame⟩ :=
    forest_contracts .arithmetic reductions tokens 0 3 (.nonterminal 9) (by decide) (by decide)
  obtain ⟨_, hagain, hlist⟩ :=
    Parse.exists_forest .arithmetic tokens (by decide : 0 ≤ 3) (by decide) (.nonterminal 9)
  cases hfound.symm.trans hagain
  have hmem : tree ∈ trees := by
    rw [htrees.eq_toList, hlist]
    exact htree.mem_enumeration
  exact ⟨by decide, by decide, hcontract, found, trees, hfound, htrees, hmem,
    hcontract ▸ (hsame tree hmem).2.1⟩

end Formulary
