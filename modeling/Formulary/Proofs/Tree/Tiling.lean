import Formulary.Grammar.Arithmetic
import Formulary.Proofs.Token.Lexing
import Formulary.Proofs.Tree.Outline

/-! Well-formed trees by their leaves.
The check goes from node to node and asks each child to begin where the one before it stops.  It
holds of exactly the trees whose leaves stand over one token each, without gaps, and whose inner
nodes reach from their first leaf to their last.  So the text over a node is that over its
children, one behind the other.
-/

namespace Formulary

namespace Tree

-----------------------------------------------------------------------------------------
-- Leaves
-----------------------------------------------------------------------------------------

/-- The leaves of a tree from left to right. -/
def leaves (tree : Tree) : List Tree :=
  tree.nodes.filter isLeaf

/-- The positions where a tree begins and stops. -/
def span (tree : Tree) : Nat × Nat :=
  (tree.start, tree.stop)

/-- So many spans of one token each, the first at a position and each of the others where the one
before it stops. -/
def unitSpans (start length : Nat) : List (Nat × Nat) :=
  (List.range' start length).map fun position => (position, position + 1)

/-- A node begins with its first leaf and stops with its last one. -/
structure SpansLeaves (tree : Tree) : Prop where
  start : tree.leaves.head?.map Tree.start = some tree.start
  stop : tree.leaves.getLast?.map Tree.stop = some tree.stop

/-- A node without children is its own only leaf. -/
theorem leaves_of_childless (label : Symbol Nat) (start stop : Nat)
    : (node label start stop []).leaves = [node label start stop []] := by
  rw [leaves, nodes_node]
  rfl

/-- The leaves of an inner node are those of its children, one child after the other. -/
theorem leaves_of_children {children : List Tree} (h : children ≠ []) (label : Symbol Nat)
    (start stop : Nat)
    : (node label start stop children).leaves = children.flatMap leaves := by
  have hinner : (node label start stop children).isLeaf = false := by
    simpa [isLeaf, Tree.children] using h
  rw [leaves, nodes_node, List.filter_cons_of_neg (by simp [hinner]), List.filter_flatMap]
  rfl

/-- Every tree has a leaf, by induction on the tree. -/
theorem leaves_ne_nil (tree : Tree)
    : tree.leaves ≠ [] := by
  induction tree using children_induction with
  | node label start stop children ih =>
      cases children with
      | nil => simp [leaves_of_childless]
      | cons child children =>
          simp [leaves_of_children, ih child List.mem_cons_self]

/-- Unit spans side by side go on where the first ones end. -/
theorem unitSpans_append (start first second : Nat)
    : unitSpans start first ++ unitSpans (start + first) second
      = unitSpans start (first + second) := by
  rw [unitSpans, unitSpans, ← List.map_append, List.range'_append_1, unitSpans]

/-- Whatever unit spans are split into are unit spans. -/
theorem exists_of_unitSpans_eq_append {start length : Nat} {first second : List (Nat × Nat)}
    (h : unitSpans start length = first ++ second)
    : ∃ taken left,
        length = taken + left
        ∧ first = unitSpans start taken
        ∧ second = unitSpans (start + taken) left := by
  obtain ⟨positions, others, hrange, rfl, rfl⟩ := List.map_eq_append_iff.1 h
  obtain ⟨taken, hle, rfl, rfl⟩ := List.range'_eq_append_iff.1 hrange
  refine ⟨taken, length - taken, by omega, rfl, ?_⟩
  rw [unitSpans, Nat.mul_one]

/-- Leaves that cover unit spans cover at least one. -/
theorem length_pos_of_map_span {tree : Tree} {start length : Nat}
    (h : tree.leaves.map span = unitSpans start length)
    : 0 < length := by
  have hlength := congrArg List.length h
  have hpos := List.length_pos_iff.2 tree.leaves_ne_nil
  simp only [unitSpans, List.length_map, List.length_range'] at hlength
  omega

/-- Over unit spans, a first leaf begins where they do and a last one stops where they do.  The
first unit span begins at the start and the last one stops at the end. -/
theorem spansLeaves_iff {tree : Tree} {start length : Nat}
    (h : tree.leaves.map span = unitSpans start length)
    : tree.SpansLeaves ↔ tree.start = start ∧ tree.stop = start + length := by
  obtain ⟨more, rfl⟩ := Nat.exists_eq_add_one.2 (length_pos_of_map_span h)
  have hfirst : tree.leaves.head?.map Tree.start = some start := by
    have hhead := congrArg (fun spans => spans.head?.map Prod.fst) h
    simpa [unitSpans, List.range'_succ, span] using hhead
  have hlast : tree.leaves.getLast?.map Tree.stop = some (start + (more + 1)) := by
    have hend := congrArg (fun spans => spans.getLast?.map Prod.snd) h
    simpa [unitSpans, List.range'_concat, span, Nat.add_assoc] using hend
  constructor
  · rintro ⟨hstart, hstop⟩
    rw [hfirst, Option.some_inj] at hstart
    rw [hlast, Option.some_inj] at hstop
    exact ⟨hstart.symm, hstop.symm⟩
  · rintro ⟨hstart, hstop⟩
    exact ⟨by rw [hfirst, hstart], by rw [hlast, hstop]⟩

-----------------------------------------------------------------------------------------
-- From the check to the leaves
-----------------------------------------------------------------------------------------

/-- What tiles an interval begins with a well-formed tree, and the others tile the rest. -/
theorem tiles_cons_iff {start stop : Nat} {child : Tree} {children : List Tree}
    : tiles start stop (child :: children) = true
      ↔ child.start = start ∧ child.wellFormed = true ∧ tiles child.stop stop children = true := by
  simp [tiles, and_assoc]

/-- Children that tile a span are well formed. -/
theorem wellFormed_of_mem_of_tiles {start stop : Nat} {children : List Tree}
    (h : tiles start stop children = true)
    : ∀ child ∈ children, child.wellFormed = true := by
  induction children generalizing start with
  | nil => exact List.forall_mem_nil _
  | cons child children ih =>
      obtain ⟨-, hchild, hothers⟩ := tiles_cons_iff.1 h
      exact List.forall_mem_cons.2 ⟨hchild, ih hothers⟩

/-- The children of a well-formed node are well-formed. -/
theorem wellFormed_of_mem_children {label : Symbol Nat} {start stop : Nat}
    {children : List Tree} (h : (node label start stop children).wellFormed = true)
    : ∀ child ∈ children, child.wellFormed = true := by
  obtain ⟨last, htiles, -⟩ := exists_tiles h
  exact wellFormed_of_mem_of_tiles htiles

/-- Every subtree of a well-formed tree is well-formed. -/
theorem wellFormed_of_mem_nodes {tree : Tree} (h : tree.wellFormed = true)
    : ∀ node ∈ tree.nodes, node.wellFormed = true := by
  induction tree using children_induction with
  | node label start stop children ih =>
      rw [nodes_node, List.forall_mem_cons, List.forall_mem_flatMap]
      exact ⟨h, fun child hchild => ih child hchild (wellFormed_of_mem_children h child hchild)⟩

/-- Trees that tile an interval have their leaves over its tokens, if each of them has. -/
theorem map_span_of_tiles {children : List Tree}
    (h
      : ∀ child ∈ children,
          child.wellFormed = true
          → ∃ length,
              child.stop = child.start + length
              ∧ child.leaves.map span = unitSpans child.start length)
    {start stop : Nat} (htiles : tiles start stop children = true)
    : ∃ length,
        stop = start + length
        ∧ (children.flatMap leaves).map span = unitSpans start length := by
  induction children generalizing start with
  | nil =>
      rw [tiles, beq_iff_eq] at htiles
      exact ⟨0, by omega, rfl⟩
  | cons child children ih =>
      obtain ⟨hchild, hchildren⟩ := List.forall_mem_cons.1 h
      obtain ⟨rfl, hwellFormed, hothers⟩ := tiles_cons_iff.1 htiles
      obtain ⟨first, hstop, hfirst⟩ := hchild hwellFormed
      obtain ⟨second, rfl, hsecond⟩ := ih hchildren hothers
      refine ⟨first + second, by omega, ?_⟩
      rw [List.flatMap_cons, List.map_append, hfirst, hsecond, hstop, unitSpans_append]

/-- The leaves of a well-formed tree stand over the tokens of its span, one over each. -/
theorem exists_length_of_wellFormed {tree : Tree} (h : tree.wellFormed = true)
    : ∃ length,
        tree.stop = tree.start + length
        ∧ tree.leaves.map span = unitSpans tree.start length := by
  induction tree using children_induction with
  | node label start stop children ih =>
      cases children with
      | nil =>
          rw [wellFormed, beq_iff_eq] at h
          refine ⟨1, h.symm, ?_⟩
          simp [leaves_of_childless, span, unitSpans, Tree.start, Tree.stop, h]
      | cons child children =>
          rw [wellFormed, Bool.and_eq_true] at h
          obtain ⟨length, hstop, hleaves⟩ := map_span_of_tiles ih h.2
          exact ⟨length, hstop, by rw [leaves_of_children (List.cons_ne_nil _ _), hleaves]; rfl⟩

/-- A well-formed tree has a token in it. -/
theorem start_lt_stop_of_wellFormed {tree : Tree} (h : tree.wellFormed = true)
    : tree.start < tree.stop := by
  obtain ⟨label, start, stop, _ | ⟨child, children⟩⟩ := tree
  · rw [wellFormed, beq_iff_eq] at h
    exact Nat.lt_of_lt_of_eq (Nat.lt_succ_self start) h
  · rw [wellFormed, Bool.and_eq_true, decide_eq_true_eq] at h
    exact h.1

/-- The leaves of a well-formed tree cover its span, token by token. -/
theorem map_span_leaves {tree : Tree} (h : tree.wellFormed = true)
    : tree.leaves.map span = unitSpans tree.start tree.length := by
  obtain ⟨length, hstop, hleaves⟩ := exists_length_of_wellFormed h
  rw [hleaves, Tree.length, hstop, Nat.add_sub_cancel_left]

/-- A well-formed tree begins with its first leaf and ends with its last. -/
theorem spansLeaves_of_wellFormed {tree : Tree} (h : tree.wellFormed = true)
    : tree.SpansLeaves := by
  obtain ⟨length, hstop, hleaves⟩ := exists_length_of_wellFormed h
  exact (spansLeaves_iff hleaves).2 ⟨rfl, hstop⟩

-----------------------------------------------------------------------------------------
-- From the leaves to the check
-----------------------------------------------------------------------------------------

/-- Children tile the tokens under their leaves if each of them passes the check over its own.  By
induction on the children, each of which takes up the leaves in front of those of the others. -/
theorem tiles_of_map_span {children : List Tree}
    (h
      : ∀ child ∈ children,
          ∀ start length,
            child.leaves.map span = unitSpans start length
            → child.wellFormed = true ∧ child.start = start ∧ child.stop = start + length)
    {start length : Nat}
    (hleaves : (children.flatMap leaves).map span = unitSpans start length)
    : tiles start (start + length) children = true := by
  induction children generalizing start length with
  | nil =>
      have hlength : length = 0 := by
        simpa [unitSpans] using (congrArg List.length hleaves).symm
      simp [tiles, hlength]
  | cons child children ih =>
      obtain ⟨hchild, hchildren⟩ := List.forall_mem_cons.1 h
      rw [List.flatMap_cons, List.map_append] at hleaves
      obtain ⟨taken, left, rfl, hfirst, hsecond⟩ := exists_of_unitSpans_eq_append hleaves.symm
      obtain ⟨hwellFormed, hstart, hstop⟩ := hchild start taken hfirst
      refine tiles_cons_iff.2 ⟨hstart, hwellFormed, ?_⟩
      rw [hstop, ← Nat.add_assoc]
      exact ih hchildren hsecond

/-- A tree over the tokens under its leaves passes the check if its inner nodes reach from their
first leaf to their last. -/
theorem wellFormed_of_map_span {tree : Tree}
    (hinner : ∀ node ∈ tree.nodes, node.isLeaf = false → node.SpansLeaves) {start length : Nat}
    (hleaves : tree.leaves.map span = unitSpans start length)
    : tree.wellFormed = true ∧ tree.start = start ∧ tree.stop = start + length := by
  induction tree using children_induction generalizing start length with
  | node label first last children ih =>
      cases children with
      | nil =>
          -- One leaf over unit spans stands over one token.
          rw [leaves_of_childless] at hleaves
          have hlength : length = 1 := by
            simpa [unitSpans] using (congrArg List.length hleaves).symm
          subst hlength
          obtain ⟨rfl, rfl⟩ : first = start ∧ last = start + 1 := by
            simpa [unitSpans, span, Tree.start, Tree.stop] using hleaves
          exact ⟨by simp [wellFormed], rfl, rfl⟩
      | cons child children =>
          rw [nodes_node, List.forall_mem_cons, List.forall_mem_flatMap] at hinner
          obtain ⟨hroot, hbelow⟩ := hinner
          have hpos := length_pos_of_map_span hleaves
          obtain ⟨hstart, hstop⟩ := (spansLeaves_iff hleaves).1 (hroot rfl)
          rw [leaves_of_children (List.cons_ne_nil _ _)] at hleaves
          have htiles :=
            tiles_of_map_span
              (fun child hchild start length => ih child hchild (hbelow child hchild)) hleaves
          rw [Tree.start] at hstart
          rw [Tree.stop] at hstop
          subst hstart hstop
          refine ⟨?_, rfl, rfl⟩
          rw [wellFormed, Bool.and_eq_true, decide_eq_true_eq]
          exact ⟨Nat.lt_add_of_pos_right hpos, htiles⟩

end Tree

-----------------------------------------------------------------------------------------
-- Named forms
-----------------------------------------------------------------------------------------

namespace NamedTree

def text : NamedTree → String
  | node _ _ _ text _ => text

def children : NamedTree → List NamedTree
  | node _ _ _ _ children => children

mutual
/-- The nodes of a named tree, each before those below it. -/
def nodes : NamedTree → List NamedTree
  | node label start stop text children =>
      node label start stop text children :: nodesAll children

def nodesAll : List NamedTree → List NamedTree
  | [] => []
  | tree :: trees => tree.nodes ++ nodesAll trees
end

/-- The nodes of named trees side by side are those of each, by induction on the list. -/
theorem nodesAll_eq_flatMap (trees : List NamedTree)
    : nodesAll trees = trees.flatMap nodes := by
  induction trees with
  | nil => rfl
  | cons tree trees ih => rw [nodesAll, ih, List.flatMap_cons]

end NamedTree

namespace Tree

variable (grammar : Grammar) (tokens : Array Token)

/-- The nodes of the named form are those of the tree, named. -/
theorem nodes_named (tree : Tree)
    : (tree.named grammar tokens).nodes = tree.nodes.map (named grammar tokens) := by
  induction tree using children_induction with
  | node label start stop children ih =>
      rw [nodes_node, List.map_cons, named_node, NamedTree.nodes, NamedTree.nodesAll_eq_flatMap,
        List.flatMap_map, List.map_flatMap, List.flatMap_congr ih]

/-- Naming a tree keeps its text. -/
theorem text_named (tree : Tree)
    : (tree.named grammar tokens).text = tree.text tokens := by
  obtain ⟨label, start, stop, children⟩ := tree
  rw [named_node]
  rfl

/-- The children of a named tree are the named children. -/
theorem children_named (tree : Tree)
    : (tree.named grammar tokens).children = tree.children.map (named grammar tokens) := by
  obtain ⟨label, start, stop, children⟩ := tree
  rw [named_node]
  rfl

/-- The texts of trees that tile an interval are the text of the interval.  By induction on the
trees: each goes on where the one before it stops. -/
theorem join_text_of_tiles {children : List Tree} {start stop : Nat}
    (h : tiles start stop children = true)
    : start ≤ stop
      ∧ String.join (children.map (text tokens))
        = Token.textOf (tokens.extract start stop).toList := by
  induction children generalizing start with
  | nil =>
      rw [tiles, beq_iff_eq] at h
      subst h
      exact ⟨Nat.le_refl _, by simp⟩
  | cons child children ih =>
      obtain ⟨rfl, hchild, hothers⟩ := tiles_cons_iff.1 h
      obtain ⟨hstop, htext⟩ := ih hothers
      have hstart := (start_lt_stop_of_wellFormed hchild).le
      refine ⟨hstart.trans hstop, ?_⟩
      rw [List.map_cons, String.join_cons, htext, text, ← Token.textOf_append,
        ← Array.toList_append, Array.extract_append_extract, Nat.min_eq_left hstart,
        Nat.max_eq_right hstop]

/-- The text over an inner node of a well-formed tree is that over its children. -/
theorem join_text_children {tree : Tree} (h : tree.wellFormed = true)
    (hinner : tree.children ≠ [])
    : String.join (tree.children.map (text tokens)) = tree.text tokens := by
  obtain ⟨label, start, stop, _ | ⟨child, children⟩⟩ := tree
  · exact (hinner rfl).elim
  · rw [wellFormed, Bool.and_eq_true] at h
    exact (join_text_of_tiles tokens h.2).2

/-- A tree is well-formed exactly if its leaves are the one-token spans from its start to its stop
and every inner node reaches from its first leaf to its last.  Then so is every subtree, there are
as many leaves as tokens, and the named form shows over every inner node the texts over its
children. -/
theorem wellFormed_iff_leaves (tree : Tree)
    : (tree.wellFormed = true
        ↔ tree.leaves.map span = unitSpans tree.start tree.length
          ∧ tree.start < tree.stop
          ∧ ∀ node ∈ tree.nodes, node.isLeaf = false → node.SpansLeaves)
      ∧ (tree.wellFormed = true
        → (∀ node ∈ tree.nodes, node.wellFormed = true)
          ∧ tree.leaves.length = tree.length
          ∧ ∀ (grammar : Grammar) (tokens : Array Token),
              ∀ node ∈ (tree.named grammar tokens).nodes,
                node.children ≠ []
                → node.text = String.join (node.children.map NamedTree.text)) := by
  refine ⟨⟨fun h => ?_, fun ⟨hleaves, _, hinner⟩ => (wellFormed_of_map_span hinner hleaves).1⟩,
    fun h => ⟨wellFormed_of_mem_nodes h, ?_, ?_⟩⟩
  · refine ⟨map_span_leaves h, start_lt_stop_of_wellFormed h, fun node hnode _ => ?_⟩
    exact spansLeaves_of_wellFormed (wellFormed_of_mem_nodes h node hnode)
  · simpa [unitSpans] using congrArg List.length (map_span_leaves h)
  · intro grammar tokens node hnode hinner
    rw [nodes_named] at hnode
    obtain ⟨inner, hmem, rfl⟩ := List.mem_map.1 hnode
    rw [children_named] at hinner ⊢
    have htext := join_text_children tokens (wellFormed_of_mem_nodes h inner hmem)
      (by simpa using hinner)
    rw [text_named, ← htext, List.map_map]
    congr 1
    exact List.map_congr_left fun child _ => (text_named grammar tokens child).symm

/-- The call `f(x)` with its name in front and three leaves below one node. -/
theorem wellFormed_iff_leaves_call
    : let leaf := fun (tag : Tag) (start : Nat) => Tree.leaf (.terminal tag) start
      let arguments :=
        node (.nonterminal 1) 1 4 [leaf .leftParen 1, leaf .name 2, leaf .rightParen 3]
      let tree := node (.nonterminal 0) 0 4 [leaf .funcName 0, arguments]
      let tokens : Array Token :=
        #[⟨.funcName, "f"⟩, ⟨.leftParen, "("⟩, ⟨.name, "x"⟩, ⟨.rightParen, ")"⟩]
      let named := tree.named .arithmetic tokens
      tree.wellFormed = true
      ∧ tree.leaves.map span = [(0, 1), (1, 2), (2, 3), (3, 4)]
      ∧ tree.SpansLeaves
      ∧ arguments.wellFormed = true
      ∧ tree.leaves.length = 4
      ∧ named.children ≠ []
      ∧ named.text = String.join (named.children.map NamedTree.text) := by
  intro leaf arguments tree tokens named
  have hwellFormed : tree.wellFormed = true := by decide
  have hroot : tree ∈ tree.nodes := by simp [tree, nodes_node]
  have harguments : arguments ∈ tree.nodes := by simp [tree, arguments, nodes_node]
  have hnamed : named ∈ named.nodes := by
    rw [nodes_named]
    exact List.mem_map_of_mem hroot
  have hchildren : named.children ≠ [] := by simp [named, children_named, tree, Tree.children]
  obtain ⟨hleaves, -, hinner⟩ := (wellFormed_iff_leaves tree).1.1 hwellFormed
  obtain ⟨hnodes, hlength, htexts⟩ := (wellFormed_iff_leaves tree).2 hwellFormed
  exact ⟨hwellFormed, hleaves, hinner tree hroot rfl, hnodes arguments harguments, hlength,
    hchildren, htexts .arithmetic tokens named hnamed hchildren⟩

end Tree

end Formulary
