import Formulary.Tree
import Mathlib.Data.List.Basic

/-! Walking over the nodes of a tree, and carrying trees over.
A tree is carried over to another grammar by renaming its nonterminals, and to another span by
moving its positions; where the new names mean what the old ones did, its named form is the same.
From the root down a node comes before its children, and these come from left to right.  The labels
and depths of all nodes in this order tell how the nodes hang together, so with the place where it
begins they determine a well-formed tree.
-/

namespace Formulary

-----------------------------------------------------------------------------------------
-- Trees with other labels and in other places
-----------------------------------------------------------------------------------------

namespace Tree

/-- Induction over trees: a statement passes from all children to their parent. -/
theorem children_induction {motive : Tree → Prop}
    (node
      : ∀ label start stop children,
          (∀ child ∈ children, motive child) → motive (.node label start stop children))
    : ∀ tree, motive tree
  | .node label start stop children =>
      node label start stop children fun child _ => children_induction node child

/-- Renames the nonterminals of a tree and moves it to the right. -/
def transport (rename : Nat → Nat) (offset : Nat) (tree : Tree) : Tree :=
  tree.fold fun tree children =>
    .node (tree.label.map rename) (tree.start + offset) (tree.stop + offset) children

/-- A node is moved by renaming its label, shifting its span and moving its children. -/
@[simp]
theorem transport_node (rename : Nat → Nat) (offset : Nat) (label : Symbol Nat) (start stop : Nat)
    (children : List Tree)
    : transport rename offset (.node label start stop children)
      = .node (label.map rename) (start + offset) (stop + offset)
          (children.map (transport rename offset)) := by
  rw [transport, fold, foldAll_eq_map]
  rfl

/-- A leaf is moved by renaming its label and shifting its place. -/
@[simp]
theorem transport_leaf (rename : Nat → Nat) (offset : Nat) (label : Symbol Nat) (start : Nat)
    : transport rename offset (.leaf label start) = .leaf (label.map rename) (start + offset) := by
  rw [leaf, transport_node, leaf, Nat.add_right_comm, List.map_nil]

/-- Moving a tree nowhere leaves it, by induction on the tree. -/
theorem transport_id_zero (tree : Tree)
    : transport id 0 tree = tree := by
  induction tree using children_induction with
  | node label start stop children ih =>
      rw [transport_node, List.map_congr_left ih, List.map_id', Symbol.map_id, Nat.add_zero,
        Nat.add_zero]

/-- A node is named by the text of its label, with the text of its span and its named children. -/
theorem named_node (grammar : Grammar) (tokens : Array Token) (label : Symbol Nat)
    (start stop : Nat) (children : List Tree)
    : named grammar tokens (.node label start stop children)
      = .node (grammar.symbolName label) start stop
          (Token.textOf (tokens.extract start stop).toList)
          (children.map (named grammar tokens)) := by
  simp only [funext (named_eq_fold grammar tokens), fold, foldAll_eq_map]
  rfl

/-- A renaming that keeps the names of all nonterminals keeps the named form. -/
theorem named_transport {grammar other : Grammar} {rename : Nat → Nat}
    (h : ∀ a, other.nonterminalName (rename a) = grammar.nonterminalName a)
    (tokens : Array Token) (tree : Tree)
    : (tree.transport rename 0).named other tokens = tree.named grammar tokens := by
  induction tree using children_induction with
  | node label start stop children ih =>
      have hlabel : other.symbolName (label.map rename) = grammar.symbolName label := by
        cases label with
        | terminal tag => rfl
        | nonterminal a => exact h a
      rw [transport_node, named_node, named_node, List.map_map, hlabel, Nat.add_zero, Nat.add_zero]
      congr 1
      exact List.map_congr_left ih

end Tree

-----------------------------------------------------------------------------------------
-- From the root down
-----------------------------------------------------------------------------------------

namespace Tree

-----------------------------------------------------------------------------------------
-- Pre-order
-----------------------------------------------------------------------------------------

mutual
/-- The nodes of a tree, each with its depth, where the root has the given one. -/
def outline (depth : Nat) : Tree → List (Nat × Tree)
  | node label start stop children =>
      (depth, node label start stop children) :: outlineAll (depth + 1) children

/-- The nodes of trees whose roots all have the given depth. -/
def outlineAll (depth : Nat) : List Tree → List (Nat × Tree)
  | [] => []
  | tree :: trees => tree.outline depth ++ outlineAll depth trees
end

/-- The outline of trees side by side is that of each, by induction on the list. -/
theorem outlineAll_eq_flatMap (depth : Nat) (trees : List Tree)
    : outlineAll depth trees = trees.flatMap (outline depth) := by
  induction trees with
  | nil => rfl
  | cons tree trees ih => rw [outlineAll, ih, List.flatMap_cons]

/-- With the root a level deeper, every node is. -/
theorem outline_succ (tree : Tree) (depth : Nat)
    : tree.outline (depth + 1) = (tree.outline depth).map (Prod.map (· + 1) id) := by
  induction tree using children_induction generalizing depth with
  | node label start stop children ih =>
      rw [outline, outline, List.map_cons, outlineAll_eq_flatMap, outlineAll_eq_flatMap,
        List.map_flatMap, List.flatMap_congr fun child hchild => ih child hchild (depth + 1)]
      rfl

/-- The nodes of a tree in pre-order. -/
def nodes (tree : Tree) : List Tree :=
  (tree.outline 0).map Prod.snd

/-- The nodes other than the root. -/
def descendants (tree : Tree) : List Tree :=
  tree.children.flatMap nodes

/-- The nodes of the outline do not depend on the depth it starts at. -/
theorem map_snd_outline (tree : Tree) (depth : Nat)
    : (tree.outline depth).map Prod.snd = tree.nodes := by
  induction depth with
  | zero => rfl
  | succ depth ih =>
      rw [outline_succ, List.map_map, ← ih]
      rfl

/-- The nodes of a tree are its root and then those of its children, one child after the other. -/
theorem nodes_node (label : Symbol Nat) (start stop : Nat) (children : List Tree)
    : (node label start stop children).nodes
      = node label start stop children :: children.flatMap nodes := by
  rw [nodes, outline, List.map_cons, outlineAll_eq_flatMap, List.map_flatMap]
  exact congrArg _ (List.flatMap_congr fun child _ => child.map_snd_outline 1)

-----------------------------------------------------------------------------------------
-- From the outline back to the tree
-----------------------------------------------------------------------------------------

/-- The labels of a tree's nodes with their depths. -/
def sketch (depth : Nat) (tree : Tree) : List (Nat × Symbol Nat) :=
  (tree.outline depth).map (Prod.map id label)

/-- The sketch of a tree is its label at its depth and then the sketches of its children, one level
deeper. -/
theorem sketch_node (depth : Nat) (label : Symbol Nat) (start stop : Nat) (children : List Tree)
    : (node label start stop children).sketch depth
      = (depth, label) :: children.flatMap (sketch (depth + 1)) := by
  rw [sketch, outline, outlineAll_eq_flatMap, List.map_cons, List.map_flatMap]
  rfl

/-- What follows in an outline is no deeper than a limit asks. -/
def EndsAbove (limit : Nat) (rest : List (Nat × Symbol Nat)) : Prop :=
  ∀ entry ∈ rest.head?, entry.1 < limit

/-- Nothing follows at the end. -/
theorem endsAbove_nil (limit : Nat)
    : EndsAbove limit [] := by
  simp [EndsAbove]

/-- What ends above one depth ends above any deeper one. -/
theorem EndsAbove.mono {limit larger : Nat} {rest : List (Nat × Symbol Nat)}
    (h : EndsAbove limit rest) (hle : limit ≤ larger)
    : EndsAbove larger rest :=
  fun entry hentry => Nat.lt_of_lt_of_le (h entry hentry) hle

/-- A tree at a depth does not end above it, as its root stands there. -/
theorem not_endsAbove_sketch (depth : Nat) (tree : Tree) (rest : List (Nat × Symbol Nat))
    : ¬ EndsAbove depth (tree.sketch depth ++ rest) := by
  obtain ⟨label, start, stop, children⟩ := tree
  simp [EndsAbove, sketch_node]

/-- A next tree of the same depth, or what follows above it, ends what is below the first one. -/
theorem endsAbove_succ_flatMap_sketch {depth : Nat} {rest : List (Nat × Symbol Nat)}
    (h : EndsAbove depth rest) (trees : List Tree)
    : EndsAbove (depth + 1) (trees.flatMap (sketch depth) ++ rest) := by
  cases trees with
  | nil => exact h.mono (Nat.le_succ depth)
  | cons tree trees =>
      obtain ⟨label, start, stop, children⟩ := tree
      simp [EndsAbove, sketch_node]

/-- Whatever follows, a tree that begins at a place can be read off its sketch. -/
def Readable (tree : Tree) : Prop :=
  ∀ (depth : Nat) (other : Tree) (rest otherRest : List (Nat × Symbol Nat)),
    tree.wellFormed = true
    → other.wellFormed = true
    → tree.start = other.start
    → EndsAbove (depth + 1) rest
    → EndsAbove (depth + 1) otherRest
    → tree.sketch depth ++ rest = other.sketch depth ++ otherRest
    → tree = other ∧ rest = otherRest

/-- Siblings that can be read off their sketches each can be read off them side by side, by
induction on the list: where one list ends, what follows tells that no further sibling comes. -/
theorem tiles_readable {trees : List Tree} (h : ∀ tree ∈ trees, tree.Readable) (depth : Nat)
    (others : List Tree) {start stop otherStop : Nat} {rest otherRest : List (Nat × Symbol Nat)}
    (htiles : tiles start stop trees = true) (hothers : tiles start otherStop others = true)
    (hrest : EndsAbove depth rest) (hotherRest : EndsAbove depth otherRest)
    (hsketch
      : trees.flatMap (sketch depth) ++ rest = others.flatMap (sketch depth) ++ otherRest)
    : trees = others ∧ stop = otherStop ∧ rest = otherRest := by
  induction trees generalizing others start with
  | nil =>
      cases others with
      | nil =>
          simp only [tiles, beq_iff_eq] at htiles hothers
          exact ⟨rfl, htiles.symm.trans hothers, hsketch⟩
      | cons other others =>
          rw [List.flatMap_nil, List.nil_append, List.flatMap_cons, List.append_assoc] at hsketch
          exact (not_endsAbove_sketch depth other _ (hsketch ▸ hrest)).elim
  | cons tree trees ih =>
      cases others with
      | nil =>
          rw [List.flatMap_nil, List.nil_append, List.flatMap_cons, List.append_assoc] at hsketch
          exact (not_endsAbove_sketch depth tree _ (hsketch ▸ hotherRest)).elim
      | cons other others =>
          obtain ⟨hfirst, hmore⟩ := List.forall_mem_cons.1 h
          simp only [tiles, Bool.and_eq_true, beq_iff_eq] at htiles hothers
          obtain ⟨⟨hstart, hwellFormed⟩, htiles⟩ := htiles
          obtain ⟨⟨hotherStart, hotherWellFormed⟩, hothers⟩ := hothers
          rw [List.flatMap_cons, List.flatMap_cons, List.append_assoc, List.append_assoc]
            at hsketch
          obtain ⟨rfl, hbehind⟩ :=
            hfirst depth other _ _ hwellFormed hotherWellFormed (hstart.trans hotherStart.symm)
              (endsAbove_succ_flatMap_sketch hrest trees)
              (endsAbove_succ_flatMap_sketch hotherRest others) hsketch
          obtain ⟨rfl, hstop, hends⟩ := ih hmore others htiles hothers hbehind
          exact ⟨rfl, hstop, hends⟩

/-- The children of a well-formed node tile a span that begins where the node does. -/
theorem exists_tiles {label : Symbol Nat} {start stop : Nat} {children : List Tree}
    (h : (node label start stop children).wellFormed = true)
    : ∃ last, tiles start last children = true
        ∧ stop = if children = [] then start + 1 else last := by
  cases children with
  | nil =>
      simp only [wellFormed, beq_iff_eq] at h
      exact ⟨start, by simp [tiles], by simp [h]⟩
  | cons child children =>
      simp only [wellFormed, Bool.and_eq_true] at h
      exact ⟨stop, h.2, by simp⟩

/-- Every tree can be read off its sketch, by induction on the tree.  What follows above its depth
tells where the children end, and well-formed ones tile the span. -/
theorem readable (tree : Tree)
    : tree.Readable := by
  induction tree using children_induction with
  | node label start stop children ih =>
      rintro depth ⟨otherLabel, otherStart, otherStop, others⟩ rest otherRest hwellFormed
        hotherWellFormed hstart hrest hotherRest hsketch
      obtain ⟨last, htiles, hstop⟩ := exists_tiles hwellFormed
      obtain ⟨otherLast, hothers, hotherStop⟩ := exists_tiles hotherWellFormed
      simp only [Tree.start] at hstart
      subst hstart
      rw [sketch_node, sketch_node, List.cons_append, List.cons_append] at hsketch
      obtain ⟨hlabel, hbelow⟩ := List.cons.inj hsketch
      obtain ⟨rfl, rfl, hends⟩ :=
        tiles_readable ih (depth + 1) others htiles hothers hrest hotherRest hbelow
      cases hlabel
      exact ⟨by rw [hstop, hotherStop], hends⟩

/-- Well-formed trees that begin at the same place and have the same sketch are the same. -/
theorem eq_of_sketch_eq {tree other : Tree} (htree : tree.wellFormed = true)
    (hother : other.wellFormed = true) (hstart : tree.start = other.start)
    (h : tree.sketch 0 = other.sketch 0)
    : tree = other :=
  (tree.readable 0 other [] [] htree hother hstart (endsAbove_nil _) (endsAbove_nil _)
    (by rw [h])).1

end Tree

end Formulary
