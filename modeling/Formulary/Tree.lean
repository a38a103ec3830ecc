import Formulary.Grammar.Basic
import Formulary.Grammar.Rule
import Formulary.Text
import Formulary.Token.Basic

/-! Parse trees over a run of tokens.
A node has a label and a half-open span of token positions.  A leaf stands for one token, and
the children of an inner node lie side by side over its span.  A tree is combined bottom-up: every
child before its parent and from left to right, and the parent receives the results of its children
in their order; in a monad with failures the first one ends the whole run.  Printing, naming the
labels for a document and counting the leaves go by this.
-/

namespace Formulary

-----------------------------------------------------------------------------------------
-- Trees
-----------------------------------------------------------------------------------------

/-- A parse tree whose labels are symbols of a compiled grammar. -/
inductive Tree where
  | node (label : Symbol Nat) (start stop : Nat) (children : List Tree)

namespace Tree

def label : Tree → Symbol Nat
  | node label _ _ _ => label

/-- The position of the first token of the span. -/
def start : Tree → Nat
  | node _ start _ _ => start

/-- The position just behind the last token of the span. -/
def stop : Tree → Nat
  | node _ _ stop _ => stop

def children : Tree → List Tree
  | node _ _ _ children => children

/-- The leaf over the single token at a position. -/
def leaf (label : Symbol Nat) (start : Nat) : Tree :=
  node label start (start + 1) []

def isLeaf (tree : Tree) : Bool :=
  tree.children.isEmpty

/-- The number of tokens in the span. -/
def length (tree : Tree) : Nat :=
  tree.stop - tree.start

/-- Holds of a tree over no token at all. -/
def isEmpty (tree : Tree) : Bool :=
  tree.start == tree.stop

mutual
/-- Whether every leaf is over one token and the children of every inner node tile its span. -/
def wellFormed : Tree → Bool
  | node _ start stop [] => start + 1 == stop
  | node _ start stop (child :: children) => start < stop && tiles start stop (child :: children)

/-- Whether well-formed trees follow each other without gaps between two positions. -/
def tiles (start stop : Nat) : List Tree → Bool
  | [] => start == stop
  | child :: children => child.start == start && child.wellFormed && tiles child.stop stop children
end

end Tree

-----------------------------------------------------------------------------------------
-- Combining trees
-----------------------------------------------------------------------------------------

namespace Tree

section Monadic

variable {m : Type u → Type v} [Monad m] {ρ : Type u}

mutual
/-- Combines the nodes of a tree in post-order within a monad. -/
def foldM (combine : Tree → List ρ → m ρ) : Tree → m ρ
  | node label start stop children => do
      let results ← foldAllM combine children
      combine (node label start stop children) results

/-- Combines trees one after the other and collects their results. -/
def foldAllM (combine : Tree → List ρ → m ρ) : List Tree → m (List ρ)
  | [] => pure []
  | tree :: trees => do
      let result ← foldM combine tree
      let results ← foldAllM combine trees
      pure (result :: results)
end

end Monadic

mutual
/-- Combines the nodes of a tree in post-order. -/
def fold (combine : Tree → List ρ → ρ) : Tree → ρ
  | node label start stop children =>
      combine (node label start stop children) (foldAll combine children)

/-- The results of trees, in their order. -/
def foldAll (combine : Tree → List ρ → ρ) : List Tree → List ρ
  | [] => []
  | tree :: trees => fold combine tree :: foldAll combine trees
end

/-- The number of nodes. -/
def size (tree : Tree) : Nat :=
  tree.fold fun _ results => results.foldr (· + ·) 1

mutual
/-- A step without effects gives the same in every monad. -/
theorem foldM_pure {m : Type u → Type v} [Monad m] [LawfulMonad m] {ρ : Type u}
    (combine : Tree → List ρ → ρ) (tree : Tree)
    : tree.foldM (fun node results => (pure (combine node results) : m ρ))
      = pure (tree.fold combine) := by
  cases tree with
  | node label start stop children =>
      rw [foldM, foldAllM_pure combine children, pure_bind, fold]
termination_by sizeOf tree

/-- The same of trees that stand side by side. -/
theorem foldAllM_pure {m : Type u → Type v} [Monad m] [LawfulMonad m] {ρ : Type u}
    (combine : Tree → List ρ → ρ) (trees : List Tree)
    : foldAllM (fun node results => (pure (combine node results) : m ρ)) trees
      = pure (foldAll combine trees) := by
  cases trees with
  | nil => rw [foldAllM, foldAll]
  | cons tree trees =>
      rw [foldAllM, foldM_pure combine tree, pure_bind, foldAllM_pure combine trees, pure_bind,
        foldAll]
termination_by sizeOf trees
end

/-- Trees side by side are combined one by one, by induction on the list. -/
theorem foldAll_eq_map (combine : Tree → List ρ → ρ) (trees : List Tree)
    : foldAll combine trees = trees.map (fold combine) := by
  induction trees with
  | nil => simp [foldAll]
  | cons tree trees ih => simp [foldAll, ih]

end Tree

-----------------------------------------------------------------------------------------
-- Showing trees
-----------------------------------------------------------------------------------------

namespace Tree

/-- The text of the tokens that a tree covers. -/
def text (tokens : Array Token) (tree : Tree) : String :=
  Token.textOf (tokens.extract tree.start tree.stop).toList

/-- One node with the name of its label, above the printed forms of its children. -/
def printNode (name : String) (tokens : Array Token) (tree : Tree) (children : List String)
    : String :=
  let heading := name ++ " " ++ Text.quote (tree.text tokens)
  let beneath := String.join ((children.flatMap Text.lines).map Text.indentLine)
  Text.trim (if children.isEmpty then heading else heading ++ ":\n" ++ beneath)

/-- The printed form of a tree, where the name of a label is asked for at each node. -/
def printWith {m : Type → Type} [Monad m] (nameOf : Symbol Nat → m String) (tokens : Array Token)
    (tree : Tree) : m String :=
  tree.foldM fun node children => do
    let name ← nameOf node.label
    pure (printNode name tokens node children)

/-- The printed form of a tree. -/
def print (grammar : Grammar) (tokens : Array Token) (tree : Tree) : String :=
  Id.run (tree.printWith grammar.nameOf tokens)

/-- Names that are known take nothing to ask for, so printing is a plain fold. -/
theorem print_eq_fold (grammar : Grammar) (tokens : Array Token) (tree : Tree)
    : tree.print grammar tokens
      = tree.fold fun node => printNode (grammar.symbolName node.label) tokens node :=
  foldM_pure (m := Id) (fun node => printNode (grammar.symbolName node.label) tokens node) tree

end Tree

/-- A tree with its labels and texts resolved. -/
inductive NamedTree where
  | node (label : String) (start stop : Nat) (text : String) (children : List NamedTree)

namespace Tree

/-- The named form of a tree, where the name of a label is asked for at each node. -/
def namedWith {m : Type → Type} [Monad m] (nameOf : Symbol Nat → m String) (tokens : Array Token)
    (tree : Tree) : m NamedTree :=
  tree.foldM fun node children => do
    let name ← nameOf node.label
    pure (.node name node.start node.stop (node.text tokens) children)

/-- The named form of a tree. -/
def named (grammar : Grammar) (tokens : Array Token) (tree : Tree) : NamedTree :=
  Id.run (tree.namedWith grammar.nameOf tokens)

/-- Names that are known take nothing to ask for, so naming is a plain fold. -/
theorem named_eq_fold (grammar : Grammar) (tokens : Array Token) (tree : Tree)
    : tree.named grammar tokens
      = tree.fold fun node children =>
          .node (grammar.symbolName node.label) node.start node.stop (node.text tokens) children :=
  foldM_pure (m := Id)
    (fun node children =>
      NamedTree.node (grammar.symbolName node.label) node.start node.stop (node.text tokens)
        children)
    tree

end Tree

-----------------------------------------------------------------------------------------
-- Counting leaves
-----------------------------------------------------------------------------------------

namespace Tree

/-- One step of a walk: a node with the results of its children. -/
structure Visit where
  label : Symbol Nat
  start : Nat
  stop : Nat
  results : List Nat

/-- Records a node, then counts its leaves.  A leaf over a token of the barred category fails with
its position. -/
def countStep (tokens : Array Token) (barred : Option Tag) (tree : Tree) (results : List Nat)
    : ExceptT Nat (StateM (Array Visit)) Nat := do
  modify (·.push ⟨tree.label, tree.start, tree.stop, results⟩)
  if tree.isLeaf then
    if barred.isSome && tokens[tree.start]?.map Token.tag == barred then throw tree.start
    else pure 1
  else pure (results.foldr (· + ·) 0)

/-- The number of leaves, or the position of the first barred one, with the steps of the walk. -/
def countLeaves (tokens : Array Token) (barred : Option Tag) (tree : Tree)
    : Except Nat Nat × Array Visit :=
  Id.run ((tree.foldM (countStep tokens barred)).run.run #[])

end Tree

end Formulary
