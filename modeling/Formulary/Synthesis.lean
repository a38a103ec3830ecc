import Formulary.Expr.Value
import Formulary.Parse.Forest
import Formulary.Tree

/-! Synthesizing the value of a parse tree.
The leaves yield identifiers, constants and operators, and every inner node combines the results of
its children by the reduction of its label.  The children are flattened first, so a call sees its
name and its arguments no matter how the grammar splits up the argument list.
-/

namespace Formulary

-----------------------------------------------------------------------------------------
-- Fragments
-----------------------------------------------------------------------------------------

/-- A partial result. -/
inductive Fragment where
  /-- An identifier whose role the parent decides. -/
  | raw (name : String)
  | op (op : Operator)
  | value (value : Value)
  /-- Results that belong to the parent. -/
  | list (items : List Fragment)
  /-- What punctuation yields. -/
  | nil

namespace Fragment

mutual
/-- A fragment as its parent sees it: lists are taken apart and punctuation is gone. -/
def flatten : Fragment → List Fragment
  | list items => flattenAll items
  | nil => []
  | raw name => [raw name]
  | op o => [op o]
  | value v => [value v]

/-- The members of all fragments, in order. -/
def flattenAll : List Fragment → List Fragment
  | [] => []
  | fragment :: fragments => flatten fragment ++ flattenAll fragments
end

/-- Fragments side by side are flattened one by one, by induction on the list. -/
theorem flattenAll_eq_flatMap (fragments : List Fragment)
    : flattenAll fragments = fragments.flatMap flatten := by
  induction fragments with
  | nil => rfl
  | cons fragment fragments ih => simp [flattenAll, ih]

mutual
/-- The structural text of a fragment. -/
def inspect : Fragment → String
  | raw name => "Raw(" ++ Text.quote name ++ ")"
  | op o => "Op(" ++ o.inspect ++ ")"
  | value v => "Value(" ++ v.inspect ++ ")"
  | list items => "List([" ++ ", ".intercalate (inspectAll items) ++ "])"
  | nil => "Nil"

/-- The structural texts of fragments, in order. -/
def inspectAll : List Fragment → List String
  | [] => []
  | fragment :: fragments => fragment.inspect :: inspectAll fragments
end

/-- The value of a fragment that is one. -/
def value? : Fragment → Option Value
  | value v => some v
  | _ => none

/-- The name of a fragment that is an identifier or a variable. -/
def name? : Fragment → Option String
  | raw name => some name
  | value (.var v) => some v.name
  | _ => none

end Fragment

-----------------------------------------------------------------------------------------
-- Reductions
-----------------------------------------------------------------------------------------

/-- The kinds of reduction. -/
inductive Reduction where
  /-- Yields its single child. -/
  | start
  /-- Hands its children to the parent as they are. -/
  | structural
  /-- Yields a value, turning a bare identifier into a variable. -/
  | expression
  /-- Groups its child. -/
  | grouped
  /-- Applies a name to arguments. -/
  | call
  /-- Joins names with dots to one variable. -/
  | member
  /-- Applies a binary operator between two operands. -/
  | binaryOp
deriving DecidableEq, Repr

namespace Reduction

/-- Combines flattened children, unless their shape does not suit the reduction. -/
def apply : Reduction → List Fragment → Option Fragment
  | structural, children => some (.list children)
  | start, [child] => some child
  | expression, [.raw name] => some (.value (.named name))
  | expression, [.value v] => some (.value v)
  | grouped, [.value v] => some (.value (.parens v))
  | call, .raw name :: rest => (rest.mapM Fragment.value?).map fun args => .value (.call name args)
  | member, child :: children =>
      ((child :: children).mapM Fragment.name?).map fun names =>
        .value (.named (".".intercalate names))
  | binaryOp, [.value left, .op (.binary op), .value right] =>
      some (.value (.binary .enclosed op left right))
  | _, _ => none

end Reduction

/-- The reductions of the nonterminals of one grammar, by number. -/
structure Reductions where
  entries : List (Nat × Reduction)

namespace Reductions

def empty : Reductions :=
  ⟨[]⟩

/-- The reduction of a nonterminal; one without a reduction cannot be synthesized. -/
def get? (reductions : Reductions) (a : Nat) : Option Reduction :=
  reductions.entries.lookup a

/-- Gives a nonterminal a reduction in place of any earlier one. -/
def set (reductions : Reductions) (a : Nat) (reduction : Reduction) : Reductions :=
  ⟨(a, reduction) :: reductions.entries.filter (·.1 != a)⟩

/-- The reductions of named nonterminals, all of which must occur in the grammar. -/
def ofNames (grammar : Grammar) (entries : List (String × Reduction))
    : Except ParseError Reductions :=
  entries.foldlM (fun reductions (name, reduction) =>
      match grammar.nonterminal? name with
      | some a => .ok (reductions.set a reduction)
      | none => .error (.unknownNonterminal name))
    empty

/-- The reductions that go by the usual names of nonterminals. -/
def usual : List (String × Reduction) :=
  [
    ("start", .start),
    ("expr", .expression),
    ("term", .expression),
    ("factor", .expression),
    ("sum", .binaryOp),
    ("product", .binaryOp),
    ("parens", .grouped),
    ("call", .call),
    ("function", .call),
    ("member", .member),
    ("sum_head", .structural),
    ("product_head", .structural),
    ("parens_head", .structural),
    ("call_head", .structural),
    ("call_tail", .structural),
    ("function_head", .structural),
    ("function_tail", .structural),
    ("args", .structural),
    ("args_tail", .structural),
    ("list", .structural),
    ("list_tail", .structural),
    ("member_head", .structural)
  ]

/-- The usual reductions of those usual names that the grammar has. -/
def usualFor (grammar : Grammar) : Reductions :=
  ⟨usual.filterMap fun (name, reduction) =>
    (grammar.nonterminal? name).map fun a => (a, reduction)⟩

end Reductions

-----------------------------------------------------------------------------------------
-- Values of trees
-----------------------------------------------------------------------------------------

/-- Why a tree has no value. -/
inductive SynthesisError where
  | tagMismatch (leaf : Tag) (token : Token)
  | missingToken (leaf : Tag) (position : Nat)
  | innerTerminal (tag : Tag)
  | unknownOperator (text : String)
  | noReduction (label : String)
  | unexpectedShape (label : String) (children : List Fragment)
  | notAValue (label : String) (result : Fragment)

namespace SynthesisError

def diagnostic : SynthesisError → Diagnostic
  | tagMismatch leaf token =>
      ⟨.synthesis, .unhandledTag, none,
        some (leaf.label ++ " leaf over " ++ token.tag.label ++ " token " ++ Text.quote token.text)⟩
  | missingToken leaf position =>
      ⟨.synthesis, .unhandledTag, none,
        some (leaf.label ++ " leaf at " ++ toString position ++ " is outside the tokens")⟩
  | innerTerminal tag =>
      ⟨.synthesis, .unhandledTag, none, some (tag.label ++ " node with children")⟩
  | unknownOperator text =>
      ⟨.synthesis, .unknownOperator, none, some ("'" ++ text ++ "' is not a binary operator")⟩
  | noReduction label =>
      ⟨.synthesis, .unexpectedShape, none, some ("no reduction for " ++ label)⟩
  | unexpectedShape label children =>
      ⟨.synthesis, .unexpectedShape, none,
        some
          (label ++ " with children [" ++ ", ".intercalate (Fragment.inspectAll children) ++ "]")⟩
  | notAValue label result =>
      ⟨.synthesis, .unexpectedShape, none,
        some (label ++ " synthesized " ++ result.inspect ++ ", not a value")⟩

end SynthesisError

namespace Synthesis

/-- What a leaf over a token yields. -/
def leaf (tag : Tag) (token : Token) : Except SynthesisError Fragment :=
  if token.tag ≠ tag then .error (.tagMismatch tag token)
  else
    match tag with
    | .addOp | .mulOp =>
        match BinaryOp.ofSymbol? token.text with
        | some op => .ok (.op (.binary op))
        | none => .error (.unknownOperator token.text)
    | .name | .funcName => .ok (.raw token.text)
    | .number => .ok (.value (.constant token.text))
    | .dot | .comma | .leftParen | .rightParen => .ok .nil

section Names

variable {m : Type → Type} [Monad m] [MonadExceptOf SynthesisError m]
  (nameOf : Symbol Nat → m String) (reductions : Reductions) (tokens : Array Token)

/-- Combines the flattened results of the children of a nonterminal's node.  The name of the
nonterminal is asked for only to report a failure. -/
def innerWith (a : Nat) (children : List Fragment) : m Fragment :=
  match reductions.get? a with
  | none => do
      let name ← nameOf (.nonterminal a)
      throw (.noReduction name)
  | some reduction =>
      match reduction.apply children with
      | some result => pure result
      | none => do
          let name ← nameOf (.nonterminal a)
          throw (.unexpectedShape name children)

/-- Combines the results of a node's children. -/
def combineWith (tree : Tree) (results : List Fragment) : m Fragment :=
  match tree.label with
  | .terminal tag =>
      if tree.isLeaf then
        match tokens[tree.start]? with
        | some token => MonadExcept.ofExcept (leaf tag token)
        | none => throw (.missingToken tag tree.start)
      else throw (.innerTerminal tag)
  | .nonterminal a => innerWith nameOf reductions a (Fragment.flattenAll results)

/-- The value of a parse tree.  The name of its label is asked for only to report that what it
yields is no value. -/
def synthesizeWith (tree : Tree) : m Value := do
  match ← tree.foldM (combineWith nameOf reductions tokens) with
  | .value v => pure v
  | result => do
      let name ← nameOf tree.label
      throw (.notAValue name result)

end Names

variable (grammar : Grammar) (reductions : Reductions) (tokens : Array Token)

/-- Combines the flattened results of the children of a nonterminal's node. -/
def inner : Nat → List Fragment → Except SynthesisError Fragment :=
  innerWith grammar.nameOf reductions

/-- Combines the results of a node's children. -/
def combine : Tree → List Fragment → Except SynthesisError Fragment :=
  combineWith grammar.nameOf reductions tokens

/-- The fragment that a tree yields. -/
def fragment (tree : Tree) : Except SynthesisError Fragment :=
  tree.foldM (combine grammar reductions tokens)

/-- With names that take nothing to ask for, a node without a reduction and one whose children do
not suit it are the only failures. -/
theorem inner_eq (a : Nat) (children : List Fragment)
    : inner grammar reductions a children
      = match reductions.get? a with
        | none => .error (.noReduction (grammar.nonterminalName a))
        | some reduction =>
            match reduction.apply children with
            | some result => .ok result
            | none => .error (.unexpectedShape (grammar.nonterminalName a) children) :=
  rfl

/-- With names that take nothing to ask for, a leaf goes by the token under it and an inner node by
the reduction of its nonterminal. -/
theorem combine_eq (tree : Tree) (results : List Fragment)
    : combine grammar reductions tokens tree results
      = match tree.label with
        | .terminal tag =>
            if tree.isLeaf then
              match tokens[tree.start]? with
              | some token => leaf tag token
              | none => .error (.missingToken tag tree.start)
            else .error (.innerTerminal tag)
        | .nonterminal a => inner grammar reductions a (Fragment.flattenAll results) := by
  unfold combine combineWith
  cases tree.label with
  | nonterminal a => rfl
  | terminal tag =>
      cases tree.isLeaf with
      | false => rfl
      | true =>
          cases tokens[tree.start]? with
          | none => rfl
          | some token =>
              simp only [if_true]
              cases leaf tag token <;> rfl

end Synthesis

/-- The value of a parse tree. -/
def synthesize (grammar : Grammar) (reductions : Reductions) (tokens : Array Token)
    : Tree → Except SynthesisError Value :=
  Synthesis.synthesizeWith grammar.nameOf reductions tokens

/-- What comes of a tree is its fragment when that is a value, and otherwise a failure. -/
theorem synthesize_eq (grammar : Grammar) (reductions : Reductions) (tokens : Array Token)
    (tree : Tree)
    : synthesize grammar reductions tokens tree
      = (Synthesis.fragment grammar reductions tokens tree).bind fun
        | .value value => .ok value
        | result => .error (.notAValue (grammar.symbolName tree.label) result) :=
  rfl

end Formulary
