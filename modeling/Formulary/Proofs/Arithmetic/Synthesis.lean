import Formulary.Language
import Formulary.Proofs.Arithmetic.Phrase
import Formulary.Proofs.Synthesis.Failure

/-! What the built-in language synthesizes from a derivation tree.
Every nonterminal of the built-in grammar stands for a run of tokens of a certain form and yields
a fragment that goes with it.  The reductions keep this from the leaves up, so the fragment of an
expression is the value of a phrase.
-/

namespace Formulary.Arithmetic

open Nonterminal Synthesis

/-- The reduction of each nonterminal. -/
def reduction : Nonterminal → Reduction
  | start => .start
  | expr | term | factor => .expression
  | sum | product => .binaryOp
  | parens => .grouped
  | call => .call
  | member => .member
  | sumHead | productHead | parensHead | callHead | callTail | args | argsTail | memberHead =>
      .structural

/-- Every nonterminal of the built-in grammar has a reduction, checked for each. -/
theorem get?_number (a : Nonterminal)
    : Language.arithmetic.reductions.get? a.number = some (reduction a) := by
  cases a <;> decide +kernel

-----------------------------------------------------------------------------------------
-- The form of each symbol's tokens, with its fragment
-----------------------------------------------------------------------------------------

/-- A phrase of a kind, as its value. -/
def IsValue (kind : Kind) (tokens : List Token) (fragment : Fragment) : Prop :=
  ∃ value, fragment = .value value ∧ Phrase kind tokens value

/-- An operator of a level, as what its leaf yields. -/
def IsOperator (level : Level) (tokens : List Token) (fragment : Fragment) : Prop :=
  ∃ text op,
    tokens = [⟨level.operator, text⟩]
    ∧ fragment = .op (.binary op)
    ∧ BinaryOp.ofSymbol? text = some op

/-- A chain with an operator behind it, as the two results that they leave to the parent. -/
def IsChainHead (level : Level) (tokens : List Token) (fragment : Fragment) : Prop :=
  ∃ operand value text op,
    tokens = operand ++ [⟨level.operator, text⟩]
    ∧ fragment = .list [.value value, .op (.binary op)]
    ∧ BinaryOp.ofSymbol? text = some op
    ∧ Phrase (.chain level) operand value

/-- Arguments with commas between them, as the list of their values. -/
def IsArguments (args : List (List Token × Value)) (tokens : List Token) (fragment : Fragment)
    : Prop :=
  tokens = commaSeparated (args.map Prod.fst)
  ∧ fragment = .list (args.map fun arg => .value arg.2)
  ∧ ∀ arg ∈ args, Phrase (.chain .sum) arg.1 arg.2

/-- The tokens that a category stands for, with what its leaf yields. -/
def LeafDenotes (tag : Tag) (tokens : List Token) (fragment : Fragment) : Prop :=
  match tag with
  | .number => ∃ text, tokens = [⟨.number, text⟩] ∧ fragment = .value (.constant text)
  | .name => ∃ text, tokens = [⟨.name, text⟩] ∧ fragment = .raw text
  | .funcName => ∃ text, tokens = [⟨.funcName, text⟩] ∧ fragment = .raw text
  | .addOp => IsOperator .sum tokens fragment
  | .mulOp => IsOperator .product tokens fragment
  | .dot => tokens = [⟨.dot, "."⟩] ∧ fragment = .nil
  | .comma => tokens = [⟨.comma, ","⟩] ∧ fragment = .nil
  | .leftParen => tokens = [⟨.leftParen, "("⟩] ∧ fragment = .nil
  | .rightParen => tokens = [⟨.rightParen, ")"⟩] ∧ fragment = .nil

/-- The tokens that a nonterminal stands for, with what its node yields. -/
def NodeDenotes (a : Nonterminal) (tokens : List Token) (fragment : Fragment) : Prop :=
  match a with
  | start | expr | sum => IsValue (.chain .sum) tokens fragment
  | term | product => IsValue (.chain .product) tokens fragment
  | factor | parens | call => IsValue .factor tokens fragment
  | sumHead => IsChainHead .sum tokens fragment
  | productHead => IsChainHead .product tokens fragment
  | parensHead =>
      ∃ inner value,
        tokens = ⟨.leftParen, "("⟩ :: inner
        ∧ fragment = .list [.value value]
        ∧ Phrase (.chain .sum) inner value
  | callHead =>
      ∃ name, tokens = [⟨.funcName, name⟩, ⟨.leftParen, "("⟩] ∧ fragment = .list [.raw name]
  | callTail =>
      ∃ args inner, tokens = inner ++ [⟨.rightParen, ")"⟩] ∧ IsArguments args inner fragment
  | args => ∃ args, args ≠ [] ∧ IsArguments args tokens fragment
  | argsTail =>
      ∃ args inner, tokens = ⟨.comma, ","⟩ :: inner ∧ args ≠ [] ∧ IsArguments args inner fragment
  | member => ∃ path, fragment = .value (.named path) ∧ DottedName tokens path
  | memberHead =>
      ∃ inner path item,
        tokens = inner ++ [⟨.dot, "."⟩]
        ∧ fragment = .list [item]
        ∧ (item = .raw path ∨ item = .value (.named path))
        ∧ DottedName inner path

/-- The tokens that a symbol stands for, with what its tree yields. -/
def Denotes : Symbol Nonterminal → List Token → Fragment → Prop
  | .terminal tag => LeafDenotes tag
  | .nonterminal a => NodeDenotes a

/-- The leaf over a token that is spelled as its category asks.  Only a sign that is no operator
could be misread, and no such sign is well spelled. -/
theorem exists_leaf_denotes {token : Token} (h : token.Spelled)
    : ∃ fragment, leaf token.tag token = .ok fragment ∧ LeafDenotes token.tag [token] fragment := by
  obtain ⟨tag, text⟩ := token
  cases tag with
  | number => exact ⟨_, rfl, text, rfl, rfl⟩
  | name => exact ⟨_, rfl, text, rfl, rfl⟩
  | funcName => exact ⟨_, rfl, text, rfl, rfl⟩
  | addOp =>
      rcases h with rfl | rfl
      · exact ⟨_, rfl, "+", .add, rfl, rfl, rfl⟩
      · exact ⟨_, rfl, "-", .sub, rfl, rfl, rfl⟩
  | mulOp =>
      rcases h with rfl | rfl
      · exact ⟨_, rfl, "*", .mul, rfl, rfl, rfl⟩
      · exact ⟨_, rfl, "/", .div, rfl, rfl, rfl⟩
  | dot =>
      cases h
      exact ⟨_, rfl, rfl, rfl⟩
  | comma =>
      cases h
      exact ⟨_, rfl, rfl, rfl⟩
  | leftParen =>
      cases h
      exact ⟨_, rfl, rfl, rfl⟩
  | rightParen =>
      cases h
      exact ⟨_, rfl, rfl, rfl⟩

-----------------------------------------------------------------------------------------
-- Each rule keeps the forms
-----------------------------------------------------------------------------------------

/-- Arguments that are values are not taken apart, by induction on the list. -/
@[simp]
theorem flattenAll_map_value (args : List (List Token × Value))
    : Fragment.flattenAll (args.map fun arg => .value arg.2)
      = args.map fun arg => .value arg.2 := by
  induction args with
  | nil => rfl
  | cons arg args ih => simp [Fragment.flattenAll, Fragment.flatten, ih]

/-- Fragments made of values are all values, by induction on the list. -/
@[simp]
theorem mapM_value?_map (args : List (List Token × Value))
    : (args.map fun arg => Fragment.value arg.2).mapM Fragment.value?
      = some (args.map Prod.snd) := by
  induction args with
  | nil => rfl
  | cons arg args ih => simp [Fragment.value?, ih]

/-- An operand in front of an operator waits for the operand behind it. -/
theorem IsValue.exists_chainHead {level : Level} {first second : List Token}
    {left right : Fragment} (hleft : IsValue (.chain level) first left)
    (hright : IsOperator level second right)
    : ∃ fragment,
        Reduction.structural.apply (left.flatten ++ right.flatten) = some fragment
        ∧ IsChainHead level (first ++ second) fragment := by
  obtain ⟨value, rfl, hvalue⟩ := hleft
  obtain ⟨text, op, rfl, rfl, hop⟩ := hright
  exact ⟨_, rfl, first, value, text, op, rfl, rfl, hop, hvalue⟩

/-- With the operand behind its operator a chain is complete. -/
theorem IsChainHead.exists_value {level : Level} {first second : List Token}
    {left right : Fragment} (hleft : IsChainHead level first left)
    (hright : IsValue level.operand second right)
    : ∃ fragment,
        Reduction.binaryOp.apply (left.flatten ++ right.flatten) = some fragment
        ∧ IsValue (.chain level) (first ++ second) fragment := by
  obtain ⟨operand, leftValue, text, op, rfl, rfl, hop, hoperand⟩ := hleft
  obtain ⟨rightValue, rfl, hvalue⟩ := hright
  have hjoin := Phrase.join hop hoperand hvalue
  exact ⟨_, rfl, _, rfl, by simpa using hjoin⟩

/-- A value that is handed on can also be a longer kind of phrase. -/
theorem IsValue.exists_expression {kind longer : Kind} {tokens : List Token} {below : Fragment}
    (h : IsValue kind tokens below)
    (hlonger : ∀ value, Phrase kind tokens value → Phrase longer tokens value)
    : ∃ fragment,
        Reduction.expression.apply below.flatten = some fragment
        ∧ IsValue longer tokens fragment := by
  obtain ⟨value, rfl, hvalue⟩ := h
  exact ⟨_, rfl, value, rfl, hlonger value hvalue⟩

/-- A node with one child yields what its nonterminal asks.  There are twelve such rules, and in
most of them the fragment is passed on. -/
theorem exists_unit_denotes {a : Nonterminal} {child : Symbol Nonterminal} {tokens : List Token}
    {below : Fragment} (hrule : ⟨a, .unit child⟩ ∈ rules) (h : Denotes child tokens below)
    : ∃ fragment,
        (reduction a).apply below.flatten = some fragment ∧ NodeDenotes a tokens fragment := by
  simp only [rules, List.mem_cons, Rule.mk.injEq, Body.unit.injEq, reduceCtorEq, and_false,
    false_or, or_false, List.not_mem_nil] at hrule
  -- The cases come in the order of the rules.
  rcases hrule with
    ⟨rfl, rfl⟩ | ⟨rfl, rfl⟩ | ⟨rfl, rfl⟩ | ⟨rfl, rfl⟩ | ⟨rfl, rfl⟩ | ⟨rfl, rfl⟩ | ⟨rfl, rfl⟩
    | ⟨rfl, rfl⟩ | ⟨rfl, rfl⟩ | ⟨rfl, rfl⟩ | ⟨rfl, rfl⟩ | ⟨rfl, rfl⟩
  -- start, expr, term
  · obtain ⟨value, rfl, hvalue⟩ := h
    exact ⟨_, rfl, value, rfl, hvalue⟩
  · exact IsValue.exists_expression h fun _ hvalue => hvalue
  · exact IsValue.exists_expression h fun _ hvalue => .operand hvalue
  · exact IsValue.exists_expression h fun _ hvalue => hvalue
  · exact IsValue.exists_expression h fun _ hvalue => .operand hvalue
  -- factor
  · obtain ⟨text, rfl, rfl⟩ := h
    exact ⟨_, rfl, .constant text, rfl, .constant text⟩
  · obtain ⟨text, rfl, rfl⟩ := h
    exact ⟨_, rfl, .named text, rfl, .named (.name text)⟩
  · obtain ⟨path, rfl, hpath⟩ := h
    exact ⟨_, rfl, .named path, rfl, .named hpath⟩
  · exact IsValue.exists_expression h fun _ hvalue => hvalue
  · exact IsValue.exists_expression h fun _ hvalue => hvalue
  -- call_tail, args
  · obtain ⟨rfl, rfl⟩ := h
    exact ⟨_, rfl, [], [], rfl, rfl, rfl, List.forall_mem_nil _⟩
  · obtain ⟨value, rfl, hvalue⟩ := h
    refine ⟨_, rfl, [(tokens, value)], by simp, ?_, rfl, by simpa using hvalue⟩
    simp [commaSeparated]

/-- A node with two children yields what its nonterminal asks.  There are fourteen such rules, in
each of which the fragments of both children have the form that the reduction looks for. -/
theorem exists_pair_denotes {a : Nonterminal} {left right : Symbol Nonterminal}
    {first second : List Token} {leftBelow rightBelow : Fragment}
    (hrule : ⟨a, .pair left right⟩ ∈ rules)
    (hleft : Denotes left first leftBelow) (hright : Denotes right second rightBelow)
    : ∃ fragment,
        (reduction a).apply (leftBelow.flatten ++ rightBelow.flatten) = some fragment
        ∧ NodeDenotes a (first ++ second) fragment := by
  simp only [rules, List.mem_cons, Rule.mk.injEq, Body.pair.injEq, reduceCtorEq, and_false,
    false_or, or_false, List.not_mem_nil] at hrule
  rcases hrule with
    ⟨rfl, rfl, rfl⟩ | ⟨rfl, rfl, rfl⟩ | ⟨rfl, rfl, rfl⟩ | ⟨rfl, rfl, rfl⟩ | ⟨rfl, rfl, rfl⟩
    | ⟨rfl, rfl, rfl⟩ | ⟨rfl, rfl, rfl⟩ | ⟨rfl, rfl, rfl⟩ | ⟨rfl, rfl, rfl⟩ | ⟨rfl, rfl, rfl⟩
    | ⟨rfl, rfl, rfl⟩ | ⟨rfl, rfl, rfl⟩ | ⟨rfl, rfl, rfl⟩ | ⟨rfl, rfl, rfl⟩
  -- sum, sum_head, product, product_head
  · exact IsChainHead.exists_value hleft hright
  · exact IsValue.exists_chainHead hleft hright
  · exact IsChainHead.exists_value hleft hright
  · exact IsValue.exists_chainHead hleft hright
  -- parens, parens_head
  · obtain ⟨inner, value, rfl, rfl, hvalue⟩ := hleft
    obtain ⟨rfl, rfl⟩ := hright
    exact ⟨_, rfl, _, rfl, .group hvalue⟩
  · obtain ⟨rfl, rfl⟩ := hleft
    obtain ⟨value, rfl, hvalue⟩ := hright
    exact ⟨_, rfl, second, value, rfl, rfl, hvalue⟩
  -- call, call_head, call_tail
  · obtain ⟨name, rfl, rfl⟩ := hleft
    obtain ⟨args, inner, rfl, rfl, rfl, hargs⟩ := hright
    refine ⟨.value (.call name (args.map Prod.snd)), ?_, _, rfl, .call name hargs⟩
    simp [reduction, Reduction.apply, Fragment.flatten, Fragment.flattenAll, -List.mapM_map]
  · obtain ⟨name, rfl, rfl⟩ := hleft
    obtain ⟨rfl, rfl⟩ := hright
    exact ⟨_, rfl, name, rfl, rfl⟩
  · obtain ⟨args, _, rfl, rfl, hargs⟩ := hleft
    obtain ⟨rfl, rfl⟩ := hright
    refine ⟨_, rfl, args, _, rfl, rfl, ?_, hargs⟩
    simp [Fragment.flatten]
  -- args, args_tail
  · obtain ⟨value, rfl, hvalue⟩ := hleft
    obtain ⟨args, inner, rfl, hne, rfl, rfl, hargs⟩ := hright
    refine ⟨_, rfl, (first, value) :: args, by simp, ?_, by simp [Fragment.flatten], ?_⟩
    · rw [List.map_cons, commaSeparated_cons (by simpa using hne)]
    · exact List.forall_mem_cons.2 ⟨hvalue, hargs⟩
  · obtain ⟨rfl, rfl⟩ := hleft
    obtain ⟨args, hne, rfl, rfl, hargs⟩ := hright
    refine ⟨_, rfl, args, _, rfl, hne, rfl, ?_, hargs⟩
    simp [Fragment.flatten]
  -- member, member_head
  · obtain ⟨inner, path, item, rfl, rfl, hitem, hpath⟩ := hleft
    obtain ⟨text, rfl, rfl⟩ := hright
    refine ⟨.value (.named (path ++ "." ++ text)), ?_, _, rfl, by simpa using hpath.member text⟩
    rcases hitem with rfl | rfl
    · rfl
    · rfl
  · obtain ⟨text, rfl, rfl⟩ := hleft
    obtain ⟨rfl, rfl⟩ := hright
    exact ⟨_, rfl, _, text, .raw text, rfl, rfl, .inl rfl, .name text⟩
  · obtain ⟨path, rfl, hpath⟩ := hleft
    obtain ⟨rfl, rfl⟩ := hright
    exact ⟨_, rfl, _, path, .value (.named path), rfl, rfl, .inr rfl, hpath⟩

-----------------------------------------------------------------------------------------
-- Whole derivation trees
-----------------------------------------------------------------------------------------

section Trees

variable {tokens : Array Token}

/-- The fragment of a tree in the built-in language. -/
abbrev fragmentOf (tokens : Array Token) (tree : Tree) : Except SynthesisError Fragment :=
  Synthesis.fragment .arithmetic Language.arithmetic.reductions tokens tree

/-- A node with one child yields what its reduction makes of the flattened fragment below. -/
theorem fragmentOf_unit {a : Nonterminal} {start stop : Nat} {child : Tree}
    {below fragment : Fragment} (hchild : fragmentOf tokens child = .ok below)
    (h : (reduction a).apply below.flatten = some fragment)
    : fragmentOf tokens (.node (.nonterminal a.number) start stop [child]) = .ok fragment := by
  simp only [fragmentOf] at hchild ⊢
  rw [fragment_unit, hchild]
  simp only [Except.bind, Synthesis.inner_eq, get?_number, h]

/-- A node with two children yields what its reduction makes of both flattened fragments in turn. -/
theorem fragmentOf_pair {a : Nonterminal} {start stop : Nat} {left right : Tree}
    {leftBelow rightBelow fragment : Fragment}
    (hleft : fragmentOf tokens left = .ok leftBelow)
    (hright : fragmentOf tokens right = .ok rightBelow)
    (h : (reduction a).apply (leftBelow.flatten ++ rightBelow.flatten) = some fragment)
    : fragmentOf tokens (.node (.nonterminal a.number) start stop [left, right])
      = .ok fragment := by
  simp only [fragmentOf] at hleft hright ⊢
  rw [fragment_pair, hleft, hright]
  simp only [Except.bind, Synthesis.inner_eq, get?_number, h]

/-- A span of one token holds that token. -/
theorem toList_extract_succ {start : Nat} {token : Token} (htoken : tokens[start]? = some token)
    : (tokens.extract start (start + 1)).toList = [token] := by
  obtain ⟨hlt, heq⟩ := Array.getElem?_eq_some_iff.1 htoken
  simp [Array.extract_succ_right (Nat.lt_succ_self start) hlt, heq]

/-- Spans that meet hold the tokens of the whole span in turn. -/
theorem toList_extract_append {start middle stop : Nat} (hstart : start < middle)
    (hstop : middle < stop)
    : (tokens.extract start middle).toList ++ (tokens.extract middle stop).toList
      = (tokens.extract start stop).toList := by
  rw [← Array.toList_append, Array.extract_append_extract, Nat.min_eq_left hstart.le,
    Nat.max_eq_right hstop.le]

/-- Every derivation tree over well spelled tokens yields what its symbol asks.  By induction on the
derivation, rule by rule. -/
theorem exists_fragmentOf_denotes (hspelled : ∀ token ∈ tokens, token.Spelled)
    (symbol : Symbol Nonterminal) {start stop : Nat} {tree : Tree}
    (h : Parse.Derivation .arithmetic (tokens.map Token.tag) (symbol.map number) start stop tree)
    : ∃ fragment,
        fragmentOf tokens tree = .ok fragment
        ∧ Denotes symbol (tokens.extract start stop).toList fragment := by
  refine
    derivation_induction
      (motive := fun symbol start stop tree => ∃ fragment,
        fragmentOf tokens tree = .ok fragment
        ∧ Denotes symbol (tokens.extract start stop).toList fragment)
      ?_ ?_ ?_ h
  · intro tag start htag
    rw [Array.getElem?_map, Option.map_eq_some_iff] at htag
    obtain ⟨token, htoken, rfl⟩ := htag
    have hmem := Array.mem_of_getElem? htoken
    obtain ⟨fragment, hleaf, hdenotes⟩ := exists_leaf_denotes (hspelled token hmem)
    refine ⟨fragment, (fragment_leaf htoken).trans hleaf, ?_⟩
    rw [toList_extract_succ htoken]
    exact hdenotes
  · intro a child start stop tree hrule h
    obtain ⟨below, hbelow, hchild⟩ := h
    obtain ⟨fragment, happly, hdenotes⟩ := exists_unit_denotes hrule hchild
    exact ⟨fragment, fragmentOf_unit hbelow happly, hdenotes⟩
  · intro a left right start middle stop leftTree rightTree hrule hstart hstop hleft hright
    obtain ⟨leftBelow, hleftBelow, hleft⟩ := hleft
    obtain ⟨rightBelow, hrightBelow, hright⟩ := hright
    obtain ⟨fragment, happly, hdenotes⟩ := exists_pair_denotes hrule hleft hright
    refine ⟨fragment, fragmentOf_pair hleftBelow hrightBelow happly, ?_⟩
    rw [← toList_extract_append hstart hstop]
    exact hdenotes

/-- A derivation tree of a whole expression has a value, and the tokens are a phrase with it. -/
theorem exists_synthesize_eq_ok (hspelled : ∀ token ∈ tokens, token.Spelled) {tree : Tree}
    (h : Parse.Derivation .arithmetic (tokens.map Token.tag) (.nonterminal start.number) 0
      tokens.size tree)
    : ∃ value,
        synthesize .arithmetic Language.arithmetic.reductions tokens tree = .ok value
        ∧ Phrase (.chain .sum) tokens.toList value := by
  obtain ⟨_, hfragment, value, rfl, hvalue⟩ :=
    exists_fragmentOf_denotes hspelled (.nonterminal start) h
  refine ⟨value, ?_, by simpa using hvalue⟩
  simp only [fragmentOf] at hfragment
  rw [synthesize_eq, hfragment]
  rfl

end Trees

end Formulary.Arithmetic
