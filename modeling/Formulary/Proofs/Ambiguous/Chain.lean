import Formulary.Proofs.Ambiguous.Bracketing
import Formulary.Proofs.Ambiguous.Rules
import Formulary.Proofs.Parse.Forest

/-! The trees of a chain of numbers in the grammar without precedence.
Of all alternatives for an expression only numbers and sums have trees over such a chain, and a
sum can be split only behind an operator.  So the trees over the chain are its bracketings, in
the order of these.
-/

namespace Formulary

namespace Parse

variable {grammar : Grammar} {tags : Array Tag}

-----------------------------------------------------------------------------------------
-- Symbols without trees
-----------------------------------------------------------------------------------------

/-- Holds of symbols that have no tree over any span. -/
def Barren (grammar : Grammar) (tags : Array Tag) (label : Symbol Nat) : Prop :=
  ∀ start stop, enumeration grammar tags start stop label = []

/-- A category that no token has is barren, as a leaf needs a token of its own. -/
theorem barren_terminal {tag : Tag} (h : tag ∉ tags)
    : Barren grammar tags (.terminal tag) := by
  intro start stop
  rw [enumeration_terminal, if_neg fun hleaf => h (Array.mem_of_getElem? hleaf.2)]

/-- A body has no tree if one of its symbols has none. -/
theorem extensions_eq_nil {body : Body Nat}
    (h : ∃ symbol ∈ body.symbols, Barren grammar tags symbol) (start stop : Nat)
    (label : Symbol Nat)
    : extensions grammar tags start stop label body = [] := by
  obtain ⟨symbol, hsymbol, hbarren⟩ := h
  cases body with
  | unit child =>
      rw [List.mem_singleton.1 hsymbol] at hbarren
      rw [extensions, hbarren, List.map_nil]
  | pair left right =>
      rw [extensions, List.flatMap_eq_nil_iff]
      intro middle _
      rcases List.mem_pair.1 hsymbol with rfl | rfl
      · rw [hbarren, List.flatMap_nil]
      · simp [hbarren middle stop]

/-- A nonterminal is barren if each of its alternatives has a barren symbol. -/
theorem barren_nonterminal {a : Nat}
    (h
      : ∀ body ∈ grammar.alternatives a,
          ∃ symbol ∈ body.symbols, Barren grammar tags symbol)
    : Barren grammar tags (.nonterminal a) := by
  intro start stop
  rw [enumeration_nonterminal, List.flatMap_eq_nil_iff]
  exact fun body hbody => extensions_eq_nil (h body hbody) start stop _

-----------------------------------------------------------------------------------------
-- The splits of a span
-----------------------------------------------------------------------------------------

/-- A span that is longer by one token has one more place to split it, at its end. -/
theorem inside_succ {start stop : Nat} (h : start < stop)
    : inside start (stop + 1) = inside start stop ++ [stop] := by
  have hcount : stop + 1 - (start + 1) = stop - (start + 1) + 1 := by omega
  have hlast : start + 1 + 1 * (stop - (start + 1)) = stop := by omega
  rw [inside, hcount, List.range'_concat, hlast, inside]

/-- A span of at most one token cannot be split. -/
theorem inside_eq_nil {start stop : Nat} (h : stop ≤ start + 1)
    : inside start stop = [] := by
  rw [inside, Nat.sub_eq_zero_of_le h]
  rfl

/-- The places inside an odd span that begins at an even place come in pairs. -/
theorem inside_even (start size : Nat)
    : inside (2 * start) (2 * (start + size) + 1)
      = (List.range size).flatMap fun place =>
          [2 * (start + place) + 1, 2 * (start + place + 1)] := by
  induction size with
  | zero => exact inside_eq_nil (by omega)
  | succ size ih =>
      rw [show 2 * (start + (size + 1)) + 1 = 2 * (start + size) + 1 + 1 + 1 by omega,
        inside_succ (by omega), inside_succ (by omega), ih, List.range_succ, List.flatMap_append]
      simp
      omega

/-- A category on the right can only be the last token of the span.  At any earlier split the part
on the right has more tokens than one. -/
theorem extensions_pair_terminal (start stop : Nat) (label left : Symbol Nat) (tag : Tag)
    : extensions grammar tags start (stop + 1) label (.pair left (.terminal tag))
      = if start < stop ∧ tags[stop]? = some tag then
          (enumeration grammar tags start stop left).map fun leftTree =>
            .node label start (stop + 1) [leftTree, .leaf (.terminal tag) stop]
        else [] := by
  by_cases hspan : start < stop
  · have hearlier
        : ∀ middle ∈ inside start stop,
            ((enumeration grammar tags start middle left).flatMap fun leftTree =>
              (enumeration grammar tags middle (stop + 1) (.terminal tag)).map fun rightTree =>
                Tree.node label start (stop + 1) [leftTree, rightTree])
            = [] := by
      intro middle hmiddle
      have hlt := (mem_inside.1 hmiddle).2
      simp [enumeration_terminal, show stop ≠ middle by omega]
    rw [extensions, inside_succ hspan, List.flatMap_append, List.flatMap_eq_nil_iff.2 hearlier,
      List.nil_append, List.flatMap_singleton, enumeration_terminal]
    by_cases htag : tags[stop]? = some tag
    · simp [hspan, htag, List.map_eq_flatMap]
    · simp [htag]
  · rw [extensions, inside_eq_nil (by omega), if_neg fun h => hspan h.1, List.flatMap_nil]

end Parse

namespace Ambiguous

open Parse Nonterminal

-----------------------------------------------------------------------------------------
-- Chains
-----------------------------------------------------------------------------------------

/-- The categories of numbers with an operator between any two neighbours. -/
def chain : Nat → List Tag
  | 0 => [.number]
  | count + 1 => .number :: .addOp :: chain count

/-- A chain has one operand more than operators. -/
theorem length_chain (count : Nat)
    : (chain count).length = 2 * count + 1 := by
  induction count with
  | zero => rfl
  | succ count ih =>
      rw [chain, List.length_cons, List.length_cons, ih]
      omega

/-- A chain consists of numbers and additive operators. -/
theorem mem_chain {count : Nat} {tag : Tag} (h : tag ∈ chain count)
    : tag = .number ∨ tag = .addOp := by
  induction count with
  | zero => exact .inl (List.mem_singleton.1 h)
  | succ count ih =>
      rcases List.mem_cons.1 h with rfl | hrest
      · exact .inl rfl
      · rcases List.mem_cons.1 hrest with rfl | hrest
        · exact .inr rfl
        · exact ih hrest

/-- Numbers stand at the even places of a chain. -/
theorem chain_even {count place : Nat} (h : place ≤ count)
    : (chain count)[2 * place]? = some .number := by
  induction count generalizing place with
  | zero =>
      rw [Nat.le_zero.1 h]
      rfl
  | succ count ih =>
      cases place with
      | zero => rfl
      | succ place => exact ih (Nat.le_of_succ_le_succ h)

/-- Operators stand at the odd places of a chain. -/
theorem chain_odd {count place : Nat} (h : place < count)
    : (chain count)[2 * place + 1]? = some .addOp := by
  induction count generalizing place with
  | zero => exact (Nat.not_lt_zero _ h).elim
  | succ count ih =>
      cases place with
      | zero => rfl
      | succ place => exact ih (Nat.lt_of_succ_lt_succ h)

-----------------------------------------------------------------------------------------
-- Trees of bracketings
-----------------------------------------------------------------------------------------

/-- The symbol of a nonterminal. -/
def symbol (a : Nonterminal) : Symbol Nat :=
  .nonterminal (number a)

/-- The tree of an expression that is bracketed so and begins at a position. -/
def tree (start : Nat) : Bracketing → Tree
  | .operand => .node (symbol expr) start (start + 1) [.leaf (.terminal .number) start]
  | .operation left right =>
      let middle := start + left.width
      let stop := middle + 1 + right.width
      .node (symbol expr) start stop
        [
          .node (symbol sum) start stop
            [
              .node (symbol sumHead) start (middle + 1)
                [tree start left, .leaf (.terminal .addOp) middle],
              tree (middle + 1) right
            ]
        ]

/-- In a chain that begins at an even place, the places follow from the operators alone. -/
theorem tree_operation (start : Nat) (left right : Bracketing)
    : tree (2 * start) (.operation left right)
      = .node (symbol expr) (2 * start) (2 * (start + (left.operators + 1 + right.operators)) + 1)
          [
            .node (symbol sum) (2 * start)
              (2 * (start + (left.operators + 1 + right.operators)) + 1)
              [
                .node (symbol sumHead) (2 * start) (2 * (start + left.operators + 1))
                  [
                    tree (2 * start) left,
                    .leaf (.terminal .addOp) (2 * (start + left.operators) + 1)
                  ],
                tree (2 * (start + left.operators + 1)) right
              ]
          ] := by
  have hmiddle : 2 * start + left.width = 2 * (start + left.operators) + 1 := by
    rw [Bracketing.width]
    omega
  have hstop
      : 2 * (start + left.operators) + 1 + 1 + right.width
        = 2 * (start + (left.operators + 1 + right.operators)) + 1 := by
    rw [Bracketing.width]
    omega
  simp only [tree, hmiddle, hstop]
  rfl

/-- The tree of a whole chain that is bracketed so. -/
def wholeTree (bracketing : Bracketing) : Tree :=
  .node (symbol start) 0 bracketing.width [tree 0 bracketing]

-----------------------------------------------------------------------------------------
-- The trees over a chain
-----------------------------------------------------------------------------------------

/-- The trees of a nonterminal are those of its alternatives in turn. -/
theorem enumeration_symbol (tags : Array Tag) (start stop : Nat) (a : Nonterminal)
    : enumeration grammar tags start stop (symbol a)
      = (grammar.alternatives (number a)).flatMap
          (extensions grammar tags start stop (symbol a)) :=
  enumeration_nonterminal start stop (number a)

/-- A nonterminal with a single rule is barren if a symbol of that rule is. -/
theorem barren_of_only {tags : Array Tag} {a : Nonterminal} {body : Body Nonterminal}
    (honly : (rules.filter fun rule => rule.head = a) = [⟨a, body⟩])
    (hbody : ∃ symbol ∈ (body.map number).symbols, Barren grammar tags symbol)
    : Barren grammar tags (symbol a) := by
  refine barren_nonterminal ?_
  rw [alternatives_number, honly]
  exact List.forall_mem_singleton.2 hbody

/-- The head of a sum ends with an operator. -/
theorem enumeration_sumHead (tags : Array Tag) (start stop : Nat)
    : enumeration grammar tags start (stop + 1) (symbol sumHead)
      = if start < stop ∧ tags[stop]? = some .addOp then
          (enumeration grammar tags start stop (symbol expr)).map fun left =>
            .node (symbol sumHead) start (stop + 1) [left, .leaf (.terminal .addOp) stop]
        else [] := by
  have halternatives
      : grammar.alternatives (number sumHead) = [.pair (symbol expr) (.terminal .addOp)] :=
    alternatives_number sumHead
  rw [enumeration_symbol, halternatives, List.flatMap_singleton,
    extensions_pair_terminal]

section Chain

variable {count : Nat} {tags : Array Tag} (htags : tags.toList = chain count)

include htags

/-- The operands stand at the even positions. -/
theorem number_at {place : Nat} (h : place ≤ count)
    : tags[2 * place]? = some .number := by
  rw [← Array.getElem?_toList, htags, chain_even h]

/-- The operators stand at the odd positions. -/
theorem addOp_at {place : Nat} (h : place < count)
    : tags[2 * place + 1]? = some .addOp := by
  rw [← Array.getElem?_toList, htags, chain_odd h]

/-- All categories but those of operands and operators are barren over a chain. -/
theorem barren_tag {tag : Tag} (hnumber : tag ≠ .number) (haddOp : tag ≠ .addOp)
    : Barren grammar tags (.terminal tag) := by
  refine barren_terminal fun hmem => ?_
  rw [← Array.mem_toList_iff, htags] at hmem
  exact (mem_chain hmem).elim hnumber haddOp

/-- Products, parentheses and function calls need tokens of other categories. -/
theorem barren_product
    : Barren grammar tags (symbol product) := by
  have hmulOp : Barren grammar tags (.terminal .mulOp) := barren_tag htags nofun nofun
  have hhead : Barren grammar tags (symbol productHead) :=
    barren_of_only rfl ⟨_, List.mem_cons_of_mem _ List.mem_cons_self, hmulOp⟩
  exact barren_of_only rfl ⟨_, List.mem_cons_self, hhead⟩

/-- There are no parentheses in a chain, for want of a closing one. -/
theorem barren_parens
    : Barren grammar tags (symbol parens) := by
  have hclose : Barren grammar tags (.terminal .rightParen) := barren_tag htags nofun nofun
  exact barren_of_only rfl ⟨_, List.mem_cons_of_mem _ List.mem_cons_self, hclose⟩

/-- There are no calls in a chain, for want of a name to call. -/
theorem barren_function
    : Barren grammar tags (symbol function) := by
  have hname : Barren grammar tags (.terminal .funcName) := barren_tag htags nofun nofun
  have hhead : Barren grammar tags (symbol functionHead) :=
    barren_of_only rfl ⟨_, List.mem_cons_self, hname⟩
  exact barren_of_only rfl ⟨_, List.mem_cons_self, hhead⟩

/-- An expression over a part of a chain is a number or a sum.  The other right sides need a
category that no chain has, so no tree comes from them. -/
theorem enumeration_expr (start stop : Nat)
    : enumeration grammar tags start stop (symbol expr)
      = extensions grammar tags start stop (symbol expr) (.unit (.terminal .number))
        ++ extensions grammar tags start stop (symbol expr) (.unit (symbol sum)) := by
  have hname : Barren grammar tags (.terminal .name) := barren_tag htags nofun nofun
  have halternatives
      : grammar.alternatives (number expr)
        = [
            .unit (.terminal .number), .unit (symbol parens), .unit (symbol product),
            .unit (symbol sum), .unit (symbol function), .unit (.terminal .name)
          ] :=
    alternatives_number expr
  have hbarren (child : Symbol Nat) (h : Barren grammar tags child)
      : extensions grammar tags start stop (symbol expr) (.unit child) = [] :=
    extensions_eq_nil ⟨child, List.mem_cons_self, h⟩ start stop _
  rw [enumeration_symbol, halternatives]
  simp [hbarren _ (barren_parens htags), hbarren _ (barren_product htags),
    hbarren _ (barren_function htags), hbarren _ hname]

/-- A sum over a part of a chain is split behind one of the operators.  The head of a sum ends with
an operator, so a split behind a number leaves it without a tree. -/
theorem enumeration_sum (start size : Nat) (h : start + size ≤ count)
    : enumeration grammar tags (2 * start) (2 * (start + size) + 1) (symbol sum)
      = (List.range size).flatMap fun root =>
          (enumeration grammar tags (2 * start) (2 * (start + root) + 1) (symbol expr)).flatMap
            fun left =>
              (enumeration grammar tags (2 * (start + root + 1)) (2 * (start + size) + 1)
                  (symbol expr)).map
                fun right =>
                  .node (symbol sum) (2 * start) (2 * (start + size) + 1)
                    [
                      .node (symbol sumHead) (2 * start) (2 * (start + root + 1))
                        [left, .leaf (.terminal .addOp) (2 * (start + root) + 1)],
                      right
                    ] := by
  have halternatives
      : grammar.alternatives (number sum) = [.pair (symbol sumHead) (symbol expr)] :=
    alternatives_number sum
  rw [enumeration_symbol, halternatives, List.flatMap_singleton, extensions,
    inside_even, List.flatMap_assoc]
  refine List.flatMap_congr fun root hroot => ?_
  have hroot := List.mem_range.1 hroot
  have hnumber
      : enumeration grammar tags (2 * start) (2 * (start + root) + 1) (symbol sumHead) = [] := by
    rw [enumeration_sumHead, if_neg]
    rintro ⟨-, haddOp⟩
    rw [number_at htags (by omega)] at haddOp
    cases haddOp
  have hbehind : 2 * (start + root + 1) = 2 * (start + root) + 1 + 1 := rfl
  rw [List.flatMap_cons, List.flatMap_singleton, hnumber, List.flatMap_nil,
    List.nil_append, hbehind, enumeration_sumHead,
    if_pos ⟨by omega, addOp_at htags (by omega)⟩, List.flatMap_map]

/-- The trees of an expression over a part of a chain are those of the bracketings of this part,
in their order, by induction on its operators. -/
theorem enumeration_expr_chain (start size : Nat) (h : start + size ≤ count)
    : enumeration grammar tags (2 * start) (2 * (start + size) + 1) (symbol expr)
      = (Bracketing.all size).map (tree (2 * start)) := by
  induction size using Nat.strong_induction_on generalizing start with
  | h size ih =>
      rw [enumeration_expr htags, extensions, extensions, enumeration_sum htags start size h,
        enumeration_terminal]
      cases size with
      | zero =>
          have hnumber := number_at htags (by omega : start ≤ count)
          simp [hnumber, Bracketing.all, tree]
      | succ size =>
          rw [if_neg (by omega), List.map_nil, List.nil_append, Bracketing.all_succ,
            List.map_flatMap, List.map_flatMap]
          refine List.flatMap_congr fun root hroot => ?_
          have hroot := List.mem_range.1 hroot
          have hleft := ih root hroot start (by omega)
          have hright := ih (size - root) (by omega) (start + root + 1) (by omega)
          have hstop : start + root + 1 + (size - root) = start + (size + 1) := by omega
          rw [hstop] at hright
          rw [hleft, hright, List.map_flatMap, List.map_flatMap, List.flatMap_map]
          refine List.flatMap_congr fun left hleft => ?_
          rw [List.map_map, List.map_map, List.map_map]
          refine List.map_congr_left fun right hright => ?_
          have hsize : root + 1 + right.operators = size + 1 := by
            rw [Bracketing.mem_all_iff.1 hright]
            omega
          simp only [Function.comp_apply, tree_operation, Bracketing.mem_all_iff.1 hleft, hsize]

end Chain

/-- The whole chain has one tree for each bracketing, in their order, since the start label only
wraps an expression. -/
theorem enumeration_start {count : Nat} {tags : Array Tag} (htags : tags.toList = chain count)
    : enumeration grammar tags 0 (2 * count + 1) (symbol start)
      = (Bracketing.all count).map wholeTree := by
  have halternatives : grammar.alternatives (number start) = [.unit (symbol expr)] :=
    alternatives_number start
  have hexpr := enumeration_expr_chain htags 0 count (by omega)
  rw [Nat.mul_zero, Nat.zero_add] at hexpr
  rw [enumeration_symbol, halternatives, List.flatMap_singleton, extensions, hexpr, List.map_map]
  refine List.map_congr_left fun bracketing hbracketing => ?_
  rw [Function.comp_apply, wholeTree, Bracketing.width, Bracketing.mem_all_iff.1 hbracketing]

/-- Over a chain of numbers there is a tree for each bracketing, as many as the Catalan number says,
and they come in the order of the bracketings.  A chain can only be split behind an operator, and
every split leaves two shorter chains. -/
theorem all_chain_bracketings (count : Nat) (tokens : Array Token)
    (htokens : (tokens.map Token.tag).toList = chain count)
    : ∃ label, ∃ bracketings : List Bracketing,
        Grammar.compile text = .ok grammar
        ∧ grammar.lookup? "start" = some label
        ∧ Parse.all grammar tokens 0 tokens.size label = .ok (bracketings.map wholeTree)
        ∧ bracketings.length = catalan count
        ∧ (bracketings.map wholeTree).Nodup
        ∧ (∀ bracketing : Bracketing,
            bracketing ∈ bracketings ↔ bracketing.operators = count)
        ∧ bracketings.Pairwise Bracketing.Before := by
  have hsize : tokens.size = 2 * count + 1 := by
    have hlength := congrArg List.length htokens
    rwa [Array.length_toList, Array.size_map, length_chain] at hlength
  have htrees := enumeration_start htokens
  have hrules : grammar.rules.Nodup := by decide
  have hnodup : ((Bracketing.all count).map wholeTree).Nodup := by
    rw [← htrees]
    exact nodup_enumeration hrules 0 (2 * count + 1) (symbol start)
  have hne : (Bracketing.all count).map wholeTree ≠ [] :=
    List.map_eq_nil_iff.not.2 (Bracketing.all_ne_nil count)
  refine ⟨symbol start, Bracketing.all count, compile_text, lookup?_start, ?_,
    Bracketing.length_all count, hnodup, fun _ => Bracketing.mem_all_iff,
    Bracketing.pairwise_all count⟩
  rw [hsize, all_eq_ok (Nat.zero_le _) hsize.ge (by rwa [htrees]), htrees]

/-- With two operators the sum on the right comes first. -/
theorem all_chain_bracketings_three
    : let tokens :=
        #[
          Token.mk .number "1", .mk .addOp "+", .mk .number "2", .mk .addOp "-", .mk .number "3"
        ]
      let right : Bracketing := .operation .operand (.operation .operand .operand)
      let left : Bracketing := .operation (.operation .operand .operand) .operand
      (tokens.map Token.tag).toList = chain 2
      ∧ ∃ label,
          grammar.lookup? "start" = some label
          ∧ Parse.all grammar tokens 0 5 label = .ok [wholeTree right, wholeTree left] := by
  intro tokens right left
  have htokens : (tokens.map Token.tag).toList = chain 2 := by simp [tokens, chain]
  obtain ⟨label, bracketings, -, hlabel, hall, hlength, -, hmem, hpairwise⟩ :=
    all_chain_bracketings 2 tokens htokens
  refine ⟨htokens, label, hlabel, ?_⟩
  obtain ⟨first, second, rfl⟩ := List.length_eq_two.1 (hlength.trans catalan_two)
  have hright : right = first ∨ right = second := List.mem_pair.1 ((hmem right).2 rfl)
  have hleft : left = first ∨ left = second := List.mem_pair.1 ((hmem left).2 rfl)
  have hbefore : right.Before left := .root (by decide)
  rcases hright with rfl | rfl
  · rcases hleft with hsame | rfl
    · exact (hbefore.ne hsame.symm).elim
    · exact hall
  · rcases hleft with rfl | hsame
    · exact (hbefore.asymm (by simpa using hpairwise)).elim
    · exact (hbefore.ne hsame.symm).elim

end Ambiguous

end Formulary
