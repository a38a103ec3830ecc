import Formulary.Proofs.Arithmetic.Nesting
import Formulary.Proofs.Parse.Forest

/-! The built-in grammar is unambiguous.
Two bodies of one nonterminal never derive the same tokens, because they begin differently or one
shows a category on its surface that the other never has there.  A body with two symbols derives
tokens with a single split, because the end of the left part or the beginning of the right part
cannot lie inside the other part.  Both are checked rule by rule.
-/

namespace Formulary.Arithmetic

open Formulary.Parse Nonterminal

variable {tags : Array Tag} {start middle stop : Nat}

/-- The trees of the symbols of a body side by side over a span. -/
inductive Children (tags : Array Tag) (start stop : Nat) : Body Nonterminal → List Tree → Prop where
  | unit {child : Symbol Nonterminal} {tree : Tree}
    (below : Derivation .arithmetic tags (child.map number) start stop tree)
    : Children tags start stop (.unit child) [tree]
  | pair {left right : Symbol Nonterminal} {middle : Nat} {leftTree rightTree : Tree}
    (hstart : start < middle) (hstop : middle < stop)
    (hleft : Derivation .arithmetic tags (left.map number) start middle leftTree)
    (hright : Derivation .arithmetic tags (right.map number) middle stop rightTree)
    : Children tags start stop (.pair left right) [leftTree, rightTree]

/-- A derivation tree of a nonterminal is a node over the children of one of its bodies.  Rules of
the compiled grammar are the written ones, with their nonterminals numbered. -/
theorem exists_children {a : Nonterminal} {tree : Tree}
    (h : Derivation .arithmetic tags (.nonterminal (number a)) start stop tree)
    : ∃ body trees,
        ⟨a, body⟩ ∈ rules
        ∧ Children tags start stop body trees
        ∧ tree = .node (.nonterminal (number a)) start stop trees := by
  cases h with
  | unit hrule below =>
      obtain ⟨written, hwritten, heq⟩ := exists_rule_of_mem hrule
      cases written with
      | unit child =>
          cases heq
          exact ⟨_, _, hwritten, .unit below, rfl⟩
      | pair _ _ => cases heq
  | pair hrule hstart hstop hleft hright =>
      obtain ⟨written, hwritten, heq⟩ := exists_rule_of_mem hrule
      cases written with
      | unit _ => cases heq
      | pair left right =>
          cases heq
          exact ⟨_, _, hwritten, .pair hstart hstop hleft hright, rfl⟩

/-- The span of some children has the profile of their body, put together from those of its
symbols. -/
theorem Children.holds_bodyProfile {body : Body Nonterminal} {trees : List Tree}
    (h : Children tags start stop body trees) (hrises : LeftRises body)
    : (bodyProfile body).Holds tags start stop := by
  cases h with
  | unit below => exact holds_profile below
  | pair hstart hstop hleft hright =>
      exact (holds_profile hleft).append (holds_profile hright) hstart.le hstop.le hrises

-----------------------------------------------------------------------------------------
-- One body
-----------------------------------------------------------------------------------------

/-- The categories that the tokens of a body can begin with. -/
def firstTags (body : Body Nonterminal) : TagSet :=
  Grammar.arithmetic.firstTags (body.first.map number)

/-- What stands in front of the single token that a body ends with. -/
def front? : Body Nonterminal → Option (Symbol Nonterminal)
  | .pair left (.terminal _) => some left
  | _ => none

/-- Two bodies that never derive the same tokens: they begin differently, or they clash on the
surface, or they do so in front of a last token. -/
def Apart (first second : Body Nonterminal) : Prop :=
  (∀ tag ∈ Tag.all, ¬ ((firstTags first).contains tag ∧ (firstTags second).contains tag))
  ∨ (bodyProfile first).Clashes (bodyProfile second)
  ∨ ∃ left ∈ front? first, ∃ other ∈ front? second, (profile left).Clashes (profile other)

instance (first second : Body Nonterminal) : Decidable (Apart first second) :=
  inferInstanceAs (Decidable (_ ∨ _ ∨ _))

/-- The bodies of one nonterminal are apart. -/
theorem apart_of_rules
    : ∀ rule ∈ rules, ∀ other ∈ rules,
        rule.head = other.head
        → rule.body = other.body ∨ Apart rule.body other.body ∨ Apart other.body rule.body := by
  decide +kernel

/-- The span of some children begins with a category that their body can begin with. -/
theorem Children.exists_first {body : Body Nonterminal} {trees : List Tree}
    (h : Children tags start stop body trees)
    : ∃ tag, tags[start]? = some tag ∧ (firstTags body).contains tag = true := by
  cases h with
  | unit below => exact holds_eq_true_iff.1 below.holds_first
  | pair _ _ hleft _ => exact holds_eq_true_iff.1 hleft.holds_first

/-- Without the last token the span of a pair that ends in a terminal is that of the left symbol, so
it has its profile. -/
theorem Children.holds_front {body : Body Nonterminal} {trees : List Tree}
    (h : Children tags start stop body trees) {left : Symbol Nonterminal}
    (hleft : left ∈ front? body)
    : (profile left).Holds tags start (stop - 1) := by
  cases h with
  | unit _ => cases hleft
  | @pair left right middle _ _ hstart hstop hleftTree hrightTree =>
      cases right with
      | nonterminal _ => cases hleft
      | terminal tag =>
          cases hleft
          cases hrightTree
          exact holds_profile hleftTree

/-- Bodies that are apart have no children over the same span: they would begin alike, and no two
profiles of one span clash. -/
theorem Apart.not_children {first second : Body Nonterminal} {trees others : List Tree}
    (h : Apart first second) (hfirst : Children tags start stop first trees)
    (hsecond : Children tags start stop second others) (hrises : LeftRises first)
    (hothers : LeftRises second)
    : False := by
  rcases h with hbegin | hclash | ⟨left, hleft, other, hother, hclash⟩
  · obtain ⟨tag, htag, hcontains⟩ := hfirst.exists_first
    obtain ⟨found, hfound, hother⟩ := hsecond.exists_first
    cases htag.symm.trans hfound
    exact hbegin tag tag.mem_all ⟨hcontains, hother⟩
  · exact hclash.not_holds (hfirst.holds_bodyProfile hrises) (hsecond.holds_bodyProfile hothers)
  · exact hclash.not_holds (hfirst.holds_front hleft) (hsecond.holds_front hother)

/-- A nonterminal uses one of its bodies at most over a span, as the others are apart from it. -/
theorem body_unique {a : Nonterminal} {first second : Body Nonterminal} {trees others : List Tree}
    (hrule : ⟨a, first⟩ ∈ rules) (hother : ⟨a, second⟩ ∈ rules)
    (hfirst : Children tags start stop first trees)
    (hsecond : Children tags start stop second others)
    : first = second := by
  have hrises := leftRises_of_rule _ hrule
  have hothers := leftRises_of_rule _ hother
  rcases apart_of_rules _ hrule _ hother rfl with heq | hapart | hapart
  · exact heq
  · exact (hapart.not_children hfirst hsecond hrises hothers).elim
  · exact (hapart.not_children hsecond hfirst hothers hrises).elim

-----------------------------------------------------------------------------------------
-- One split
-----------------------------------------------------------------------------------------

/-- A symbol that stands for one token. -/
def IsTerminal : Symbol Nonterminal → Prop
  | .terminal _ => True
  | .nonterminal _ => False

instance : DecidablePred IsTerminal
  | .terminal _ => inferInstanceAs (Decidable True)
  | .nonterminal _ => inferInstanceAs (Decidable False)

/-- The two parts of a body meet at one position only: one part is a single token, or the last token
of the left part cannot be inside the right part, or the first token of the right part cannot be
inside the left part. -/
def Anchored : Body Nonterminal → Prop
  | .unit _ => True
  | .pair left right =>
      IsTerminal left
      ∨ IsTerminal right
      ∨ (∀ tag ∈ Tag.all,
          (Grammar.arithmetic.lastTags (left.map number)).contains tag
          → 0 < slope tag ∨ slope tag = 0 ∧ tag ∉ (profile right).surface)
      ∨ (profile left).rise = 0
        ∧ ∀ tag ∈ Tag.all,
          (Grammar.arithmetic.firstTags (right.map number)).contains tag
          → tag ∉ (profile left).surface

instance : DecidablePred Anchored
  | .unit _ => inferInstanceAs (Decidable True)
  | .pair _ _ => inferInstanceAs (Decidable (_ ∨ _ ∨ _ ∨ _ ∧ _))

/-- Every rule is anchored, checked rule by rule. -/
theorem anchored_of_rule
    : ∀ rule ∈ rules, Anchored rule.body := by
  decide +kernel

/-- A terminal covers a single token. -/
theorem stop_eq_of_isTerminal {symbol : Symbol Nonterminal} (hterminal : IsTerminal symbol)
    {tree : Tree} (h : Derivation .arithmetic tags (symbol.map number) start stop tree)
    : stop = start + 1 := by
  cases symbol with
  | nonterminal _ => exact hterminal.elim
  | terminal tag =>
      cases h
      rfl

/-- No split comes before another one.  Otherwise the tokens between the two splits would stand at
the end of one left part and at the beginning of another right part.  There they lie below the
surface or show a category that the part never has. -/
theorem not_lt_of_anchored {left right : Symbol Nonterminal} {later : Nat}
    {leftTree rightTree laterLeft laterRight : Tree} (h : Anchored (.pair left right))
    (hleft : Derivation .arithmetic tags (left.map number) start middle leftTree)
    (hright : Derivation .arithmetic tags (right.map number) middle stop rightTree)
    (hlaterLeft : Derivation .arithmetic tags (left.map number) start later laterLeft)
    (hlaterRight : Derivation .arithmetic tags (right.map number) later stop laterRight)
    : ¬ middle < later := by
  intro hlt
  have hbefore := (holds_profile hleft).rise
  have hafter := (holds_profile hlaterLeft).rise
  have hstart := hleft.start_lt_stop
  have hstop := hlaterRight.start_lt_stop
  rcases h with hterminal | hterminal | hlast | ⟨hlevel, hfirst⟩
  · have := stop_eq_of_isTerminal hterminal hleft
    have := stop_eq_of_isTerminal hterminal hlaterLeft
    omega
  · have := stop_eq_of_isTerminal hterminal hright
    omega
  · -- The last token of the longer left part lies in the longer right part.
    obtain ⟨tag, htag, hcontains⟩ := holds_eq_true_iff.1 hlaterLeft.holds_last
    have hdepth := depth_succ htag
    rw [Nat.sub_add_cancel (by omega)] at hdepth
    have hfloor : depth tags middle ≤ depth tags (later - 1) :=
      (holds_profile hright).floor (by omega) (by omega)
    rcases hlast tag tag.mem_all hcontains with hopen | ⟨hflat, hhidden⟩
    · omega
    · have hsurface := (holds_profile hright).surface (by omega) (by omega) htag (by omega)
      exact hhidden hsurface
  · -- The first token of the longer right part lies in the longer left part.
    obtain ⟨tag, htag, hcontains⟩ := holds_eq_true_iff.1 hright.holds_first
    have hsurface := (holds_profile hlaterLeft).surface hstart.le hlt htag (by omega)
    exact hfirst tag tag.mem_all hcontains hsurface

-----------------------------------------------------------------------------------------
-- One tree
-----------------------------------------------------------------------------------------

/-- A derivation tree is the only one of its symbol over its span, by induction on the tree.  Two
trees of one symbol come from the same right side and the same split, so the trees below are of the
same symbols over the same spans. -/
theorem derivation_eq {symbol : Symbol Nonterminal} {tree : Tree}
    (h : Derivation .arithmetic tags (symbol.map number) start stop tree) {other : Tree}
    (hother : Derivation .arithmetic tags (symbol.map number) start stop other)
    : other = tree := by
  have hboth
      : Derivation .arithmetic tags (symbol.map number) start stop tree
        ∧ ∀ other,
          Derivation .arithmetic tags (symbol.map number) start stop other → other = tree := by
    refine
      derivation_induction
        (motive := fun symbol start stop tree =>
          Derivation .arithmetic tags (symbol.map number) start stop tree
          ∧ ∀ other,
            Derivation .arithmetic tags (symbol.map number) start stop other → other = tree)
        ?_ ?_ ?_ h
    · intro tag start htag
      refine ⟨.leaf htag, fun other hother => ?_⟩
      cases hother
      rfl
    · intro a child start stop tree hrule ⟨hbelow, ih⟩
      refine ⟨.unit (mem_arithmetic_rules hrule) hbelow, fun other hother => ?_⟩
      obtain ⟨body, trees, hbody, hchildren, rfl⟩ := exists_children hother
      cases body_unique hrule hbody (.unit hbelow) hchildren
      cases hchildren with
      | unit hfound => rw [ih _ hfound]
    · intro a left right start middle stop leftTree rightTree hrule hstart hstop
        ⟨hleft, ihLeft⟩ ⟨hright, ihRight⟩
      refine
        ⟨.pair (mem_arithmetic_rules hrule) hstart hstop hleft hright, fun other hother => ?_⟩
      obtain ⟨body, trees, hbody, hchildren, rfl⟩ := exists_children hother
      cases body_unique hrule hbody (.pair hstart hstop hleft hright) hchildren
      cases hchildren with
      | @pair _ _ found _ _ _ _ hfoundLeft hfoundRight =>
          have hanchored := anchored_of_rule _ hrule
          have hle := not_lt_of_anchored hanchored hleft hright hfoundLeft hfoundRight
          have hge := not_lt_of_anchored hanchored hfoundLeft hfoundRight hleft hright
          obtain rfl : found = middle := by omega
          rw [ihLeft _ hfoundLeft, ihRight _ hfoundRight]
  exact hboth.2 other hother

/-- There is one tree at most, since no tree is listed twice and any two are equal. -/
theorem length_enumeration_le_one (tags : Array Tag) (start stop : Nat) (label : Symbol Nat)
    : (enumeration .arithmetic tags start stop label).length ≤ 1 := by
  have hrules : Grammar.arithmetic.rules.Nodup := by decide
  have hnodup : (enumeration .arithmetic tags start stop label).Nodup :=
    nodup_enumeration hrules start stop label
  have hsame : ∀ tree ∈ enumeration .arithmetic tags start stop label,
      ∀ other ∈ enumeration .arithmetic tags start stop label, other = tree := by
    intro tree htree other hother
    rw [mem_enumeration_iff] at htree hother
    obtain ⟨symbol, rfl⟩ := exists_symbol_of_derivation htree
    exact derivation_eq htree hother
  generalize enumeration .arithmetic tags start stop label = trees at hnodup hsame ⊢
  rcases trees with _ | ⟨tree, _ | ⟨other, others⟩⟩
  · exact Nat.zero_le 1
  · exact le_rfl
  · have heq := hsame tree (by simp) other (by simp)
    simp [heq] at hnodup

/-- The built-in grammar is unambiguous at every label: whatever the tokens, the forest of a span
delivers at most one tree.  No two right sides of a label derive the same tokens, and no right side
derives them by two splits, which is checked rule by rule. -/
theorem forest_delivers_at_most_one (tokens : Array Token) (start stop : Nat) (label : Symbol Nat)
    (hspan : start ≤ stop) (htokens : stop ≤ tokens.size)
    : ∃ found,
        forest .arithmetic tokens start stop label = .ok found
        ∧ (∃ trees, found.Delivers trees)
        ∧ ∀ trees, found.Delivers trees → trees.length ≤ 1 := by
  obtain ⟨found, hfound, htrees⟩ := exists_forest .arithmetic tokens hspan htokens label
  refine ⟨found, hfound, ⟨_, found.delivers_toList⟩, fun trees hdelivers => ?_⟩
  rw [hdelivers.eq_toList, htrees]
  exact length_enumeration_le_one _ start stop label

/-- A chain of differences with a call in it, read as a sum. -/
theorem forest_delivers_at_most_one_difference
    : let tokens : Array Token :=
        #[
          ⟨.name, "a"⟩, ⟨.addOp, "-"⟩, ⟨.funcName, "f"⟩, ⟨.leftParen, "("⟩, ⟨.name, "b"⟩,
          ⟨.comma, ","⟩, ⟨.name, "c"⟩, ⟨.rightParen, ")"⟩, ⟨.addOp, "-"⟩, ⟨.name, "d"⟩
        ]
      0 ≤ 10
      ∧ 10 ≤ tokens.size
      ∧ ∃ found,
        forest .arithmetic tokens 0 10 (.nonterminal (number sum)) = .ok found
        ∧ (∃ trees, found.Delivers trees)
        ∧ ∀ trees, found.Delivers trees → trees.length ≤ 1 := by
  intro tokens
  exact
    ⟨by decide, by decide,
      forest_delivers_at_most_one tokens 0 10 (.nonterminal (number sum)) (by decide) (by decide)⟩

end Formulary.Arithmetic
