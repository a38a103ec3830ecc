import Formulary.Proofs.Parse.Forest
import Formulary.Proofs.Parse.Size

/-! The search for trees, step by step.
The search asks for the tokens it looks at and goes into itself for parts of its span, without any
regard for how deep this goes.  It still never asks for a token outside its span, and it never goes
deeper than the nonterminals allow for each token of the span: a unit rule leads to a lower level,
a rule with two symbols to shorter spans.
-/

namespace Formulary.Parse

-----------------------------------------------------------------------------------------
-- The steps of the search
-----------------------------------------------------------------------------------------

/-- What stops a search: it goes deeper than it may, or it asks for a token that is not there. -/
inductive SearchFault where
  | tooDeep
  | noToken (position : Nat)
deriving DecidableEq, Repr

section Steps

variable {m : Type → Type} [Monad m] [MonadExceptOf SearchFault m]

/-- How a search learns what the rules say of the symbols that it comes to. -/
structure Lookups (m : Type → Type) where
  firstTags : Symbol Nat → m TagSet
  lastTags : Symbol Nat → m TagSet
  alternatives : Nat → m (List (Body Nat))

/-- A search for the trees of symbols over spans. -/
def Search (m : Type → Type) :=
  Nat → Nat → Symbol Nat → m (List Tree)

def readTag (tags : Array Tag) (position : Nat) : m Tag :=
  match tags[position]? with
  | some tag => pure tag
  | none => throw (.noToken position)

variable (lookups : Lookups m) (tags : Array Tag) (below : Search m)

/-- The trees of two symbols that meet at a position.  The tokens at both sides of it are looked
at first, and the left trees are not searched for if there is no right one. -/
def searchSplit (start stop : Nat) (label left right : Symbol Nat) (middle : Nat)
    : m (List Tree) := do
  let ending ← readTag tags (middle - 1)
  let ends ← lookups.lastTags left
  if ends.contains ending then
    let opening ← readTag tags middle
    let starts ← lookups.firstTags right
    if starts.contains opening then
      let rights ← below middle stop right
      if rights.isEmpty then pure []
      else
        let lefts ← below start middle left
        pure (lefts.flatMap fun leftTree =>
          rights.map fun rightTree => .node label start stop [leftTree, rightTree])
    else pure []
  else pure []

/-- The trees of a body over a span. -/
def searchBody (start stop : Nat) (label : Symbol Nat) : Body Nat → m (List Tree)
  | .unit child => do
      let trees ← below start stop child
      pure (trees.map fun tree => .node label start stop [tree])
  | .pair left right => do
      let found ← (inside start stop).mapM
        (searchSplit lookups tags below start stop label left right)
      pure found.flatten

/-- The trees of a symbol over a span.  The tokens at both ends of it are looked at first. -/
def searchSpan : Search m :=
  fun start stop label =>
    if start < stop then
      match label with
      | .terminal tag =>
          if stop - start = 1 then do
            let found ← readTag tags start
            pure (if found = tag then [.leaf label start] else [])
          else pure []
      | .nonterminal a => do
          let opening ← readTag tags start
          let starts ← lookups.firstTags label
          if starts.contains opening then
            let closing ← readTag tags (stop - 1)
            let ends ← lookups.lastTags label
            if ends.contains closing then
              let bodies ← lookups.alternatives a
              let found ← bodies.mapM (searchBody lookups tags below start stop label)
              pure found.flatten
            else pure []
          else pure []
    else pure []

/-- The search that may go so deep and no deeper. -/
def searchWith (lookups : Lookups m) (tags : Array Tag) : Nat → Search m
  | 0 => fun _ _ _ => throw .tooDeep
  | depth + 1 => searchSpan lookups tags (searchWith lookups tags depth)

end Steps

/-- What a grammar says of its symbols takes nothing to learn. -/
def lookupsOf {m : Type → Type} [Pure m] (grammar : Grammar) : Lookups m where
  firstTags symbol := pure (grammar.firstTags symbol)
  lastTags symbol := pure (grammar.lastTags symbol)
  alternatives a := pure (grammar.alternatives a)

section Answers

variable {m : Type → Type} [Pure m] (grammar : Grammar)

/-- Lookups in the grammar itself cannot fail. -/
@[simp]
theorem firstTags_lookupsOf (symbol : Symbol Nat)
    : (lookupsOf grammar : Lookups m).firstTags symbol = pure (grammar.firstTags symbol) :=
  rfl

/-- Lookups in the grammar itself cannot fail. -/
@[simp]
theorem lastTags_lookupsOf (symbol : Symbol Nat)
    : (lookupsOf grammar : Lookups m).lastTags symbol = pure (grammar.lastTags symbol) :=
  rfl

/-- Lookups in the grammar itself cannot fail. -/
@[simp]
theorem alternatives_lookupsOf (a : Nat)
    : (lookupsOf grammar : Lookups m).alternatives a = pure (grammar.alternatives a) :=
  rfl

end Answers

/-- The search by a grammar. -/
def search (grammar : Grammar) (tags : Array Tag) (depth : Nat) : Search (Except SearchFault) :=
  searchWith (lookupsOf grammar) tags depth

-----------------------------------------------------------------------------------------
-- One step, given that the steps below it succeed
-----------------------------------------------------------------------------------------

variable {grammar : Grammar} {tags : Array Tag} {below : Search (Except SearchFault)}
  {start stop : Nat}

/-- The search over a span succeeds, with all trees of the symbol in their order. -/
def Search.Finds (grammar : Grammar) (tags : Array Tag) (below : Search (Except SearchFault))
    (start stop : Nat) (label : Symbol Nat) : Prop :=
  below start stop label = .ok (trees grammar tags start stop label).toList

/-- A token inside the row is read without fault. -/
theorem readTag_eq {position : Nat} (h : position < tags.size)
    : (readTag tags position : Except SearchFault Tag) = .ok tags[position] := by
  rw [readTag, Array.getElem?_eq_getElem h]
  rfl

/-- A set admits a position inside the row exactly if it has the category of the token there. -/
theorem holds_eq {position : Nat} (h : position < tags.size) (set : TagSet)
    : holds tags set position = set.contains tags[position] := by
  rw [holds, Array.getElem?_eq_getElem h]

/-- A step that succeeds on all items gives the list of its results, by induction on the items. -/
theorem mapM_eq_ok {f : α → Except ε β} {g : α → β} {items : List α}
    (h : ∀ a ∈ items, f a = .ok (g a))
    : items.mapM f = .ok (items.map g) := by
  induction items with
  | nil => rfl
  | cons a items ih =>
      obtain ⟨ha, hitems⟩ := List.forall_mem_cons.1 h
      rw [List.mapM_cons, ha, ih hitems]
      rfl

/-- A split inside the span asks for tokens of the span only.  They are the two next to the split,
and if one of them does not fit, the parts are not searched. -/
theorem searchSplit_eq (label : Symbol Nat) {left right : Symbol Nat} {middle : Nat}
    (hstart : start < middle) (hstop : middle < stop) (htags : stop ≤ tags.size)
    (hleft : below.Finds grammar tags start middle left)
    (hright : below.Finds grammar tags middle stop right)
    : searchSplit (lookupsOf grammar) tags below start stop label left right middle
      = .ok
        (if holds tags (grammar.lastTags left) (middle - 1)
            && holds tags (grammar.firstTags right) middle then
          joined grammar tags start stop label left right middle
        else []) := by
  have hending : middle - 1 < tags.size := by omega
  have hopening : middle < tags.size := by omega
  rw [searchSplit, readTag_eq hending, readTag_eq hopening, hleft, hright, holds_eq hending,
    holds_eq hopening]
  simp only [firstTags_lookupsOf, lastTags_lookupsOf, bind, Except.bind, pure, Except.pure]
  cases (grammar.lastTags left).contains tags[middle - 1] with
  | false => simp
  | true =>
      cases (grammar.firstTags right).contains tags[middle] with
      | false => simp
      | true =>
          cases hrights : (trees grammar tags middle stop right).toList with
          | nil => simp [joined, hrights]
          | cons tree rights => simp [joined, hrights]

/-- The search of a right side gives its trees without fault if the searches below do: a unit rule
looks at the same span, and a pair only at the two parts of a split strictly inside of it, so all
tokens read are inside the row. -/
theorem searchBody_eq {label : Symbol Nat} {body : Body Nat} (htags : stop ≤ tags.size)
    (hunit : ∀ child, body = .unit child → below.Finds grammar tags start stop child)
    (hleft
      : ∀ middle symbol,
          start < middle → middle < stop → below.Finds grammar tags start middle symbol)
    (hright
      : ∀ middle symbol,
          start < middle → middle < stop → below.Finds grammar tags middle stop symbol)
    : searchBody (lookupsOf grammar) tags below start stop label body
      = .ok (expansions grammar tags start stop label body) := by
  cases body with
  | unit child =>
      rw [searchBody, hunit child rfl]
      rfl
  | pair left right =>
      have hsplits := mapM_eq_ok fun middle hmiddle =>
        have ⟨hstart, hstop⟩ := mem_inside.1 hmiddle
        searchSplit_eq label hstart hstop htags (hleft middle left hstart hstop)
          (hright middle right hstart hstop)
      rw [searchBody, hsplits, expansions, splits, ← inside, flatMap_filter, List.flatMap_def]
      rfl

/-- A terminal is found over any span inside the row, as only its first token is read. -/
theorem searchSpan_terminal (htags : stop ≤ tags.size) (tag : Tag)
    : (searchSpan (lookupsOf grammar) tags below).Finds grammar tags start stop
        (.terminal tag) := by
  rw [Search.Finds, searchSpan, toList_trees_terminal]
  by_cases hspan : start < stop
  · rw [if_pos hspan]
    have hstart : start < tags.size := by omega
    by_cases hone : stop = start + 1
    · subst hone
      rw [if_pos (by omega), readTag_eq hstart, Array.getElem?_eq_getElem hstart]
      by_cases htag : tags[start] = tag
      · simp [htag, bind, Except.bind, pure, Except.pure]
      · simp [htag, bind, Except.bind, pure, Except.pure]
    · rw [if_neg (by omega), if_neg fun h => hone h.1]
      rfl
  · rw [if_neg hspan, if_neg (by omega)]
    rfl

/-- A nonterminal is found over a span inside the row if its right sides are: the tokens at both
ends of the span, which decide whether a right side is tried, are inside the row. -/
theorem searchSpan_nonterminal {a : Nat} (htags : stop ≤ tags.size)
    (hbodies
      : ∀ body,
          ⟨a, body⟩ ∈ grammar.rules
          → start < stop
          → searchBody (lookupsOf grammar) tags below start stop (.nonterminal a) body
            = .ok (expansions grammar tags start stop (.nonterminal a) body))
    : (searchSpan (lookupsOf grammar) tags below).Finds grammar tags start stop
        (.nonterminal a) := by
  rw [Search.Finds, searchSpan, toList_trees_nonterminal]
  by_cases hspan : start < stop
  · have hopening : start < tags.size := by omega
    have hclosing : stop - 1 < tags.size := by omega
    have halternatives := mapM_eq_ok fun body hbody =>
      hbodies body (Grammar.mem_alternatives.1 hbody) hspan
    rw [if_pos hspan, readTag_eq hopening, readTag_eq hclosing, fits, holds_eq hopening,
      holds_eq hclosing]
    simp only [firstTags_lookupsOf, lastTags_lookupsOf, alternatives_lookupsOf, bind, Except.bind,
      pure, Except.pure, halternatives]
    cases (grammar.firstTags (.nonterminal a)).contains tags[start] with
    | false => simp
    | true =>
        cases (grammar.lastTags (.nonterminal a)).contains tags[stop - 1] with
        | false => simp
        | true => simp [hspan, List.flatMap_def]
  · rw [if_neg hspan, if_neg fun h => hspan h.1]
    rfl

-----------------------------------------------------------------------------------------
-- The whole search
-----------------------------------------------------------------------------------------

/-- The search succeeds if it may go as deep as the levels of all nonterminals for each token but
one, and those of its own symbol.  The induction follows the search. -/
theorem search_finds (start stop : Nat) (label : Symbol Nat) (htags : stop ≤ tags.size)
    {depth : Nat}
    (hdepth : grammar.names.size * (stop - start - 1) + grammar.level label < depth)
    : (search grammar tags depth).Finds grammar tags start stop label := by
  induction start, stop, label using span_induction grammar generalizing depth with
  | terminal start stop tag =>
      cases depth with
      | zero => omega
      | succ depth => exact searchSpan_terminal htags tag
  | nonterminal start stop a ihUnit ihLeft ihRight =>
      cases depth with
      | zero => omega
      | succ depth =>
          refine searchSpan_nonterminal htags fun body hrule hspan => ?_
          have hpos := Grammar.level_pos_of_rule hrule
          -- A shorter span leaves the levels of all nonterminals for its first symbol.
          have hshorter : ∀ length symbol,
              length + 1 < stop - start
              → grammar.names.size * length + grammar.level symbol < depth := by
            intro length symbol hlength
            have hlevel := grammar.level_le symbol
            have hroom : length + 1 ≤ stop - start - 1 := by omega
            have hmul := Nat.mul_le_mul_left grammar.names.size hroom
            have hsucc := Nat.mul_add_one grammar.names.size length
            omega
          refine searchBody_eq htags (fun child hbody => ?_) (fun middle symbol hstart hstop => ?_)
            (fun middle symbol hstart hstop => ?_)
          · subst hbody
            have hlevel := Grammar.level_unit_lt hrule
            exact ihUnit child hrule htags (by omega)
          · exact ihLeft middle symbol hstart hstop (by omega) (hshorter _ symbol (by omega))
          · exact ihRight middle symbol hstart hstop htags (hshorter _ symbol (by omega))

/-- The search over a span within the tokens comes to an end at a bounded depth and asks for no
token outside of them.  It finds a finite list of trees, which the forest delivers, and each has a
leaf for each token, one node with two children fewer, and a bounded number of nodes.  With every
step the span gets shorter or, along a unit rule, the level of the label lower. -/
theorem forest_within_bounds (grammar : Grammar) (tokens : Array Token) (start stop : Nat)
    (label : Symbol Nat) (hspan : start < stop) (htokens : stop ≤ tokens.size)
    : ∃ found trees,
        forest grammar tokens start stop label = .ok found
        ∧ found.Delivers trees
        ∧ (∀ depth > grammar.names.size * (stop - start),
          search grammar (tokens.map Token.tag) depth start stop label = .ok trees)
        ∧ ∀ tree ∈ trees,
          tree.count Tree.isLeaf = stop - start
          ∧ tree.count Tree.isPair = stop - start - 1
          ∧ tree.size ≤ stop - start + grammar.names.size * (2 * (stop - start) - 1) := by
  obtain ⟨found, hfound, htrees⟩ := exists_forest grammar tokens hspan.le htokens label
  refine ⟨found, _, hfound, Forest.delivers_iff.2 htrees.symm, fun depth hdepth => ?_,
    fun tree htree => ?_⟩
  · rw [← toList_trees_eq_enumeration]
    have hlevel := grammar.level_le label
    obtain ⟨length, rfl⟩ := Nat.exists_eq_add_of_lt hspan
    have hlength : start + length + 1 - start = length + 1 := by omega
    rw [hlength, Nat.mul_add_one] at hdepth
    refine search_finds start _ label (by simpa using htokens) ?_
    rw [hlength, Nat.add_sub_cancel]
    omega
  · have hderivation := derivation_of_mem_enumeration htree
    have hleaves := hderivation.count_isLeaf
    have hpairs := hderivation.count_isPair
    exact ⟨by omega, by omega, hderivation.size_le⟩

/-- The seventeen nonterminals of the built-in grammar over the tokens of `f(a)`. -/
theorem forest_within_bounds_call
    : let tokens : Array Token :=
        #[⟨.funcName, "f"⟩, ⟨.leftParen, "("⟩, ⟨.name, "a"⟩, ⟨.rightParen, ")"⟩]
      0 < 4
      ∧ 4 ≤ tokens.size
      ∧ ∃ found trees,
          forest .arithmetic tokens 0 4 (.nonterminal 0) = .ok found
          ∧ found.Delivers trees
          ∧ search .arithmetic (tokens.map Token.tag) 69 0 4 (.nonterminal 0) = .ok trees
          ∧ ∀ tree ∈ trees,
            tree.count Tree.isLeaf = 4 ∧ tree.count Tree.isPair = 3 ∧ tree.size ≤ 123 := by
  intro tokens
  obtain ⟨found, trees, hfound, htrees, hsearch, hcounts⟩ :=
    forest_within_bounds .arithmetic tokens 0 4 (.nonterminal 0) (by decide) (by decide)
  exact ⟨by decide, by decide, found, trees, hfound, htrees, hsearch 69 (by decide), hcounts⟩

end Formulary.Parse
