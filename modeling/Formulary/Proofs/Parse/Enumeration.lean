import Formulary.Parse.Forest
import Formulary.Parse.Trees
import Formulary.Proofs.Parse.Derivation
import Mathlib.Data.List.Nodup

/-! The plain enumeration of parse trees.
It tries every rule of a nonterminal in grammar order, every split from left to right, and every
left tree with every right tree, and looks at no table.  Its trees are the derivation trees, each
once when no rule is repeated, and the search by need gives the same list.
-/

namespace Formulary.Parse

variable {grammar : Grammar} {tags : Array Tag}

-----------------------------------------------------------------------------------------
-- The enumeration and the induction that follows it
-----------------------------------------------------------------------------------------

/-- The positions inside a span, from left to right. -/
def inside (start stop : Nat) : List Nat :=
  List.range' (start + 1) (stop - (start + 1))

/-- The places to split a span at are those strictly inside of it, so both parts are shorter. -/
@[simp]
theorem mem_inside {start stop middle : Nat}
    : middle ∈ inside start stop ↔ start < middle ∧ middle < stop := by
  simp only [inside, List.mem_range'_1]
  omega

/-- Every tree of a symbol over a span. -/
def enumeration (grammar : Grammar) (tags : Array Tag) (start stop : Nat) (label : Symbol Nat)
    : List Tree :=
  match label with
  | .terminal tag =>
      if stop = start + 1 ∧ tags[start]? = some tag then [.leaf label start] else []
  | .nonterminal a =>
      (grammar.rules.filter fun rule => rule.head = a).attach.flatMap fun
        | ⟨⟨_, .unit child⟩, _hrule⟩ =>
            (enumeration grammar tags start stop child).map fun tree =>
              .node label start stop [tree]
        | ⟨⟨_, .pair left right⟩, _⟩ =>
            (inside start stop).attach.flatMap fun ⟨middle, _hmiddle⟩ =>
              (enumeration grammar tags start middle left).flatMap fun leftTree =>
                (enumeration grammar tags middle stop right).map fun rightTree =>
                  .node label start stop [leftTree, rightTree]
termination_by (stop - start, grammar.rank label)
decreasing_by
  · simp only [List.mem_filter, decide_eq_true_eq] at _hrule
    exact Prod.Lex.right _ (Grammar.rank_unit_lt (_hrule.2 ▸ _hrule.1))
  all_goals
    have := mem_inside.1 _hmiddle
    exact Prod.Lex.left _ _ (by omega)

/-- The trees that a body gives over a span. -/
def extensions (grammar : Grammar) (tags : Array Tag) (start stop : Nat) (label : Symbol Nat)
    : Body Nat → List Tree
  | .unit child =>
      (enumeration grammar tags start stop child).map fun tree => .node label start stop [tree]
  | .pair left right =>
      (inside start stop).flatMap fun middle =>
        (enumeration grammar tags start middle left).flatMap fun leftTree =>
          (enumeration grammar tags middle stop right).map fun rightTree =>
            .node label start stop [leftTree, rightTree]

/-- Over a terminal there is the one leaf if the span is that of a token of the category, and
nothing else. -/
theorem enumeration_terminal (start stop : Nat) (tag : Tag)
    : enumeration grammar tags start stop (.terminal tag)
      = if stop = start + 1 ∧ tags[start]? = some tag then [.leaf (.terminal tag) start]
        else [] := by
  rw [enumeration]

/-- Over a nonterminal there are the trees of its right sides, one right side after the other.  The
enumeration is defined over the rules with proofs that they are rules, on which its recursion rests,
and these are gone from this form. -/
theorem enumeration_nonterminal (start stop a : Nat)
    : enumeration grammar tags start stop (.nonterminal a)
      = (grammar.alternatives a).flatMap
          (extensions grammar tags start stop (.nonterminal a)) := by
  rw [enumeration, List.flatMap_subtype
    (g := fun rule => extensions grammar tags start stop (.nonterminal a) rule.body),
    List.unattach_attach, Grammar.alternatives_eq]
  · induction grammar.rules with
    | nil => rfl
    | cons rule rules ih =>
        by_cases hhead : rule.head = a
        · simp [hhead, ih]
        · simp [hhead, ih]
  · rintro ⟨head, body⟩ _
    cases body with
    | unit child => rfl
    | pair left right =>
        simp only [extensions]
        rw [List.flatMap_subtype, List.unattach_attach]
        exact fun _ _ => rfl

/-- Induction along the search: a statement passes from the right side of a unit rule over the
same span, and from every symbol over both parts of a split span. -/
theorem span_induction (grammar : Grammar) {motive : Nat → Nat → Symbol Nat → Prop}
    (terminal : ∀ start stop tag, motive start stop (.terminal tag))
    (nonterminal
      : ∀ start stop a,
          (∀ child, ⟨a, .unit child⟩ ∈ grammar.rules → motive start stop child)
          → (∀ middle symbol, start < middle → middle < stop → motive start middle symbol)
          → (∀ middle symbol, start < middle → middle < stop → motive middle stop symbol)
          → motive start stop (.nonterminal a))
    (start stop : Nat) (label : Symbol Nat)
    : motive start stop label := by
  match label with
  | .terminal tag => exact terminal start stop tag
  | .nonterminal a =>
      refine nonterminal start stop a (fun child hrule => ?_) (fun middle symbol _ _ => ?_)
        (fun middle symbol _ _ => ?_)
      · exact span_induction grammar terminal nonterminal start stop child
      · exact span_induction grammar terminal nonterminal start middle symbol
      · exact span_induction grammar terminal nonterminal middle stop symbol
termination_by (stop - start, grammar.rank label)
decreasing_by
  · exact Prod.Lex.right _ (Grammar.rank_unit_lt hrule)
  all_goals exact Prod.Lex.left _ _ (by omega)

-----------------------------------------------------------------------------------------
-- The members are the derivation trees
-----------------------------------------------------------------------------------------

/-- A tree of a body is a node over one child, or over two that meet inside the span. -/
theorem mem_extensions_iff {start stop : Nat} {label : Symbol Nat} {body : Body Nat} {tree : Tree}
    : tree ∈ extensions grammar tags start stop label body
      ↔ (∃ child below,
          body = .unit child
          ∧ below ∈ enumeration grammar tags start stop child
          ∧ tree = .node label start stop [below])
        ∨ ∃ left right middle leftTree rightTree,
            body = .pair left right
            ∧ (start < middle ∧ middle < stop)
            ∧ leftTree ∈ enumeration grammar tags start middle left
            ∧ rightTree ∈ enumeration grammar tags middle stop right
            ∧ tree = .node label start stop [leftTree, rightTree] := by
  cases body with
  | unit child => simp [extensions, eq_comm]
  | pair left right => simp [extensions, eq_comm]

/-- Every enumerated tree is derived, by induction along the search.  A right side with one symbol
has its tree over the same span, one with two symbols over two parts of it. -/
theorem derivation_of_mem_enumeration {start stop : Nat} {label : Symbol Nat} {tree : Tree}
    (h : tree ∈ enumeration grammar tags start stop label)
    : Derivation grammar tags label start stop tree := by
  induction start, stop, label using span_induction grammar generalizing tree with
  | terminal start stop tag =>
      rw [enumeration_terminal] at h
      split at h
      · rename_i hleaf
        obtain ⟨rfl, htag⟩ := hleaf
        rw [List.mem_singleton.1 h]
        exact .leaf htag
      · simp at h
  | nonterminal start stop a ihUnit ihLeft ihRight =>
      rw [enumeration_nonterminal, List.mem_flatMap] at h
      obtain ⟨body, hbody, htree⟩ := h
      rw [Grammar.mem_alternatives] at hbody
      rcases mem_extensions_iff.1 htree with
        ⟨child, below, rfl, hbelow, rfl⟩
        | ⟨left, right, middle, leftTree, rightTree, rfl, ⟨hstart, hstop⟩, hleft, hright, rfl⟩
      · exact .unit hbody (ihUnit child hbody hbelow)
      · exact .pair hbody hstart hstop (ihLeft middle left hstart hstop hleft)
          (ihRight middle right hstart hstop hright)

/-- Every derived tree is enumerated, by induction on its derivation. -/
theorem Derivation.mem_enumeration {start stop : Nat} {label : Symbol Nat} {tree : Tree}
    (h : Derivation grammar tags label start stop tree)
    : tree ∈ enumeration grammar tags start stop label := by
  induction h with
  | leaf htag => simp [enumeration_terminal, htag]
  | unit hrule _ ih =>
      rw [enumeration_nonterminal, List.mem_flatMap]
      exact ⟨_, Grammar.mem_alternatives.2 hrule,
        mem_extensions_iff.2 (.inl ⟨_, _, rfl, ih, rfl⟩)⟩
  | pair hrule hstart hstop _ _ ihLeft ihRight =>
      rw [enumeration_nonterminal, List.mem_flatMap]
      exact ⟨_, Grammar.mem_alternatives.2 hrule,
        mem_extensions_iff.2 (.inr ⟨_, _, _, _, _, rfl, ⟨hstart, hstop⟩, ihLeft, ihRight, rfl⟩)⟩

/-- The enumeration lists the derived trees and nothing else. -/
theorem mem_enumeration_iff {start stop : Nat} {label : Symbol Nat} {tree : Tree}
    : tree ∈ enumeration grammar tags start stop label
      ↔ Derivation grammar tags label start stop tree :=
  ⟨derivation_of_mem_enumeration, Derivation.mem_enumeration⟩

-----------------------------------------------------------------------------------------
-- No tree comes twice
-----------------------------------------------------------------------------------------

/-- Different bodies share no tree: the labels of a node's children spell out its body.  So do their
number. -/
theorem disjoint_extensions {start stop : Nat} {label : Symbol Nat} {first second : Body Nat}
    (hne : first ≠ second)
    : List.Disjoint (extensions grammar tags start stop label first)
        (extensions grammar tags start stop label second) := by
  intro tree hfirst hsecond
  rcases mem_extensions_iff.1 hfirst with
    ⟨child, below, rfl, hbelow, rfl⟩
    | ⟨left, right, middle, leftTree, rightTree, rfl, _, hleft, hright, rfl⟩
  · rcases mem_extensions_iff.1 hsecond with
      ⟨other, below', rfl, hbelow', heq⟩ | ⟨_, _, _, _, _, _, _, _, _, heq⟩
    · simp only [Tree.node.injEq, List.cons.injEq, and_true, true_and] at heq
      have hchild := (derivation_of_mem_enumeration hbelow).label_eq
      have hother := (derivation_of_mem_enumeration hbelow').label_eq
      exact hne (by rw [← hchild, ← hother, heq])
    · simp at heq
  · rcases mem_extensions_iff.1 hsecond with
      ⟨_, _, _, _, heq⟩
      | ⟨left', right', middle', leftTree', rightTree', rfl, _, hleft', hright', heq⟩
    · simp at heq
    · simp only [Tree.node.injEq, List.cons.injEq, and_true, true_and] at heq
      have hl := (derivation_of_mem_enumeration hleft).label_eq
      have hl' := (derivation_of_mem_enumeration hleft').label_eq
      have hr := (derivation_of_mem_enumeration hright).label_eq
      have hr' := (derivation_of_mem_enumeration hright').label_eq
      exact hne (by rw [← hl, ← hl', ← hr, ← hr', heq.1, heq.2])

/-- The alternatives of a nonterminal repeat none when the rules repeat none. -/
theorem nodup_alternatives (h : grammar.rules.Nodup) (a : Nat)
    : (grammar.alternatives a).Nodup := by
  rw [Grammar.alternatives_eq]
  refine h.filterMap ?_
  rintro ⟨head, body⟩ ⟨head', body'⟩ found hfirst hsecond
  simp only [Option.mem_def, Option.ite_none_right_eq_some, Option.some.injEq] at hfirst hsecond
  obtain ⟨rfl, rfl⟩ := hfirst
  obtain ⟨rfl, rfl⟩ := hsecond
  rfl

/-- Pairs of distinct trees give distinct nodes. -/
theorem nodup_joined {lefts rights : List Tree} (start stop : Nat) (label : Symbol Nat)
    (hlefts : lefts.Nodup) (hrights : rights.Nodup)
    : (lefts.flatMap fun leftTree =>
        rights.map fun rightTree => Tree.node label start stop [leftTree, rightTree]).Nodup := by
  have hproduct :
      (lefts.flatMap fun leftTree =>
        rights.map fun rightTree => Tree.node label start stop [leftTree, rightTree])
      = (lefts.product rights).map fun pair => .node label start stop [pair.1, pair.2] := by
    simp [List.product, List.map_flatMap, Function.comp_def]
  rw [hproduct]
  refine (hlefts.product hrights).map ?_
  rintro ⟨left, right⟩ ⟨left', right'⟩ heq
  simpa using heq

/-- Different splits share no tree: the left child ends where the span was split.  For one split,
each tree is determined by its two children. -/
theorem nodup_splits {start stop : Nat} {label left right : Symbol Nat}
    (hleft
      : ∀ middle, start < middle → middle < stop →
          (enumeration grammar tags start middle left).Nodup)
    (hright
      : ∀ middle, start < middle → middle < stop →
          (enumeration grammar tags middle stop right).Nodup)
    : (extensions grammar tags start stop label (.pair left right)).Nodup := by
  rw [extensions, List.nodup_flatMap]
  constructor
  · intro middle hmiddle
    obtain ⟨hstart, hstop⟩ := mem_inside.1 hmiddle
    exact nodup_joined start stop label (hleft middle hstart hstop) (hright middle hstart hstop)
  · have hinside : (inside start stop).Nodup := List.nodup_range'
    refine hinside.imp fun {first second} hne tree hfirst hsecond => hne ?_
    simp only [List.mem_flatMap, List.mem_map] at hfirst hsecond
    obtain ⟨firstLeft, hfirstLeft, firstRight, _, rfl⟩ := hfirst
    obtain ⟨secondLeft, hsecondLeft, secondRight, _, heq⟩ := hsecond
    simp only [Tree.node.injEq, List.cons.injEq, and_true, true_and] at heq
    rw [← (derivation_of_mem_enumeration hfirstLeft).stop_eq,
      ← (derivation_of_mem_enumeration hsecondLeft).stop_eq, heq.1]

/-- No tree is listed twice if no rule is: the right side and the place of the split can both be
read off a tree. -/
theorem nodup_enumeration (h : grammar.rules.Nodup) (start stop : Nat) (label : Symbol Nat)
    : (enumeration grammar tags start stop label).Nodup := by
  induction start, stop, label using span_induction grammar with
  | terminal start stop tag =>
      rw [enumeration_terminal]
      split <;> simp
  | nonterminal start stop a ihUnit ihLeft ihRight =>
      rw [enumeration_nonterminal, List.nodup_flatMap]
      constructor
      · intro body hbody
        rw [Grammar.mem_alternatives] at hbody
        cases body with
        | unit child =>
            refine (ihUnit child hbody).map ?_
            intro first second heq
            simpa using heq
        | pair left right =>
            exact nodup_splits (fun middle => ihLeft middle left) fun middle => ihRight middle right
      · exact (nodup_alternatives h a).imp fun hne => disjoint_extensions hne

-----------------------------------------------------------------------------------------
-- The search by need finds the same list
-----------------------------------------------------------------------------------------

/-- Items that are left out contribute nothing. -/
theorem flatMap_filter (p : α → Bool) (f : α → List β) (items : List α)
    : (items.filter p).flatMap f = items.flatMap fun a => if p a then f a else [] := by
  induction items with
  | nil => rfl
  | cons a items ih =>
      cases ha : p a with
      | true => simp [ha, ih]
      | false => simp [ha, ih]

/-- Members that contribute nothing may be left out. -/
theorem flatMap_filter_eq {p : α → Bool} {f : α → List β} {items : List α}
    (h : ∀ a ∈ items, p a = false → f a = [])
    : (items.filter p).flatMap f = items.flatMap f := by
  rw [flatMap_filter]
  refine List.flatMap_congr fun a ha => ?_
  cases hp : p a with
  | true => rfl
  | false => exact (h a ha hp).symm

/-- A split that the edges rule out has no left tree or no right tree. -/
theorem enumeration_eq_nil_of_edges (start stop : Nat) {middle : Nat} {left right : Symbol Nat}
    (h
      : (holds tags (grammar.lastTags left) (middle - 1)
          && holds tags (grammar.firstTags right) middle)
        = false)
    : enumeration grammar tags start middle left = []
      ∨ enumeration grammar tags middle stop right = [] := by
  rcases Bool.and_eq_false_iff.1 h with hleft | hright
  · refine .inl (List.eq_nil_iff_forall_not_mem.2 fun tree htree => ?_)
    rw [(derivation_of_mem_enumeration htree).holds_last] at hleft
    cases hleft
  · refine .inr (List.eq_nil_iff_forall_not_mem.2 fun tree htree => ?_)
    rw [(derivation_of_mem_enumeration htree).holds_first] at hright
    cases hright

/-- The search delivers what the plain enumeration lists, in the same order: it leaves out only such
right sides and places as no tree can come from. -/
theorem toList_trees_eq_enumeration (start stop : Nat) (label : Symbol Nat)
    : (trees grammar tags start stop label).toList = enumeration grammar tags start stop label := by
  induction start, stop, label using span_induction grammar with
  | terminal start stop tag => rw [toList_trees_terminal, enumeration_terminal]
  | nonterminal start stop a ihUnit ihLeft ihRight =>
      rw [toList_trees_nonterminal]
      split
      · rw [enumeration_nonterminal]
        refine List.flatMap_congr fun body hbody => ?_
        cases body with
        | unit child =>
            simp only [expansions, extensions]
            rw [ihUnit child (Grammar.mem_alternatives.1 hbody)]
        | pair left right =>
            have hjoined : ∀ middle ∈ inside start stop,
                joined grammar tags start stop (.nonterminal a) left right middle
                = (enumeration grammar tags start middle left).flatMap fun leftTree =>
                    (enumeration grammar tags middle stop right).map fun rightTree =>
                      .node (.nonterminal a) start stop [leftTree, rightTree] := by
              intro middle hmiddle
              obtain ⟨hstart, hstop⟩ := mem_inside.1 hmiddle
              rw [joined, ihLeft middle left hstart hstop, ihRight middle right hstart hstop]
            simp only [expansions, extensions, splits]
            rw [← inside, flatMap_filter_eq]
            · exact List.flatMap_congr hjoined
            · intro middle hmiddle hedges
              rw [hjoined middle hmiddle]
              rcases enumeration_eq_nil_of_edges start stop hedges with hnil | hnil
              · rw [hnil, List.flatMap_nil]
              · simp [hnil]
      · rename_i hspan
        refine (List.eq_nil_iff_forall_not_mem.2 fun tree htree => hspan ?_).symm
        have hderivation := derivation_of_mem_enumeration htree
        exact ⟨hderivation.start_lt_stop, hderivation.fits⟩

end Formulary.Parse
