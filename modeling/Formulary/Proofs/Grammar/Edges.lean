import Formulary.Grammar.Basic
import Mathlib.Data.Finset.Card
import Mathlib.Order.Monotone.Basic

/-! The edge sets of a grammar are closed under its rules.
Every round only adds terminals, and a terminal that no nonterminal gains in one round is gained
in none after it.  So one round for each nonterminal is enough, and what can stand at the edge of
a body can stand at the edge of the rule's left side.
-/

namespace Formulary.Boundary

variable (edge : Body Nat → Symbol Nat) (alternatives : Array (List (Body Nat)))

/-- A union over a list holds what its members hold. -/
theorem contains_foldl_union (f : α → TagSet) (items : List α) (set : TagSet) (tag : Tag)
    : (items.foldl (fun set item => set ∪ f item) set).contains tag = true
      ↔ set.contains tag = true ∨ ∃ item ∈ items, (f item).contains tag = true := by
  induction items generalizing set with
  | nil => simp
  | cons item items ih =>
      simp only [List.foldl_cons, ih, TagSet.contains_union, Bool.or_eq_true, List.mem_cons,
        exists_eq_or_imp, or_assoc]

/-- The edge of a terminal is the terminal, whatever the sets of the nonterminals are. -/
theorem edgeSet_terminal (sets : Array TagSet) (tag : Tag)
    : edgeSet sets (.terminal tag) = .single tag :=
  rfl

/-- Before the first round no nonterminal has anything at its edge. -/
theorem contains_rounds_zero (a : Nat) (tag : Tag)
    : (edgeSet (rounds edge alternatives 0) (.nonterminal a)).contains tag = false := by
  simp only [edgeSet, rounds, Array.getD_eq_getD_getElem?, Array.getElem?_map]
  cases alternatives[a]? <;> simp

/-- A nonterminal gains in a round what the edges of its bodies had before it. -/
theorem contains_rounds_succ (count a : Nat) (tag : Tag)
    : (edgeSet (rounds edge alternatives (count + 1)) (.nonterminal a)).contains tag = true
      ↔ ∃ body ∈ alternatives.getD a [],
          (edgeSet (rounds edge alternatives count) (edge body)).contains tag = true := by
  simp only [edgeSet, rounds, round, Array.getD_eq_getD_getElem?, Array.getElem?_map]
  cases alternatives[a]? with
  | none => simp
  | some bodies => simpa using contains_foldl_union _ bodies ∅ tag

/-- Rounds never lose a terminal, by induction on their number.  What a round adds comes from the
edge of a right side, whose set is no smaller in the next round. -/
theorem contains_rounds_mono (count : Nat) (symbol : Symbol Nat) (tag : Tag)
    (h : (edgeSet (rounds edge alternatives count) symbol).contains tag = true)
    : (edgeSet (rounds edge alternatives (count + 1)) symbol).contains tag = true := by
  induction count generalizing symbol with
  | zero =>
      cases symbol with
      | terminal other => rwa [edgeSet_terminal] at h ⊢
      | nonterminal a => simp [contains_rounds_zero] at h
  | succ count ih =>
      cases symbol with
      | terminal other => rwa [edgeSet_terminal] at h ⊢
      | nonterminal a =>
          obtain ⟨body, hbody, hedge⟩ := (contains_rounds_succ edge alternatives count a tag).1 h
          exact (contains_rounds_succ edge alternatives (count + 1) a tag).2
            ⟨body, hbody, ih _ hedge⟩

/-- The nonterminals that have a terminal in their sets after some rounds. -/
def marked (tag : Tag) (count : Nat) : Finset Nat :=
  (Finset.range alternatives.size).filter fun a =>
    (edgeSet (rounds edge alternatives count) (.nonterminal a)).contains tag = true

/-- The nonterminals without alternatives of their own have no terminals. -/
theorem mem_marked {tag : Tag} {count a : Nat}
    : a ∈ marked edge alternatives tag count
      ↔ (edgeSet (rounds edge alternatives count) (.nonterminal a)).contains tag = true := by
  simp only [marked, Finset.mem_filter, Finset.mem_range, and_iff_right_iff_imp]
  intro h
  cases count with
  | zero => simp [contains_rounds_zero] at h
  | succ count =>
      obtain ⟨body, hbody, _⟩ := (contains_rounds_succ edge alternatives count a tag).1 h
      by_contra hsize
      simp [Array.getD_eq_getD_getElem?, Array.getElem?_eq_none (Nat.le_of_not_lt hsize)] at hbody

/-- Another round takes no nonterminal away. -/
theorem marked_subset_succ (tag : Tag) (count : Nat)
    : marked edge alternatives tag count ⊆ marked edge alternatives tag (count + 1) := by
  intro a ha
  rw [mem_marked] at ha ⊢
  exact contains_rounds_mono edge alternatives count _ tag ha

/-- A round that marks nothing new is followed by such rounds only. -/
theorem marked_stable {tag : Tag} {count : Nat}
    (h : marked edge alternatives tag count = marked edge alternatives tag (count + 1))
    : marked edge alternatives tag (count + 1) = marked edge alternatives tag (count + 2) := by
  have hsymbol : ∀ symbol,
      (edgeSet (rounds edge alternatives count) symbol).contains tag = true
      ↔ (edgeSet (rounds edge alternatives (count + 1)) symbol).contains tag = true := by
    intro symbol
    cases symbol with
    | terminal other => rw [edgeSet_terminal, edgeSet_terminal]
    | nonterminal a => rw [← mem_marked, ← mem_marked, h]
  ext a
  simp only [mem_marked, contains_rounds_succ edge alternatives, hsymbol]

/-- After one round for each nonterminal a further round marks nothing new.  The number of marked
nonterminals cannot rise more often than there are nonterminals. -/
theorem marked_size_succ (tag : Tag)
    : marked edge alternatives tag (alternatives.size + 1)
      = marked edge alternatives tag alternatives.size := by
  have hcard := Nat.stabilises_of_monotone
    (f := fun count => (marked edge alternatives tag count).card)
    (b := alternatives.size) (n := alternatives.size + 1)
    (monotone_nat_of_le_succ fun count =>
      Finset.card_le_card (marked_subset_succ edge alternatives tag count))
    (fun count => (Finset.card_filter_le _ _).trans (Finset.card_range _).le)
    (fun count h => by
      have hsame := Finset.eq_of_subset_of_card_le (marked_subset_succ edge alternatives tag count)
        h.ge
      exact congrArg Finset.card (marked_stable edge alternatives hsame))
    (Nat.le_succ _)
  exact (Finset.eq_of_subset_of_card_le (marked_subset_succ edge alternatives tag _) hcard.le).symm

/-- What can stand at the edge of a body can stand at the edge of its nonterminal. -/
theorem contains_sets_of_body {a : Nat} {body : Body Nat} {tag : Tag}
    (hbody : body ∈ alternatives.getD a [])
    (h : (edgeSet (sets edge alternatives) (edge body)).contains tag = true)
    : (edgeSet (sets edge alternatives) (.nonterminal a)).contains tag = true := by
  rw [sets, ← mem_marked, ← marked_size_succ, mem_marked, contains_rounds_succ]
  exact ⟨body, hbody, h⟩

end Formulary.Boundary

namespace Formulary.Grammar

/-- What stands in front of a right side stands in front of its nonterminal. -/
theorem firstTags_of_rule {grammar : Grammar} {a : Nat} {body : Body Nat} {tag : Tag}
    (hrule : ⟨a, body⟩ ∈ grammar.rules)
    (h : (grammar.firstTags body.first).contains tag = true)
    : (grammar.firstTags (.nonterminal a)).contains tag = true := by
  rw [firstTags, grammar.firsts_eq] at h ⊢
  exact Boundary.contains_sets_of_body _ _ (mem_alternatives.2 hrule) h

/-- What stands behind a right side stands behind its nonterminal. -/
theorem lastTags_of_rule {grammar : Grammar} {a : Nat} {body : Body Nat} {tag : Tag}
    (hrule : ⟨a, body⟩ ∈ grammar.rules)
    (h : (grammar.lastTags body.last).contains tag = true)
    : (grammar.lastTags (.nonterminal a)).contains tag = true := by
  rw [lastTags, grammar.lasts_eq] at h ⊢
  exact Boundary.contains_sets_of_body _ _ (mem_alternatives.2 hrule) h

end Formulary.Grammar
