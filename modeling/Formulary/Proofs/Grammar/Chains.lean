import Formulary.Proofs.Grammar.Edges
import Mathlib.Logic.Relation

/-! What the edge sets of a grammar hold.
A chain of rules goes from a nonterminal to the symbol at the chosen edge of one of its bodies, and
on from there.  Sets that hold only ends of chains and are closed under the rules hold the end of
every chain, so there is only one table of such sets.
-/

namespace Formulary

namespace Boundary

variable {rules : List (Rule Nat)} {edge : Body Nat → Symbol Nat}

/-- A rule leads from its left side to the symbol at the chosen edge of its body. -/
inductive EdgeStep (rules : List (Rule Nat)) (edge : Body Nat → Symbol Nat)
    : Symbol Nat → Symbol Nat → Prop where
  | rule {a : Nat} {body : Body Nat} (hrule : ⟨a, body⟩ ∈ rules)
    : EdgeStep rules edge (.nonterminal a) (edge body)

/-- A chain of rules leads from a symbol to a terminal. -/
def Chain (rules : List (Rule Nat)) (edge : Body Nat → Symbol Nat) (symbol : Symbol Nat)
    (tag : Tag) : Prop :=
  Relation.ReflTransGen (EdgeStep rules edge) symbol (.terminal tag)

/-- A rule leads to a chain from the symbol at the edge of its right side. -/
theorem Chain.cons {a : Nat} {body : Body Nat} {tag : Tag} (hrule : ⟨a, body⟩ ∈ rules)
    (h : Chain rules edge (edge body) tag)
    : Chain rules edge (.nonterminal a) tag :=
  .head (.rule hrule) h

/-- Whatever the sets hold is the end of a chain. -/
def Justified (rules : List (Rule Nat)) (edge : Body Nat → Symbol Nat) (sets : Array TagSet)
    : Prop :=
  ∀ symbol tag, (edgeSet sets symbol).contains tag = true → Chain rules edge symbol tag

/-- What stands at the edge of a body stands at the edge of the rule's left side. -/
def Closed (rules : List (Rule Nat)) (edge : Body Nat → Symbol Nat) (sets : Array TagSet)
    : Prop :=
  ∀ rule ∈ rules, ∀ tag,
    (edgeSet sets (edge rule.body)).contains tag = true
    → (edgeSet sets (.nonterminal rule.head)).contains tag = true

/-- Closed sets hold the end of every chain, by induction on the chain from its end. -/
theorem Closed.contains_of_chain {sets : Array TagSet} (h : Closed rules edge sets)
    {symbol : Symbol Nat} {tag : Tag} (hchain : Chain rules edge symbol tag)
    : (edgeSet sets symbol).contains tag = true := by
  induction hchain using Relation.ReflTransGen.head_induction_on with
  | refl => simp [edgeSet_terminal]
  | head hstep _ ih =>
      cases hstep with
      | rule hrule => exact h _ hrule _ ih

/-- The edge set of a nonterminal in the table is its entry. -/
theorem edgeSet_nonterminal {sets : Array TagSet} {a : Nat} (ha : a < sets.size)
    : edgeSet sets (.nonterminal a) = sets[a] := by
  simp [edgeSet, Array.getD_eq_getD_getElem?, ha]

/-- Tables of the same size are equal when they hold the same terminals. -/
theorem eq_of_contains_iff {first second : Array TagSet} (hsize : first.size = second.size)
    (h
      : ∀ a tag,
          (edgeSet first (.nonterminal a)).contains tag = true
          ↔ (edgeSet second (.nonterminal a)).contains tag = true)
    : first = second := by
  refine Array.ext hsize fun a hfirst hsecond => TagSet.ext fun tag => ?_
  rw [← edgeSet_nonterminal hfirst, ← edgeSet_nonterminal hsecond, Bool.eq_iff_iff]
  exact h a tag

/-- The terminals themselves are always justified. -/
theorem justified_of_nonterminals {sets : Array TagSet}
    (h
      : ∀ a tag,
          (edgeSet sets (.nonterminal a)).contains tag = true
          → Chain rules edge (.nonterminal a) tag)
    : Justified rules edge sets := by
  intro symbol tag hedge
  cases symbol with
  | terminal other =>
      obtain rfl : other = tag := by simpa [edgeSet_terminal] using hedge
      exact .refl
  | nonterminal a => exact h a tag hedge

/-- What a nonterminal has gained after some rounds is the end of a chain, by induction on the
rounds. -/
theorem justified_rounds {alternatives : Array (List (Body Nat))}
    (hrules : ∀ a, ∀ body ∈ alternatives.getD a [], ⟨a, body⟩ ∈ rules) (count : Nat)
    : Justified rules edge (rounds edge alternatives count) := by
  induction count with
  | zero =>
      refine justified_of_nonterminals fun a tag h => ?_
      simp [contains_rounds_zero] at h
  | succ count ih =>
      refine justified_of_nonterminals fun a tag h => ?_
      obtain ⟨body, hbody, hedge⟩ := (contains_rounds_succ edge alternatives count a tag).1 h
      exact (ih _ _ hedge).cons (hrules a body hbody)

/-- Rounds keep the size of the table. -/
theorem size_rounds (edge : Body Nat → Symbol Nat) (alternatives : Array (List (Body Nat)))
    (count : Nat)
    : (rounds edge alternatives count).size = alternatives.size := by
  cases count <;> simp [rounds, round]

end Boundary

namespace Grammar

open Boundary

/-- The sets of a grammar hold ends of chains only, as each round adds no other. -/
theorem justified_sets (grammar : Grammar) (edge : Body Nat → Symbol Nat)
    : Justified grammar.rules edge (sets edge grammar.bodies) :=
  justified_rounds (fun _ _ => mem_alternatives.1) _

/-- The sets of a grammar are closed: after the last round no rule adds anything. -/
theorem closed_sets (grammar : Grammar) (edge : Body Nat → Symbol Nat)
    : Closed grammar.rules edge (sets edge grammar.bodies) :=
  fun _ hrule _ => contains_sets_of_body _ _ (mem_alternatives.2 hrule)

/-- There is a set for every nonterminal. -/
theorem size_sets (grammar : Grammar) (edge : Body Nat → Symbol Nat)
    : (sets edge grammar.bodies).size = grammar.names.size := by
  rw [sets, size_rounds, grammar.bodies_eq]
  simp [alternativeTable]

/-- The edge sets hold the ends of chains and nothing else. -/
theorem contains_sets_iff (grammar : Grammar) {edge : Body Nat → Symbol Nat} {symbol : Symbol Nat}
    {tag : Tag}
    : (edgeSet (sets edge grammar.bodies) symbol).contains tag = true
      ↔ Chain grammar.rules edge symbol tag :=
  ⟨grammar.justified_sets edge symbol tag, (grammar.closed_sets edge).contains_of_chain⟩

/-- The categories in front of a symbol are the ends of the chains along first symbols. -/
theorem contains_firstTags_iff (grammar : Grammar) {symbol : Symbol Nat} {tag : Tag}
    : (grammar.firstTags symbol).contains tag = true
      ↔ Chain grammar.rules Body.first symbol tag := by
  rw [firstTags, grammar.firsts_eq, contains_sets_iff]

/-- The categories behind a symbol are the ends of the chains along last symbols. -/
theorem contains_lastTags_iff (grammar : Grammar) {symbol : Symbol Nat} {tag : Tag}
    : (grammar.lastTags symbol).contains tag = true
      ↔ Chain grammar.rules Body.last symbol tag := by
  rw [lastTags, grammar.lasts_eq, contains_sets_iff]

/-- There is only one table of a size that is justified and closed. -/
theorem eq_sets (grammar : Grammar) {edge : Body Nat → Symbol Nat} {table : Array TagSet}
    (hsize : table.size = grammar.names.size) (hjustified : Justified grammar.rules edge table)
    (hclosed : Closed grammar.rules edge table)
    : table = sets edge grammar.bodies := by
  refine eq_of_contains_iff (hsize.trans (grammar.size_sets edge).symm) fun a tag => ?_
  rw [grammar.contains_sets_iff]
  exact ⟨hjustified _ _, hclosed.contains_of_chain⟩

end Grammar

end Formulary
