import Formulary.Proofs.Grammar.Chains
import Mathlib.Data.Finset.Prod

/-! Filling both edge tables in place.
The rules are gone through one after the other, each adding to the entry of its left side, until a
whole sweep adds nothing.  Every sweep before the last adds an entry, so there are few of them, and
the tables that they leave are those of the compiled grammar.
-/

namespace Formulary.Boundary

variable {rules : List (Rule Nat)} {edge : Body Nat → Symbol Nat} {sets : Array TagSet}

-----------------------------------------------------------------------------------------
-- One rule and one table
-----------------------------------------------------------------------------------------

/-- A rule adds what stands at the edge of its body to the entry of its left side. -/
def absorb (edge : Body Nat → Symbol Nat) (sets : Array TagSet) (rule : Rule Nat)
    : Array TagSet :=
  sets.modify rule.head (· ∪ edgeSet sets (edge rule.body))

/-- Absorbing a rule keeps the size of the table. -/
theorem size_absorb (rule : Rule Nat)
    : (absorb edge sets rule).size = sets.size := by
  simp [absorb]

/-- A rule adds nothing else, and nothing at all if its left side has no entry.  What it adds to the
entry of its left side is the set of the symbol at its edge. -/
theorem contains_absorb {rule : Rule Nat} {symbol : Symbol Nat} {tag : Tag}
    : (edgeSet (absorb edge sets rule) symbol).contains tag = true
      ↔ (edgeSet sets symbol).contains tag = true
        ∨ symbol = .nonterminal rule.head
          ∧ rule.head < sets.size
          ∧ (edgeSet sets (edge rule.body)).contains tag = true := by
  cases symbol with
  | terminal other => simp [edgeSet_terminal]
  | nonterminal a =>
      simp only [absorb, Symbol.nonterminal.injEq]
      generalize edgeSet sets (edge rule.body) = gained
      simp only [edgeSet, Array.getD_eq_getD_getElem?, Array.getElem?_modify]
      by_cases hhead : a = rule.head
      · subst hhead
        by_cases ha : rule.head < sets.size
        · simp [ha]
        · simp [ha]
      · simp [hhead, Ne.symm hhead]

/-- What a rule adds to its left side is justified by the chain from the symbol at its edge. -/
theorem Justified.absorb {rule : Rule Nat} (h : Justified rules edge sets) (hrule : rule ∈ rules)
    : Justified rules edge (absorb edge sets rule) := by
  intro symbol tag hedge
  rcases contains_absorb.1 hedge with hold | ⟨rfl, _, hgained⟩
  · exact h symbol tag hold
  · exact (h _ _ hgained).cons hrule

/-- A table that no rule changes is closed. -/
theorem closed_of_absorb_eq (h : ∀ rule ∈ rules, absorb edge sets rule = sets)
    (hheads : ∀ rule ∈ rules, rule.head < sets.size)
    : Closed rules edge sets := by
  intro rule hrule tag hedge
  rw [← h rule hrule]
  exact contains_absorb.2 (.inr ⟨rfl, hheads rule hrule, hedge⟩)

/-- The entries of a table, each a nonterminal with one of its terminals. -/
def held (sets : Array TagSet) : Finset (Nat × Tag) :=
  (Finset.range sets.size ×ˢ Tag.all.toFinset).filter fun entry =>
    (edgeSet sets (.nonterminal entry.1)).contains entry.2 = true

/-- The held pairs are those of a nonterminal and a category in its set. -/
theorem mem_held {a : Nat} {tag : Tag}
    : (a, tag) ∈ held sets ↔ (edgeSet sets (.nonterminal a)).contains tag = true := by
  simp only [held, Finset.mem_filter, Finset.mem_product, Finset.mem_range, List.mem_toFinset,
    Tag.mem_all, and_true, and_iff_right_iff_imp]
  intro h
  by_contra hsize
  simp [edgeSet, Array.getD_eq_getD_getElem?, Array.getElem?_eq_none (Nat.le_of_not_lt hsize)] at h

/-- There are nine terminals. -/
theorem card_held_le (sets : Array TagSet)
    : (held sets).card ≤ 9 * sets.size := by
  refine (Finset.card_filter_le _ _).trans ?_
  rw [Finset.card_product, Finset.card_range, Nat.mul_comm]
  exact Nat.mul_le_mul_right _ (List.toFinset_card_le _)

/-- Absorbing a rule takes nothing away. -/
theorem held_subset_absorb (edge : Body Nat → Symbol Nat) (sets : Array TagSet) (rule : Rule Nat)
    : held sets ⊆ held (absorb edge sets rule) := by
  rintro ⟨a, tag⟩ h
  rw [mem_held] at h ⊢
  exact contains_absorb.2 (.inl h)

/-- A rule that changes a table adds an entry to it. -/
theorem card_held_lt {rule : Rule Nat} (h : absorb edge sets rule ≠ sets)
    : (held sets).card < (held (absorb edge sets rule)).card := by
  have hsubset := held_subset_absorb edge sets rule
  refine Finset.card_lt_card (hsubset.ssubset_of_ne fun heq => h ?_)
  refine eq_of_contains_iff (size_absorb rule) fun a tag => ?_
  rw [← mem_held, ← mem_held, heq]

-----------------------------------------------------------------------------------------
-- Sweeps over all rules and both tables
-----------------------------------------------------------------------------------------

/-- The sets at the left edges of all nonterminals and those at the right edges. -/
structure Tables where
  firsts : Array TagSet
  lasts : Array TagSet
deriving DecidableEq

namespace Tables

/-- Tables for so many nonterminals without any entry. -/
def blank (count : Nat) : Tables :=
  ⟨.replicate count ∅, .replicate count ∅⟩

/-- Both tables after one rule. -/
def absorb (tables : Tables) (rule : Rule Nat) : Tables :=
  ⟨Boundary.absorb Body.first tables.firsts rule, Boundary.absorb Body.last tables.lasts rule⟩

/-- Both tables after one rule more, and whether any rule has made a change. -/
def step (state : Tables × Bool) (rule : Rule Nat) : Tables × Bool :=
  (state.1.absorb rule, state.2 || state.1.absorb rule != state.1)

/-- Both tables after all rules in turn, and whether any of them made a change. -/
def sweep (rules : List (Rule Nat)) (tables : Tables) : Tables × Bool :=
  rules.foldl step (tables, false)

/-- So many sweeps lead from some tables to others, and only the last of them changes nothing. -/
inductive Settles (rules : List (Rule Nat)) : Tables → Nat → Tables → Prop where
  | done {tables final : Tables} (hsweep : tables.sweep rules = (final, false))
    : Settles rules tables 1 final
  | again {tables next final : Tables} {count : Nat} (hsweep : tables.sweep rules = (next, true))
    (below : Settles rules next count final)
    : Settles rules tables (count + 1) final

/-- The number of entries in both tables. -/
def weight (tables : Tables) : Nat :=
  (held tables.firsts).card + (held tables.lasts).card

/-- Absorbing a rule makes no table smaller. -/
theorem weight_le_absorb (tables : Tables) (rule : Rule Nat)
    : tables.weight ≤ (tables.absorb rule).weight :=
  Nat.add_le_add (Finset.card_le_card (held_subset_absorb _ _ _))
    (Finset.card_le_card (held_subset_absorb _ _ _))

/-- Absorbing a rule that changes the tables adds to one of them. -/
theorem weight_lt_absorb {tables : Tables} {rule : Rule Nat} (h : tables.absorb rule ≠ tables)
    : tables.weight < (tables.absorb rule).weight := by
  by_cases hfirsts : Boundary.absorb Body.first tables.firsts rule = tables.firsts
  · have hlasts : Boundary.absorb Body.last tables.lasts rule ≠ tables.lasts := by
      intro hlasts
      exact h (by rw [absorb, hfirsts, hlasts])
    exact Nat.add_lt_add_of_le_of_lt (Finset.card_le_card (held_subset_absorb _ _ _))
      (card_held_lt hlasts)
  · exact Nat.add_lt_add_of_lt_of_le (card_held_lt hfirsts)
      (Finset.card_le_card (held_subset_absorb _ _ _))

/-- Rules that make no change leave the tables as they are, each of them. -/
theorem foldl_step_unchanged (todo : List (Rule Nat)) (state : Tables × Bool)
    (h : (todo.foldl step state).2 = false)
    : state.2 = false
      ∧ (todo.foldl step state).1 = state.1
      ∧ ∀ rule ∈ todo, state.1.absorb rule = state.1 := by
  induction todo generalizing state with
  | nil => exact ⟨h, rfl, List.forall_mem_nil _⟩
  | cons rule todo ih =>
      obtain ⟨hflag, hfinal, hothers⟩ := ih (step state rule) h
      simp only [step, Bool.or_eq_false_iff, bne_eq_false_iff_eq] at hflag
      obtain ⟨hflag, hsame⟩ := hflag
      simp only [step, hsame] at hothers
      exact ⟨hflag, hfinal.trans hsame, List.forall_mem_cons.2 ⟨hsame, hothers⟩⟩

/-- Rules never lose an entry, and if one of them makes a change they add one. -/
theorem weight_foldl_step (todo : List (Rule Nat)) (state : Tables × Bool)
    : state.1.weight ≤ (todo.foldl step state).1.weight
      ∧ ((todo.foldl step state).2 = true
        → state.2 = true ∨ state.1.weight < (todo.foldl step state).1.weight) := by
  induction todo generalizing state with
  | nil => exact ⟨Nat.le_refl _, .inl⟩
  | cons rule todo ih =>
      obtain ⟨hle, hlt⟩ := ih (step state rule)
      refine ⟨(weight_le_absorb _ _).trans hle, fun hflag => ?_⟩
      rcases hlt hflag with hchanged | hlt
      · simp only [step, Bool.or_eq_true, bne_iff_ne] at hchanged
        exact hchanged.imp id fun hne => (weight_lt_absorb hne).trans_le hle
      · exact .inr ((weight_le_absorb _ _).trans_lt hlt)

/-- A sweep that reports a change has added to the tables. -/
theorem weight_lt_of_sweep {tables next : Tables} (h : tables.sweep rules = (next, true))
    : tables.weight < next.weight := by
  obtain ⟨_, hlt⟩ := weight_foldl_step rules (tables, false)
  rw [← sweep, h] at hlt
  simpa using hlt rfl

/-- What holds of the tables at every moment: each has an entry for every nonterminal, and holds
only ends of chains. -/
structure Sound (rules : List (Rule Nat)) (count : Nat) (tables : Tables) : Prop where
  size_firsts : tables.firsts.size = count
  size_lasts : tables.lasts.size = count
  firsts : Justified rules Body.first tables.firsts
  lasts : Justified rules Body.last tables.lasts

variable {count : Nat} {tables : Tables}

/-- Empty sets hold nothing that would have to be justified. -/
theorem justified_replicate (edge : Body Nat → Symbol Nat) (count : Nat)
    : Justified rules edge (.replicate count ∅) := by
  refine justified_of_nonterminals fun a tag h => ?_
  simp only [edgeSet, Array.getD_eq_getD_getElem?, Array.getElem?_replicate] at h
  split at h <;> simp at h

/-- The empty tables are sound. -/
theorem Sound.blank (rules : List (Rule Nat)) (count : Nat)
    : Sound rules count (blank count) where
  size_firsts := Array.size_replicate
  size_lasts := Array.size_replicate
  firsts := justified_replicate Body.first count
  lasts := justified_replicate Body.last count

/-- Tables stay sound when a rule of the grammar is absorbed. -/
theorem Sound.absorb {rule : Rule Nat} (h : Sound rules count tables) (hrule : rule ∈ rules)
    : Sound rules count (tables.absorb rule) where
  size_firsts := (size_absorb rule).trans h.size_firsts
  size_lasts := (size_absorb rule).trans h.size_lasts
  firsts := h.firsts.absorb hrule
  lasts := h.lasts.absorb hrule

/-- Tables stay sound in the course of a sweep, by induction on the rules that are left of it. -/
theorem Sound.foldl_step (todo : List (Rule Nat)) (state : Tables × Bool)
    (h : Sound rules count state.1) (htodo : todo ⊆ rules)
    : Sound rules count (todo.foldl step state).1 := by
  induction todo generalizing state with
  | nil => exact h
  | cons rule todo ih =>
      obtain ⟨hrule, hothers⟩ := List.cons_subset.1 htodo
      exact ih (step state rule) (h.absorb hrule) hothers

/-- Tables stay sound in a sweep. -/
theorem Sound.sweep {next : Tables} {changed : Bool} (h : Sound rules count tables)
    (hsweep : tables.sweep rules = (next, changed))
    : Sound rules count next := by
  have hnext := Sound.foldl_step rules (tables, false) h (List.Subset.refl rules)
  rwa [← Tables.sweep, hsweep] at hnext

/-- Sound tables hold no more than nine categories for every nonterminal, once at the front and once
at the end.  This is what bounds the number of sweeps. -/
theorem Sound.weight_le (h : Sound rules count tables)
    : tables.weight ≤ 18 * count := by
  have hfirsts := card_held_le tables.firsts
  have hlasts := card_held_le tables.lasts
  rw [h.size_firsts] at hfirsts
  rw [h.size_lasts] at hlasts
  rw [weight]
  omega

/-- The sweeps come to an end, by induction on the number of entries that can still be added.  Every
sweep but the last one adds an entry, and sound tables have room for so many only. -/
theorem Sound.exists_settles (h : Sound rules count tables)
    : ∃ sweeps final,
        sweeps + tables.weight ≤ 18 * count + 1 ∧ Settles rules tables sweeps final := by
  induction hroom : 18 * count - tables.weight using Nat.strong_induction_on
    generalizing tables with
  | _ room ih =>
      have hweight := h.weight_le
      rcases hsweep : tables.sweep rules with ⟨next, changed⟩
      cases changed with
      | false => exact ⟨1, next, by omega, .done hsweep⟩
      | true =>
          have hnext := h.sweep hsweep
          have hlt := weight_lt_of_sweep hsweep
          have hle := hnext.weight_le
          obtain ⟨sweeps, final, hsweeps, hfinal⟩ := ih _ (by omega) hnext rfl
          exact ⟨sweeps + 1, final, by omega, .again hsweep hfinal⟩

/-- There is only one way in which the sweeps can go. -/
theorem Settles.unique {sweeps others : Nat} {final other : Tables}
    (h : Settles rules tables sweeps final) (hother : Settles rules tables others other)
    : final = other := by
  induction h generalizing others with
  | done hsweep =>
      cases hother with
      | done hagain => exact congrArg Prod.fst (hsweep.symm.trans hagain)
      | again hagain _ => cases hsweep.symm.trans hagain
  | again hsweep _ ih =>
      cases hother with
      | done hagain => cases hsweep.symm.trans hagain
      | again hagain hbelow =>
          obtain ⟨rfl, -⟩ := Prod.mk.inj (hsweep.symm.trans hagain)
          exact ih hbelow

/-- The tables in the end are sound, and no rule changes them any more. -/
theorem Settles.final {sweeps : Nat} {final : Tables} (h : Settles rules tables sweeps final)
    (hsound : Sound rules count tables)
    : Sound rules count final ∧ ∀ rule ∈ rules, final.absorb rule = final := by
  induction h with
  | @done tables final hsweep =>
      refine ⟨hsound.sweep hsweep, ?_⟩
      have hunchanged := foldl_step_unchanged rules (tables, false)
      rw [← sweep, hsweep] at hunchanged
      obtain ⟨-, rfl, hsame⟩ := hunchanged rfl
      exact hsame
  | again hsweep _ ih => exact ih (hsound.sweep hsweep)

end Tables

end Formulary.Boundary

namespace Formulary.Grammar

open Boundary

/-- A sound table that no rule changes is the table of the grammar. -/
theorem eq_sets_of_absorb_eq (grammar : Grammar) {edge : Body Nat → Symbol Nat}
    {table : Array TagSet} (hsize : table.size = grammar.names.size)
    (hjustified : Justified grammar.rules edge table)
    (hsame : ∀ rule ∈ grammar.rules, absorb edge table rule = table)
    : table = sets edge grammar.bodies := by
  refine grammar.eq_sets hsize hjustified (closed_of_absorb_eq hsame fun rule hrule => ?_)
  rw [hsize]
  exact grammar.bounded rule hrule _ List.mem_cons_self

/-- Sweeps over the rules of a grammar end with its own tables. -/
theorem exists_settles (grammar : Grammar)
    : ∃ sweeps ≤ 18 * grammar.names.size + 1,
        Tables.Settles grammar.rules (.blank grammar.names.size) sweeps
          ⟨grammar.firsts, grammar.lasts⟩ := by
  have hblank := Tables.Sound.blank grammar.rules grammar.names.size
  obtain ⟨sweeps, final, hsweeps, hsettles⟩ := hblank.exists_settles
  refine ⟨sweeps, by omega, ?_⟩
  obtain ⟨hsound, hsame⟩ := hsettles.final hblank
  have hfirsts : final.firsts = sets Body.first grammar.bodies :=
    grammar.eq_sets_of_absorb_eq hsound.size_firsts hsound.firsts fun rule hrule =>
      congrArg Tables.firsts (hsame rule hrule)
  have hlasts : final.lasts = sets Body.last grammar.bodies :=
    grammar.eq_sets_of_absorb_eq hsound.size_lasts hsound.lasts fun rule hrule =>
      congrArg Tables.lasts (hsame rule hrule)
  rwa [grammar.firsts_eq, grammar.lasts_eq, ← hfirsts, ← hlasts]

end Formulary.Grammar
