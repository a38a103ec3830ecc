import Formulary.Proofs.Grammar.Numbering
import Mathlib.Data.List.Basic
import Mathlib.Logic.Relation

/-! Rules without unit cycles are the ones that compile.
The walk over the unit rules stops at a nonterminal only when it meets it again on its own path,
and a walk that is completed ranks every nonterminal above its unit children.
-/

namespace Formulary

-----------------------------------------------------------------------------------------
-- Unit rules as a relation between nonterminals
-----------------------------------------------------------------------------------------

namespace Rule

variable {ν μ : Type}

/-- A unit rule derives the second nonterminal from the first. -/
def UnitStep (rules : List (Rule ν)) (a b : ν) : Prop :=
  ⟨a, .unit (.nonterminal b)⟩ ∈ rules

/-- A nonterminal derives itself by one or more unit rules. -/
def OnUnitCycle (rules : List (Rule ν)) (a : ν) : Prop :=
  Relation.TransGen (UnitStep rules) a a

/-- Renaming the nonterminals of all rules renames those on cycles. -/
theorem OnUnitCycle.map {rules : List (Rule ν)} {a : ν} (h : OnUnitCycle rules a) (f : ν → μ)
    : OnUnitCycle (rules.map (Rule.map f)) (f a) :=
  Relation.TransGen.lift f (fun _ _ hstep => List.mem_map_of_mem (f := Rule.map f) hstep) _ _ h

/-- More rules leave a nonterminal on its cycle. -/
theorem OnUnitCycle.mono {rules others : List (Rule ν)} (hsubset : rules ⊆ others) {a : ν}
    (h : OnUnitCycle rules a)
    : OnUnitCycle others a :=
  Relation.TransGen.mono (fun _ _ hstep => hsubset hstep) _ _ h

/-- A ranking of the unit rules leaves no cycle among them. -/
theorem not_onUnitCycle_of_unitAcyclic {rules : List (Rule Nat)} (h : UnitAcyclic rules) (a : Nat)
    : ¬ OnUnitCycle rules a := by
  obtain ⟨rank, hrank⟩ := h
  have hdecreases : ∀ {b c}, Relation.TransGen (UnitStep rules) b c → rank c < rank b := by
    intro b c hpath
    induction hpath with
    | single hstep => exact hrank _ hstep _ rfl
    | tail _ hstep ih => exact Nat.lt_trans (hrank _ hstep _ rfl) ih
  exact fun hcycle => Nat.lt_irrefl _ (hdecreases hcycle)

end Rule

-----------------------------------------------------------------------------------------
-- Where a walk fails
-----------------------------------------------------------------------------------------

namespace UnitOrder

variable {next : Nat → List Nat}

/-- A fold that fails does so in one of its steps.  By induction on what is left to do. -/
theorem exists_step_of_foldlM_error {step : List Nat → Nat → Except Nat (List Nat)}
    {todo settled : List Nat} {found : Nat} (h : todo.foldlM step settled = .error found)
    : ∃ a ∈ todo, ∃ before, step before a = .error found := by
  induction todo generalizing settled with
  | nil => cases h
  | cons a todo ih =>
      rw [List.foldlM_cons] at h
      cases hstep : step settled a with
      | error other =>
          rw [hstep] at h
          cases h
          exact ⟨a, List.mem_cons_self, settled, hstep⟩
      | ok after =>
          rw [hstep] at h
          obtain ⟨b, hb, hfails⟩ := ih h
          exact ⟨b, List.mem_cons_of_mem _ hb, hfails⟩

/-- The nonterminals that a walk is inside of when it comes to `a`.  Each is there once and
reaches `a`. -/
structure Leads (next : Nat → List Nat) (count : Nat) (path : List Nat) (a : Nat) : Prop where
  nodup : path.Nodup
  below : ∀ b ∈ a :: path, b < count
  reaches : ∀ b ∈ path, Relation.TransGen (fun b c => c ∈ next b) b a

/-- The walk leads to its root along no steps. -/
theorem Leads.start {count a : Nat} (ha : a < count)
    : Leads next count [] a where
  nodup := List.nodup_nil
  below := by simpa using ha
  reaches := List.forall_mem_nil _

/-- A walk that enters a nonterminal for the first time goes on to its children. -/
theorem Leads.cons {count a b : Nat} {path : List Nat} (h : Leads next count path a)
    (hnew : a ∉ path) (hchild : b ∈ next a) (hb : b < count)
    : Leads next count (a :: path) b where
  nodup := List.nodup_cons.2 ⟨hnew, h.nodup⟩
  below := List.forall_mem_cons.2 ⟨hb, h.below⟩
  reaches := List.forall_mem_cons.2 ⟨.single hchild, fun c hc => (h.reaches c hc).tail hchild⟩

/-- The nonterminals of a path are not repeated, so no path is longer than their number. -/
theorem Leads.length_le {count a : Nat} {path : List Nat} (h : Leads next count path a)
    : path.length ≤ count := by
  have hrange : path ⊆ List.range count :=
    fun b hb => List.mem_range.2 (h.below b (List.mem_cons_of_mem _ hb))
  simpa using h.nodup.length_le_of_subset hrange

/-- A visit fails at a nonterminal that reaches itself.  The bound on the path is never met.  The
nonterminals on it are different ones, so there are no more of them than names. -/
theorem reaches_of_visit_error {count : Nat} (hnext : ∀ a, ∀ b ∈ next a, b < count)
    {bound : Nat} {path settled : List Nat} {a found : Nat} (hpath : Leads next count path a)
    (hbound : count < bound + path.length)
    (h : visit next bound path settled a = .error found)
    : found < count ∧ Relation.TransGen (fun b c => c ∈ next b) found found := by
  induction bound generalizing path settled a with
  | zero =>
      have := hpath.length_le
      omega
  | succ bound ih =>
      rw [visit] at h
      split at h
      · cases h
      · split at h
        · rename_i hmem
          rw [← Except.error.inj h]
          exact ⟨hpath.below a List.mem_cons_self, hpath.reaches a hmem⟩
        · rename_i hnew
          cases hfold : (next a).foldlM (visit next bound (a :: path)) settled with
          | ok after =>
              rw [hfold] at h
              cases h
          | error other =>
              rw [hfold] at h
              cases h
              obtain ⟨b, hchild, before, hfails⟩ := exists_step_of_foldlM_error hfold
              refine ih (hpath.cons hnew hchild (hnext a b hchild)) ?_ hfails
              rw [List.length_cons]
              omega

/-- What the walk reports lies on a cycle: it was met again while the steps out of it were being
followed. -/
theorem reaches_of_walk_error {count : Nat} (hnext : ∀ a, ∀ b ∈ next a, b < count) {found : Nat}
    (h : walk next count = .error found)
    : found < count ∧ Relation.TransGen (fun b c => c ∈ next b) found found := by
  obtain ⟨a, ha, settled, hfails⟩ := exists_step_of_foldlM_error h
  exact reaches_of_visit_error hnext (.start (List.mem_range.1 ha)) (by simp) hfails

/-- The children along which the walk goes are the unit steps.  Unit rules for terminals and pair
rules lead nowhere. -/
theorem mem_children_iff {rules : List (Rule Nat)} {a b : Nat}
    : b ∈ children rules a ↔ Rule.UnitStep rules a b := by
  rw [children, List.mem_filterMap, Rule.UnitStep]
  constructor
  · rintro ⟨⟨head, body⟩, hrule, hchild⟩
    rw [Option.ite_none_right_eq_some] at hchild
    obtain ⟨rfl, hchild⟩ := hchild
    cases body with
    | unit symbol =>
        cases symbol with
        | terminal tag => cases hchild
        | nonterminal c =>
            cases hchild
            exact hrule
    | pair left right => cases hchild
  · intro hrule
    exact ⟨_, hrule, if_pos rfl⟩

end UnitOrder

namespace Grammar

open Rule

/-- Rules fail to compile only at a nonterminal on a cycle of unit rules.  The walk goes over
numbers, and the cycle that it finds is one of the names as well. -/
theorem onUnitCycle_of_ofRules_error {rules : List (Rule String)} {error : GrammarError}
    (h : ofRules rules = .error error)
    : ∃ name, error = .unitCycle name ∧ OnUnitCycle rules name := by
  rcases ofRules_cases rules with ⟨_, hok, _⟩ | ⟨a, herror, hwalk⟩
  · cases hok.symm.trans h
  · obtain rfl := Except.error.inj (herror.symm.trans h)
    refine ⟨_, rfl, ?_⟩
    have hchildren
        : ∀ a, ∀ b ∈ UnitOrder.children (Numbering.number (Numbering.names rules) rules) a,
            b < (Numbering.names rules).length := by
      intro a b hb
      refine Numbering.lt_length_of_mem_names (UnitOrder.mem_children_iff.1 hb) ?_
      simp [Rule.names, Body.symbols, Symbol.names]
    obtain ⟨-, hreaches⟩ := UnitOrder.reaches_of_walk_error hchildren hwalk
    have hcycle : OnUnitCycle (Numbering.number (Numbering.names rules) rules) a :=
      Relation.TransGen.mono (fun _ _ => UnitOrder.mem_children_iff.1) _ _ hreaches
    simpa only [Numbering.map_getD_number] using
      hcycle.map fun a => (Numbering.names rules).getD a ""

/-- Rules that compile have no cycle of unit rules. -/
theorem not_onUnitCycle_of_ofRules {rules : List (Rule String)} {grammar : Grammar}
    (h : ofRules rules = .ok grammar) (name : String)
    : ¬ OnUnitCycle rules name := by
  intro hcycle
  have hnumbered := hcycle.map fun name => (Numbering.names rules).idxOf name
  rw [← Numbering.number, ← (parts_of_ofRules h).2] at hnumbered
  exact not_onUnitCycle_of_unitAcyclic grammar.acyclic _ hnumbered

/-- A text of rules fails to compile for a unit cycle exactly when some nonterminal derives itself
by unit rules, and the nonterminal that is reported does.  The walk stops only at a nonterminal on
its own path, and without a cycle every nonterminal it settles stands above those it leads to. -/
theorem compile_unitCycle_iff {text : String} {rules : List (Rule String)}
    (h : readText text = .ok rules)
    : ((∃ name, compile text = .error (.unitCycle name)) ↔ ∃ name, OnUnitCycle rules name)
      ∧ ∀ name, compile text = .error (.unitCycle name) → OnUnitCycle rules name := by
  have hreported : ∀ name, compile text = .error (.unitCycle name) → OnUnitCycle rules name := by
    intro name herror
    rw [compile_of_readText h] at herror
    obtain ⟨_, heq, hcycle⟩ := onUnitCycle_of_ofRules_error herror
    cases heq
    exact hcycle
  refine ⟨⟨fun ⟨name, herror⟩ => ⟨name, hreported name herror⟩, fun ⟨name, hcycle⟩ => ?_⟩,
    hreported⟩
  rw [compile_of_readText h]
  cases hrules : ofRules rules with
  | ok grammar => exact (not_onUnitCycle_of_ofRules hrules name hcycle).elim
  | error error =>
      obtain ⟨reported, rfl, _⟩ := onUnitCycle_of_ofRules_error hrules
      exact ⟨reported, rfl⟩

/-- Two nonterminals that the first rule does not lead to derive each other. -/
theorem compile_unitCycle_iff_unreachable
    : let text := "start = name\n\n# a loop\nb = c\nc = start b\nc = b\n"
      let rules : List (Rule String) :=
        [
          ⟨"start", .unit (.terminal .name)⟩,
          ⟨"b", .unit (.nonterminal "c")⟩,
          ⟨"c", .pair (.nonterminal "start") (.nonterminal "b")⟩,
          ⟨"c", .unit (.nonterminal "b")⟩
        ]
      readText text = .ok rules
      ∧ OnUnitCycle rules "c"
      ∧ (∃ name, compile text = .error (.unitCycle name))
      ∧ ∀ name, compile text = .error (.unitCycle name) → OnUnitCycle rules name := by
  intro text rules
  have hread : readText text = .ok rules := by decide +kernel
  have hfirst : UnitStep rules "c" "b" := by simp [UnitStep, rules]
  have hsecond : UnitStep rules "b" "c" := by simp [UnitStep, rules]
  have hcycle : OnUnitCycle rules "c" := .tail (.single hfirst) hsecond
  obtain ⟨hiff, hreported⟩ := compile_unitCycle_iff hread
  exact ⟨hread, hcycle, hiff.2 ⟨_, hcycle⟩, hreported⟩

end Grammar

end Formulary
