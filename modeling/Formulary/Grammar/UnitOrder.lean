import Formulary.Grammar.Rule

/-! Ordering nonterminals along unit rules.
A depth-first walk settles a nonterminal once everything it reaches by unit rules is settled, and
meets a nonterminal of its own path exactly when there is a cycle.  The order in which a
completed walk settles its nonterminals ranks each one above its unit children.
-/

namespace Formulary.UnitOrder

/-- The nonterminals that a nonterminal derives by one unit rule, in rule order. -/
def children (rules : List (Rule Nat)) (a : Nat) : List Nat :=
  rules.filterMap fun rule => if rule.head = a then rule.body.unitChild? else none

/-- Settles a nonterminal and what it reaches, adding to those already settled, or gives a
nonterminal that the walk came back to.  The first number bounds the length of the path. -/
def visit (next : Nat → List Nat) : Nat → List Nat → List Nat → Nat → Except Nat (List Nat)
  | 0, _, _, a => .error a
  | bound + 1, path, settled, a =>
      if a ∈ settled then .ok settled
      else if a ∈ path then .error a
      else ((next a).foldlM (visit next bound (a :: path)) settled).map (a :: ·)

/-- Settles the nonterminals below a number, in order. -/
def walk (next : Nat → List Nat) (count : Nat) : Except Nat (List Nat) :=
  (List.range count).foldlM (visit next (count + 1) []) []

/-- Every settled nonterminal stands before its children. -/
def Settled (next : Nat → List Nat) : List Nat → Prop
  | [] => True
  | a :: settled => (∀ b ∈ next a, b ∈ settled) ∧ Settled next settled

/-- The number of nonterminals settled by the time a given one first was. -/
def height : List Nat → Nat → Nat
  | [], _ => 0
  | a :: settled, b =>
      if b ∈ settled then height settled b else if b = a then settled.length + 1 else 0

/-- What a step of the walk keeps: it extends the settled nonterminals to settled ones. -/
def Extends (next : Nat → List Nat) (before after : List Nat) : Prop :=
  (∀ a ∈ before, a ∈ after) ∧ (Settled next before → Settled next after)

/-- A step that settles nothing keeps everything. -/
theorem Extends.refl (next : Nat → List Nat) (settled : List Nat)
    : Extends next settled settled :=
  ⟨fun _ h => h, id⟩

/-- Two steps one after the other keep what each of them keeps. -/
theorem Extends.trans {next : Nat → List Nat} {first second third : List Nat}
    (h : Extends next first second) (k : Extends next second third)
    : Extends next first third :=
  ⟨fun a ha => k.1 a (h.1 a ha), fun hs => k.2 (h.2 hs)⟩

/-- A fold of extending steps, each settling its own nonterminal, settles all of them.  What one
step settles stays settled in the later ones. -/
theorem extends_foldlM {next : Nat → List Nat}
    {step : List Nat → Nat → Except Nat (List Nat)}
    (hstep : ∀ a before after, step before a = .ok after → Extends next before after ∧ a ∈ after)
    (todo before after : List Nat) (h : todo.foldlM step before = .ok after)
    : Extends next before after ∧ ∀ a ∈ todo, a ∈ after := by
  induction todo generalizing before with
  | nil =>
      simp only [List.foldlM_nil, pure, Except.pure, Except.ok.injEq] at h
      subst h
      exact ⟨Extends.refl _ _, by simp⟩
  | cons a todo ih =>
      rw [List.foldlM_cons] at h
      cases hmid : step before a with
      | error e => simp [hmid, bind, Except.bind] at h
      | ok middle =>
          simp only [hmid, bind, Except.bind] at h
          obtain ⟨hext, hmem⟩ := hstep a before middle hmid
          obtain ⟨hrest, hall⟩ := ih middle h
          refine ⟨hext.trans hrest, fun b hb => ?_⟩
          rcases List.mem_cons.1 hb with rfl | hb
          · exact hrest.1 b hmem
          · exact hall b hb

/-- A visit that does not fail settles its nonterminal behind everything it leads to, by induction
on the depth that is left. -/
theorem extends_visit (next : Nat → List Nat) (bound : Nat) (path : List Nat) (a : Nat)
    (before after : List Nat) (h : visit next bound path before a = .ok after)
    : Extends next before after ∧ a ∈ after := by
  induction bound generalizing path a before after with
  | zero => simp [visit] at h
  | succ bound ih =>
      simp only [visit] at h
      split at h
      · rename_i hmem
        simp only [Except.ok.injEq] at h
        subst h
        exact ⟨Extends.refl _ _, hmem⟩
      · split at h
        · simp at h
        · cases hfold : (next a).foldlM (visit next bound (a :: path)) before with
          | error e => simp [hfold, Except.map] at h
          | ok middle =>
              simp only [hfold, Except.map, Except.ok.injEq] at h
              subst h
              obtain ⟨hext, hall⟩ :=
                extends_foldlM (fun b before after => ih (a :: path) b before after) _ _ _ hfold
              exact
                ⟨⟨fun b hb => List.mem_cons_of_mem _ (hext.1 b hb),
                    fun hs => ⟨hall, hext.2 hs⟩⟩,
                  List.mem_cons_self⟩

/-- No place in the list of what is settled lies beyond its length, by induction on the list. -/
theorem height_le_length (settled : List Nat) (a : Nat)
    : height settled a ≤ settled.length := by
  induction settled with
  | nil => simp [height]
  | cons b settled ih =>
      simp only [height, List.length_cons]
      split
      · omega
      · split <;> omega

/-- A settled list holds the children of its members. -/
theorem mem_of_mem_next {next : Nat → List Nat} {settled : List Nat}
    (h : Settled next settled) {a b : Nat} (ha : a ∈ settled) (hb : b ∈ next a)
    : b ∈ settled := by
  induction settled with
  | nil => simp at ha
  | cons c settled ih =>
      rcases List.mem_cons.1 ha with rfl | ha
      · exact List.mem_cons_of_mem _ (h.1 b hb)
      · exact List.mem_cons_of_mem _ (ih h.2 ha)

/-- In a settled list every member ranks above its children. -/
theorem height_lt_height {next : Nat → List Nat} {settled : List Nat}
    (h : Settled next settled) {a b : Nat} (ha : a ∈ settled) (hb : b ∈ next a)
    : height settled b < height settled a := by
  induction settled with
  | nil => simp at ha
  | cons c settled ih =>
      by_cases hmem : a ∈ settled
      · simp only [height, hmem, mem_of_mem_next h.2 hmem hb, if_true]
        exact ih h.2 hmem
      · obtain rfl : a = c := by simpa [hmem] using ha
        simp only [height, hmem, h.1 b hb, if_true, if_false]
        have := height_le_length settled b
        omega

/-- A completed walk settles every nonterminal below the count. -/
theorem settled_walk {next : Nat → List Nat} {count : Nat} {settled : List Nat}
    (h : walk next count = .ok settled)
    : Settled next settled ∧ ∀ a < count, a ∈ settled := by
  obtain ⟨hext, hall⟩ := extends_foldlM (extends_visit next (count + 1) []) _ _ _ h
  exact ⟨hext.2 trivial, fun a ha => hall a (List.mem_range.2 ha)⟩

end Formulary.UnitOrder
