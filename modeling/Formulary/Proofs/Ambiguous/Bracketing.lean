import Mathlib.Combinatorics.Enumerative.Catalan.Basic
import Mathlib.Data.List.FinRange

/-! Bracketings of a chain of operands.
With an operator between any two neighbours, brackets choose which operator is applied last and
then bracket both sides of it.  The bracketings are ordered by the place of that operator, then by
the left side, then by the right side, and there are as many as the Catalan number says.
-/

namespace Formulary

/-- A way to bracket a chain: a single operand, or an operator between two bracketed parts. -/
inductive Bracketing where
  | operand
  | operation (left right : Bracketing)
deriving DecidableEq, Repr

namespace Bracketing

def operators : Bracketing → Nat
  | operand => 0
  | operation left right => left.operators + 1 + right.operators

/-- The number of operands and operators in the chain. -/
def width (bracketing : Bracketing) : Nat :=
  2 * bracketing.operators + 1

/-- The order of bracketings of one chain: by the place of the last operator, then by the left
part, then by the right part. -/
inductive Before : Bracketing → Bracketing → Prop where
  | root {left right otherLeft otherRight : Bracketing}
    (hroot : left.operators < otherLeft.operators)
    : Before (operation left right) (operation otherLeft otherRight)
  | left {left right otherLeft otherRight : Bracketing}
    (hroot : left.operators = otherLeft.operators) (hleft : Before left otherLeft)
    : Before (operation left right) (operation otherLeft otherRight)
  | right {left right otherRight : Bracketing} (hright : Before right otherRight)
    : Before (operation left right) (operation left otherRight)

/-- No bracketing comes before itself, by induction on the comparison: it ends at two different
roots. -/
theorem Before.ne {first second : Bracketing} (h : Before first second)
    : first ≠ second := by
  induction h with
  | root hroot =>
      rintro heq
      rw [(operation.inj heq).1] at hroot
      exact Nat.lt_irrefl _ hroot
  | left _ _ ih => exact fun heq => ih (operation.inj heq).1
  | right _ ih => exact fun heq => ih (operation.inj heq).2

/-- No bracketing stands both before and behind another one.  The order compares the places of the
roots, then the left parts, then the right ones, and each of these comparisons goes one way. -/
theorem Before.asymm {first second : Bracketing} (h : Before first second)
    : ¬ Before second first := by
  induction h with
  | root hroot =>
      rintro (hback | ⟨hback, _⟩ | _)
      · exact Nat.lt_asymm hroot hback
      · exact Nat.ne_of_gt hroot hback
      · exact Nat.lt_irrefl _ hroot
  | left hroot hleft ih =>
      rintro (hback | ⟨_, hback⟩ | _)
      · exact Nat.ne_of_gt hback hroot
      · exact ih hback
      · exact hleft.ne rfl
  | right _ ih =>
      rintro (hback | ⟨_, hback⟩ | hback)
      · exact Nat.lt_irrefl _ hback
      · exact hback.ne rfl
      · exact ih hback

/-- The bracketings of a chain with so many operators, in their order. -/
def all : Nat → List Bracketing
  | 0 => [operand]
  | count + 1 =>
      (List.range (count + 1)).attach.flatMap fun ⟨root, _hroot⟩ =>
        (all root).flatMap fun left => (all (count - root)).map (operation left)
decreasing_by
  all_goals
    have := List.mem_range.1 _hroot
    omega

/-- The bracketings with one more operator, by the place of the root and then by the two sides. -/
theorem all_succ (count : Nat)
    : all (count + 1)
      = (List.range (count + 1)).flatMap fun root =>
          (all root).flatMap fun left => (all (count - root)).map (operation left) := by
  rw [all, List.flatMap_subtype, List.unattach_attach]
  exact fun _ _ => rfl

/-- A bracketing has its root at one of the operators, with bracketings of the right sizes on both
sides. -/
theorem mem_all_succ_iff {count : Nat} {bracketing : Bracketing}
    : bracketing ∈ all (count + 1)
      ↔ ∃ root < count + 1, ∃ left ∈ all root, ∃ right ∈ all (count - root),
          operation left right = bracketing := by
  simp only [all_succ, List.mem_flatMap, List.mem_map, List.mem_range]

/-- The list holds the bracketings with the given number of operators and no others.  By induction
on the bracketing: its root says how many operators stand on the left, and the rest of them stand on
the right. -/
theorem mem_all_iff {count : Nat} {bracketing : Bracketing}
    : bracketing ∈ all count ↔ bracketing.operators = count := by
  induction bracketing generalizing count with
  | operand =>
      cases count with
      | zero => simp [all, operators]
      | succ count => simp [mem_all_succ_iff, operators]
  | operation left right ihLeft ihRight =>
      cases count with
      | zero => simp [all, operators]
      | succ count =>
          simp only [mem_all_succ_iff, operation.injEq, operators]
          constructor
          · rintro ⟨root, hroot, _, hleft, _, hright, rfl, rfl⟩
            have hleft := ihLeft.1 hleft
            have hright := ihRight.1 hright
            omega
          · intro h
            exact ⟨left.operators, by omega, left, ihLeft.2 rfl, right, ihRight.2 (by omega),
              rfl, rfl⟩

/-- There are as many bracketings as the Catalan number says, by induction on the operators. -/
theorem length_all (count : Nat)
    : (all count).length = catalan count := by
  induction count using Nat.strong_induction_on with
  | h count ih =>
      cases count with
      | zero => simp [all]
      | succ count =>
          rw [all_succ, List.length_flatMap, catalan_succ, Fin.sum_univ_def,
            ← List.map_coe_finRange_eq_range, List.map_map]
          refine congrArg List.sum (List.map_congr_left fun root _ => ?_)
          simp [List.length_flatMap, ih root (by omega), ih (count - root) (by omega)]

/-- Any number of operators can be bracketed, since no Catalan number is zero. -/
theorem all_ne_nil (count : Nat)
    : all count ≠ [] := by
  intro hnil
  have hpos := Nat.centralBinom_ne_zero count
  rw [← succ_mul_catalan_eq_centralBinom, ← length_all, hnil] at hpos
  exact hpos (Nat.mul_zero _)

/-- Every bracketing in the list stands before those that come later.  The list goes through the
places of the root first, then through the left parts and the right ones, and so does the order. -/
theorem pairwise_all (count : Nat)
    : (all count).Pairwise Before := by
  induction count using Nat.strong_induction_on with
  | h count ih =>
      cases count with
      | zero => simp [all]
      | succ count =>
          rw [all_succ, List.pairwise_flatMap]
          constructor
          · intro root hroot
            have hlt := List.mem_range.1 hroot
            rw [List.pairwise_flatMap]
            constructor
            · intro left _
              exact (ih (count - root) (by omega)).map _ fun _ _ => .right
            · refine (ih root hlt).imp_of_mem fun {left other} hleft hother hbefore => ?_
              have hsize := (mem_all_iff.1 hleft).trans (mem_all_iff.1 hother).symm
              simp only [List.forall_mem_map]
              exact fun _ _ _ _ => .left hsize hbefore
          · refine List.pairwise_lt_range.imp fun {root otherRoot} hlt => ?_
            simp only [List.forall_mem_flatMap, List.forall_mem_map]
            intro left hleft _ _ other hother _ _
            refine .root ?_
            rwa [mem_all_iff.1 hleft, mem_all_iff.1 hother]

end Bracketing

end Formulary
