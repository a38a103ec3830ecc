import Formulary.Proofs.Expr.Canonical
import Mathlib.Logic.Function.Iterate

/-! Equality of values as equality of normal forms.
A normal form shows what comparing looks at and nothing else: no groups, a variable or a constant
by its text alone, and all other values as they are built.  Two values are equal if and only if
they have the same normal form, so comparing is an equivalence that every constructor respects.
-/

namespace Formulary

/-- What comparing sees of a value. -/
inductive NormalForm where
  /-- A variable or a constant. -/
  | text (text : String)
  | call (name : String) (args : List NormalForm)
  | binary (form : Form) (op : BinaryOp) (left right : NormalForm)
  | unary (form : Form) (op : UnaryOp) (operand : NormalForm)
  | element (array : ArrayVariable) (indices : List NormalForm)

namespace Value

mutual
/-- The value without groups at any depth, and with only the texts of its variables and
constants. -/
def normalForm : Value → NormalForm
  | var v => .text v.name
  | constant text => .text text
  | parens inner => inner.normalForm
  | call name args => .call name (normalFormAll args)
  | binary form op left right => .binary form op left.normalForm right.normalForm
  | unary form op operand => .unary form op operand.normalForm
  | element array indices => .element array (normalFormAll indices)

/-- The normal forms of values, in order. -/
def normalFormAll : List Value → List NormalForm
  | [] => []
  | value :: values => value.normalForm :: normalFormAll values
end

/-- Values side by side have their normal forms one by one, by induction on the first list. -/
@[simp]
theorem normalFormAll_append (first second : List Value)
    : normalFormAll (first ++ second) = normalFormAll first ++ normalFormAll second := by
  induction first with
  | nil => rfl
  | cons value first ih => simp [normalFormAll, ih]

-----------------------------------------------------------------------------------------
-- Comparing values and comparing normal forms
-----------------------------------------------------------------------------------------

/-- Taking the groups off a value leaves its normal form, by induction on the groups. -/
@[simp]
theorem normalForm_ungrouped (value : Value)
    : value.ungrouped.normalForm = value.normalForm := by
  induction value using ungrouped.induct with
  | case1 inner ih => rw [ungrouped, normalForm, ih]
  | case2 value hvalue =>
      rw [ungrouped]
      exact hvalue

/-- No group is left around a value when all have been taken off. -/
theorem ungrouped_ne_parens (value inner : Value)
    : value.ungrouped ≠ parens inner := by
  induction value using ungrouped.induct with
  | case1 value ih => rwa [ungrouped]
  | case2 value hvalue =>
      rw [ungrouped]
      · exact hvalue inner
      · exact hvalue

/-- The text of a value that is no group is its whole normal form, if it has one. -/
theorem nameText?_eq_some_iff {value : Value} {text : String}
    : value.ungrouped.nameText? = some text ↔ value.normalForm = .text text := by
  rw [← normalForm_ungrouped value]
  cases hvalue : value.ungrouped with
  | parens inner => exact (ungrouped_ne_parens value inner hvalue).elim
  | _ => simp [nameText?, normalForm]

mutual
/-- Values compare by their normal forms, by induction on the first and cases on the second without
the groups around it. -/
theorem same_iff (value other : Value)
    : value.same other = true ↔ value.normalForm = other.normalForm := by
  cases value with
  | var v =>
      rw [same, beq_iff_eq, nameText?_eq_some_iff, normalForm, eq_comm]
  | constant text =>
      rw [same, beq_iff_eq, nameText?_eq_some_iff, normalForm, eq_comm]
  | parens inner =>
      rw [same, normalForm]
      exact same_iff inner other
  | call name args =>
      have hargs := sameAll_iff args
      rw [same, ← normalForm_ungrouped other]
      cases hother : other.ungrouped with
      | parens inner => exact (ungrouped_ne_parens other inner hother).elim
      | _ => simp [normalForm, hargs]
  | binary form op left right =>
      have hleft := same_iff left
      have hright := same_iff right
      rw [same, ← normalForm_ungrouped other]
      cases hother : other.ungrouped with
      | parens inner => exact (ungrouped_ne_parens other inner hother).elim
      | _ => simp [normalForm, hleft, hright, and_assoc]
  | unary form op operand =>
      have hoperand := same_iff operand
      rw [same, ← normalForm_ungrouped other]
      cases hother : other.ungrouped with
      | parens inner => exact (ungrouped_ne_parens other inner hother).elim
      | _ => simp [normalForm, hoperand, and_assoc]
  | element array indices =>
      have hindices := sameAll_iff indices
      rw [same, ← normalForm_ungrouped other]
      cases hother : other.ungrouped with
      | parens inner => exact (ungrouped_ne_parens other inner hother).elim
      | _ => simp [normalForm, hindices]
termination_by sizeOf value

/-- Values side by side are compared one by one, and all of them must have the same normal forms. -/
theorem sameAll_iff (values others : List Value)
    : sameAll values others = true ↔ normalFormAll values = normalFormAll others := by
  cases values with
  | nil => cases others <;> simp [sameAll, normalFormAll]
  | cons value values =>
      cases others with
      | nil => simp [sameAll, normalFormAll]
      | cons other others =>
          simp [sameAll, normalFormAll, same_iff value other, sameAll_iff values others]
termination_by sizeOf values
end

/-- Values are equal exactly if their normal forms are. -/
theorem beq_iff_normalForm_eq {value other : Value}
    : (value == other) = true ↔ value.normalForm = other.normalForm :=
  same_iff value other

/-- Values of the same normal form are alike to every comparison. -/
theorem beq_congr {value value' other other' : Value} (h : value.normalForm = value'.normalForm)
    (hother : other.normalForm = other'.normalForm)
    : (value == other) = (value' == other') := by
  rw [Bool.eq_iff_iff, beq_iff_normalForm_eq, beq_iff_normalForm_eq, h, hother]

-----------------------------------------------------------------------------------------
-- Parts in their places
-----------------------------------------------------------------------------------------

/-- A value with one of its parts left out. -/
inductive Place where
  | group
  | argument (name : String) (before after : List Value)
  | leftOperand (form : Form) (op : BinaryOp) (right : Value)
  | rightOperand (form : Form) (op : BinaryOp) (left : Value)
  | operand (form : Form) (op : UnaryOp)
  | index (array : ArrayVariable) (before after : List Value)

/-- The value with a part in its place. -/
def Place.fill : Place → Value → Value
  | group, part => parens part
  | argument name before after, part => call name (before ++ part :: after)
  | leftOperand form op right, part => binary form op part right
  | rightOperand form op left, part => binary form op left part
  | operand form op, part => unary form op part
  | index array before after, part => element array (before ++ part :: after)

/-- What stands in a place shows in the normal form only by its own. -/
theorem normalForm_fill {part other : Value} (h : part.normalForm = other.normalForm)
    (place : Place)
    : (place.fill part).normalForm = (place.fill other).normalForm := by
  cases place <;> simp [Place.fill, normalForm, normalFormAll, h]

/-- The same holds of a place within a place, at any depth. -/
theorem normalForm_foldr_fill {part other : Value} (h : part.normalForm = other.normalForm)
    (places : List Place)
    : (places.foldr Place.fill part).normalForm = (places.foldr Place.fill other).normalForm := by
  induction places with
  | nil => exact h
  | cons place places ih => exact normalForm_fill ih place

/-- Any number of groups around a value leaves its normal form, by induction on the number. -/
@[simp]
theorem normalForm_iterate_parens (count : Nat) (value : Value)
    : (parens^[count] value).normalForm = value.normalForm := by
  induction count with
  | zero => rfl
  | succ count ih => rw [Function.iterate_succ_apply', normalForm, ih]

/-- The form of an operation, behind any groups. -/
def form? (value : Value) : Option Form :=
  match value.ungrouped with
  | binary form _ _ _ => some form
  | unary form _ _ => some form
  | _ => none

/-- The form of an operation shows in its normal form. -/
theorem form?_congr {value other : Value} (h : value.normalForm = other.normalForm)
    : value.form? = other.form? := by
  rw [← normalForm_ungrouped value, ← normalForm_ungrouped other] at h
  rw [form?, form?]
  cases hvalue : value.ungrouped <;> cases hother : other.ungrouped <;>
    simp_all [normalForm, ungrouped_ne_parens]

-----------------------------------------------------------------------------------------
-- The laws of equality
-----------------------------------------------------------------------------------------

/-- Two values are equal if and only if they have the same normal form.  So equality is an
equivalence, equal parts may stand for each other in any place, groups around either side change
nothing, and no bare operation equals an enclosed one. -/
theorem beq_decides_normalForm
    : (∀ value other : Value, (value == other) = true ↔ value.normalForm = other.normalForm)
      ∧ (∀ value : Value, (value == value) = true)
      ∧ (∀ value other : Value, (value == other) = (other == value))
      ∧ (∀ first second third : Value,
          (first == second) = true → (second == third) = true → (first == third) = true)
      ∧ (∀ (places : List Place) (part other : Value),
          (part == other) = true
          → (places.foldr Place.fill part == places.foldr Place.fill other) = true)
      ∧ (∀ (value other : Value) (first second : Nat),
          (parens^[first] value == parens^[second] other) = (value == other))
      ∧ ∀ value other : Value,
          value.form? = some .bare → other.form? = some .enclosed → (value == other) = false := by
  refine ⟨fun _ _ => beq_iff_normalForm_eq, fun value => beq_iff_normalForm_eq.2 rfl, ?_, ?_, ?_,
    ?_, ?_⟩
  · intro value other
    rw [Bool.eq_iff_iff, beq_iff_normalForm_eq, beq_iff_normalForm_eq, eq_comm]
  · intro first second third hfirst hsecond
    rw [beq_iff_normalForm_eq] at hfirst hsecond ⊢
    exact hfirst.trans hsecond
  · intro places part other h
    rw [beq_iff_normalForm_eq] at h ⊢
    exact normalForm_foldr_fill h places
  · intro value other first second
    exact beq_congr (normalForm_iterate_parens first value) (normalForm_iterate_parens second other)
  · intro value other hbare henclosed
    rw [← Bool.not_eq_true, beq_iff_normalForm_eq]
    intro h
    rw [form?_congr h, henclosed] at hbare
    cases hbare

/-- A sum with groups and a number in it, in a call inside an element and as a condition. -/
theorem beq_decides_normalForm_sum
    : let sum := binary .enclosed .add (named "a") (named "1")
      let grouped := parens (binary .enclosed .add (parens (var ⟨"a", "int"⟩)) (constant "1"))
      let places := [.index ⟨"D", "double", 1⟩ [] [], .argument "f" [named "x"] []]
      let condition := parens (binary .bare .add (named "a") (named "1"))
      sum.normalForm = grouped.normalForm
      ∧ (sum == grouped) = true
      ∧ (places.foldr Place.fill sum == places.foldr Place.fill grouped) = true
      ∧ (condition.form? = some .bare ∧ sum.form? = some .enclosed)
      ∧ (condition == sum) = false := by
  intro sum grouped places condition
  obtain ⟨hiff, -, -, -, hplaces, -, hforms⟩ := beq_decides_normalForm
  have hnormal : sum.normalForm = grouped.normalForm := rfl
  have hequal := (hiff sum grouped).2 hnormal
  exact ⟨hnormal, hequal, hplaces places sum grouped hequal, ⟨rfl, rfl⟩,
    hforms condition sum rfl rfl⟩

end Value

end Formulary
