import Formulary.Expr.Value
import Formulary.Proofs.Token.Pattern

/-! Values that can be written as arithmetic, and the form in which they are read back.
A regrouped value has a group directly around each enclosed operation and only variables of the
default type.  Regrouping shows neither in the written form nor to the comparison of values.
-/

namespace Formulary.Value

-----------------------------------------------------------------------------------------
-- Regrouping
-----------------------------------------------------------------------------------------

mutual
/-- The value with one group around every enclosed operation that has none directly around it, and
all variables of the default type.  The flag tells whether a group is around the whole value. -/
def regroup (grouped : Bool) : Value → Value
  | var v => named v.name
  | constant text => constant text
  | parens inner => parens (inner.regroup true)
  | call name args => call name (regroupAll args)
  | binary .enclosed op left right =>
      if grouped then binary .enclosed op (left.regroup false) (right.regroup false)
      else parens (binary .enclosed op (left.regroup false) (right.regroup false))
  | binary .bare op left right => binary .bare op (left.regroup false) (right.regroup false)
  | unary form op operand => unary form op (operand.regroup false)
  | element array indices => element array (regroupAll indices)

/-- The regrouped forms of values that no group is around. -/
def regroupAll : List Value → List Value
  | [] => []
  | value :: values => value.regroup false :: regroupAll values
end

/-- Regrouping inside a group keeps whether a value encloses itself. -/
theorem isSelfEnclosed_regroup_true (value : Value)
    : (value.regroup true).isSelfEnclosed = value.isSelfEnclosed := by
  cases value with
  | binary form op left right => cases form <;> simp [regroup, isSelfEnclosed]
  | _ => simp [regroup, isSelfEnclosed, named]

/-- A group directly around an enclosed operation is the one that regrouping would add. -/
theorem regroup_parens_of_isSelfEnclosed {inner : Value} (h : inner.isSelfEnclosed = true)
    (grouped : Bool)
    : (parens inner).regroup grouped = inner.regroup false := by
  cases inner with
  | binary form op left right =>
      cases form with
      | enclosed => simp [regroup]
      | bare => cases h
  | _ => cases h

/-- A value that does not enclose itself is regrouped alike inside a group and outside. -/
theorem regroup_true_eq {value : Value} (h : value.isSelfEnclosed = false)
    : value.regroup true = value.regroup false := by
  cases value with
  | binary form op left right =>
      cases form with
      | enclosed => cases h
      | bare => simp [regroup]
  | _ => simp [regroup]

mutual
/-- A group around an enclosed operation adds nothing to what is written.  Regrouping adds no other
groups, so by induction on the value all is written as before. -/
theorem render_regroup (value : Value) (grouped : Bool)
    : (value.regroup grouped).render = value.render := by
  cases value with
  | var v => simp [regroup, named, render]
  | constant text => simp [regroup]
  | parens inner =>
      simp only [regroup, render, isSelfEnclosed_regroup_true]
      rw [render_regroup inner true]
  | call name args => simp [regroup, render, renderAll_regroupAll args]
  | binary form op left right =>
      have hleft := render_regroup left false
      have hright := render_regroup right false
      cases form with
      | enclosed => cases grouped <;> simp [regroup, render, isSelfEnclosed, hleft, hright]
      | bare => simp [regroup, render, hleft, hright]
  | unary form op operand =>
      have hoperand := render_regroup operand false
      cases form <;> simp [regroup, render, hoperand]
  | element array indices => simp [regroup, render, renderIndices_regroupAll indices]
termination_by sizeOf value

/-- Values side by side are written as before after regrouping. -/
theorem renderAll_regroupAll (values : List Value)
    : renderAll (regroupAll values) = renderAll values := by
  cases values with
  | nil => simp [regroupAll]
  | cons value values =>
      simp [regroupAll, renderAll, render_regroup value false, renderAll_regroupAll values]
termination_by sizeOf values

/-- Indices are written as before after regrouping. -/
theorem renderIndices_regroupAll (values : List Value)
    : renderIndices (regroupAll values) = renderIndices values := by
  cases values with
  | nil => simp [regroupAll]
  | cons value values =>
      simp [regroupAll, renderIndices, render_regroup value false, renderIndices_regroupAll values]
termination_by sizeOf values
end

/-- A group on the right plays no part in comparing values. -/
theorem same_parens (value other : Value)
    : value.same (parens other) = value.same other := by
  induction value using ungrouped.induct with
  | case1 inner ih => simpa [same] using ih
  | case2 value hvalue =>
      cases value with
      | parens inner => exact absurd rfl (hvalue inner)
      | _ => simp [same, ungrouped]

mutual
/-- A value equals its regrouped form.  Comparing looks through groups, and regrouping changes
nothing else but the types of variables, which are not compared. -/
theorem same_regroup (value : Value) (grouped : Bool)
    : (value.regroup grouped).same value = true := by
  cases value with
  | var v => simp [regroup, named, same, ungrouped, nameText?]
  | constant text => simp [regroup, same, ungrouped, nameText?]
  | parens inner =>
      rw [regroup, same, same_parens]
      exact same_regroup inner true
  | call name args => simp [regroup, same, ungrouped, sameAll_regroupAll args]
  | binary form op left right =>
      have hleft := same_regroup left false
      have hright := same_regroup right false
      cases form with
      | enclosed => cases grouped <;> simp [regroup, same, ungrouped, hleft, hright]
      | bare => simp [regroup, same, ungrouped, hleft, hright]
  | unary form op operand =>
      simp [regroup, same, ungrouped, same_regroup operand false]
  | element array indices => simp [regroup, same, ungrouped, sameAll_regroupAll indices]
termination_by sizeOf value

/-- Values side by side stay the same up to groups. -/
theorem sameAll_regroupAll (values : List Value)
    : sameAll (regroupAll values) values = true := by
  cases values with
  | nil => simp [regroupAll, sameAll]
  | cons value values =>
      simp [regroupAll, sameAll, same_regroup value false, sameAll_regroupAll values]
termination_by sizeOf values
end

-----------------------------------------------------------------------------------------
-- Canonical values
-----------------------------------------------------------------------------------------

/-- One or more identifiers joined by dots. -/
def IsPath (name : String) : Prop :=
  ∃ parts : List String,
    parts ≠ []
    ∧ (∀ part ∈ parts, Lexeme.IsIdentifier part.toList)
    ∧ name = ".".intercalate parts

/-- Values that are built by arithmetic from variables, numbers and calls alone. -/
inductive Canonical : Value → Prop where
  | var {name type : String} (hname : IsPath name)
    : Canonical (.var ⟨name, type⟩)
  | constant {text : String} (htext : Lexeme.IsNumber text.toList)
    : Canonical (.constant text)
  | parens {inner : Value} (below : Canonical inner)
    : Canonical (.parens inner)
  | call {name : String} {args : List Value} (hname : Lexeme.IsIdentifier name.toList)
    (hargs : ∀ arg ∈ args, Canonical arg)
    : Canonical (.call name args)
  | binary {op : BinaryOp} {left right : Value} (hop : op ∈ [.add, .sub, .mul, .div])
    (hleft : Canonical left) (hright : Canonical right)
    : Canonical (.binary .enclosed op left right)

end Formulary.Value
