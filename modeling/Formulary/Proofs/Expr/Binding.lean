import Formulary.Proofs.Expr.Row

/-! What a written value means to a reader who knows how tightly each operator binds.
The reader puts the operands of a row together from left to right, and an operator takes from what
is there already as much as the operators to its left leave to it.  A value whose bare operations
nest this way is read as it is built, up to groups and to whether its operations stand bare.
-/

namespace Formulary

open Lexeme

-----------------------------------------------------------------------------------------
-- What a value means
-----------------------------------------------------------------------------------------

namespace NormalForm

mutual
/-- The normal form with all operations enclosed. -/
def enclosed : NormalForm → NormalForm
  | text shown => .text shown
  | call name args => .call name (enclosedAll args)
  | binary _ op left right => .binary .enclosed op left.enclosed right.enclosed
  | unary _ op operand => .unary .enclosed op operand.enclosed
  | element array indices => .element array (enclosedAll indices)

def enclosedAll : List NormalForm → List NormalForm
  | [] => []
  | form :: forms => form.enclosed :: enclosedAll forms
end

end NormalForm

namespace Value

/-- The structure of a value without its groups, the types of variables, the difference between
variables and constants, and that between bare and enclosed operations. -/
def meaning (value : Value) : NormalForm :=
  value.normalForm.enclosed

def meaningAll (values : List Value) : List NormalForm :=
  NormalForm.enclosedAll (normalFormAll values)

/-- Groups have no meaning of their own. -/
@[simp]
theorem meaning_parens (inner : Value)
    : (parens inner).meaning = inner.meaning := by
  rw [meaning, normalForm, meaning]

/-- Whether a binary operation stands bare does not change its meaning. -/
@[simp]
theorem meaning_binary (form : Form) (op : BinaryOp) (left right : Value)
    : (binary form op left right).meaning
      = .binary .enclosed op left.meaning right.meaning := by
  rw [meaning, normalForm, NormalForm.enclosed, meaning, meaning]

/-- Whether a unary operation stands bare does not change its meaning. -/
@[simp]
theorem meaning_unary (form : Form) (op : UnaryOp) (operand : Value)
    : (unary form op operand).meaning = .unary .enclosed op operand.meaning := by
  rw [meaning, normalForm, NormalForm.enclosed, meaning]

/-- A call means the same name applied to what its arguments mean. -/
@[simp]
theorem meaning_call (name : String) (args : List Value)
    : (call name args).meaning = .call name (meaningAll args) := by
  rw [meaning, normalForm, NormalForm.enclosed, meaningAll]

/-- Values side by side have their meanings one by one. -/
@[simp]
theorem meaningAll_cons (value : Value) (values : List Value)
    : meaningAll (value :: values) = value.meaning :: meaningAll values := by
  rw [meaningAll, normalFormAll, NormalForm.enclosedAll, meaning, meaningAll]

-----------------------------------------------------------------------------------------
-- Values of names, numbers and operators
-----------------------------------------------------------------------------------------

/-- Values that are built with any operators from variables, unsigned numbers and calls. -/
inductive Expressible : Value → Prop where
  | var {name type : String} (hname : IsIdentifier name.toList)
    : Expressible (.var ⟨name, type⟩)
  | constant {text : String} (htext : IsNumber text.toList) (hsign : Stops isSign text.toList)
    : Expressible (.constant text)
  | parens {inner : Value} (below : Expressible inner)
    : Expressible (.parens inner)
  | call {name : String} {args : List Value} (hname : IsIdentifier name.toList)
    (hargs : ∀ arg ∈ args, Expressible arg)
    : Expressible (.call name args)
  | binary {form : Form} {op : BinaryOp} {left right : Value} (hleft : Expressible left)
    (hright : Expressible right)
    : Expressible (.binary form op left right)
  | unary {form : Form} {op : UnaryOp} {operand : Value} (below : Expressible operand)
    : Expressible (.unary form op operand)

mutual
/-- Holds of a value if the test holds of all its parts. -/
def Everywhere (p : Value → Prop) : Value → Prop
  | var v => p (var v)
  | constant text => p (constant text)
  | parens inner => p (parens inner) ∧ inner.Everywhere p
  | call name args => p (call name args) ∧ EverywhereAll p args
  | binary form op left right =>
      p (binary form op left right) ∧ left.Everywhere p ∧ right.Everywhere p
  | unary form op operand => p (unary form op operand) ∧ operand.Everywhere p
  | element array indices => p (element array indices) ∧ EverywhereAll p indices

def EverywhereAll (p : Value → Prop) : List Value → Prop
  | [] => True
  | value :: values => value.Everywhere p ∧ EverywhereAll p values
end

/-- A negation without parentheses does not stand in front of another minus. -/
def SignApart : Value → Prop
  | unary .enclosed .negative operand => operand.render.toList.head? ≠ some '-'
  | _ => True

/-- The operator of a bare operation between two operands. -/
def bareOp? : Value → Option BinaryOp
  | binary .bare op _ _ => some op
  | _ => none

/-- A bare operation stands as an operand only where its operator binds more tightly than the one
it is an operand of, or as tightly when it is on the left. -/
def NestsBy (precedence : BinaryOp → Nat) : Value → Prop
  | binary _ op left right =>
      (∀ inner ∈ left.bareOp?, precedence op ≤ precedence inner)
      ∧ ∀ inner ∈ right.bareOp?, precedence op < precedence inner
  | unary .enclosed _ operand => operand.bareOp? = none
  | _ => True

/-- A part of a word can stand inside an operand, as it is no blank, comma or parenthesis. -/
theorem isInner_of_isWordPart {c : Char} (h : isWordPart c = true)
    : isInner c = true := by
  by_contra hinner
  simp only [isInner, Bool.not_eq_true, Bool.not_eq_false', Bool.or_eq_true, beq_iff_eq] at hinner
  rcases hinner with ((rfl | rfl) | rfl) | rfl <;> exact absurd h (by decide)

/-- An identifier is an operand of its own, as it begins with a letter or an underscore. -/
theorem isOperandWord_of_isIdentifier {name : String} (h : IsIdentifier name.toList)
    : IsOperandWord name := by
  refine ⟨fun c hc => isInner_of_isWordPart (isWordPart_of_isIdentifier h c hc), ?_⟩
  cases hname : name.toList with
  | nil => exact (hname ▸ h).elim
  | cons c rest =>
      refine ⟨c, rest, rfl, fun hc => ?_⟩
      have hstart : isIdentifierStart c = true := (hname ▸ h).1
      simp only [List.mem_cons, List.not_mem_nil, or_false] at hc
      rcases hc with rfl | rfl | rfl <;> exact absurd hstart (by decide)

/-- An unsigned number is an operand of its own, as it begins with a digit or a dot. -/
theorem isOperandWord_of_isNumber {text : String} (h : IsNumber text.toList)
    (hsign : Stops isSign text.toList)
    : IsOperandWord text := by
  refine ⟨fun c hc => ?_, ?_⟩
  · rcases isWordPart_or_isSign_of_isNumber h c hc with hword | hsign
    · exact isInner_of_isWordPart hword
    · simp only [isSign, Bool.or_eq_true, beq_iff_eq] at hsign
      rcases hsign with rfl | rfl <;> decide
  · obtain ⟨c, rest, htext, hc⟩ := exists_head_of_isNumber h
    refine ⟨c, rest, htext, fun hmem => ?_⟩
    have hunsigned : isSign c = false := hsign c (by rw [htext]; rfl)
    simp only [List.mem_cons, List.not_mem_nil, or_false] at hmem
    rcases hmem with rfl | rfl | rfl <;> revert hc hunsigned <;> decide

end Value

namespace Row

/-- Rows are legible together exactly if both are, by induction on the first. -/
theorem legible_join {row other : Row} (op : BinaryOp)
    : (row.join op other).Legible ↔ row.Legible ∧ other.Legible := by
  fun_induction join row op other with
  | case1 item op other => rw [Row.Legible, Row.Legible]
  | case2 item op' row op other ih => rw [Row.Legible, Row.Legible, ih, and_assoc]

/-- A row stays legible with an operator in front, unless two minus signs come together. -/
theorem legible_prepend {row : Row} {op : UnaryOp} (h : row.Legible)
    (hop : op = .negative → row.text.head? ≠ some '-')
    : (row.prepend op).Legible := by
  cases row with
  | single item => exact ⟨h, hop⟩
  | joined item op' row =>
      refine ⟨⟨h.1, fun hnegative => ?_⟩, h.2⟩
      have hhead := hop hnegative
      rw [text] at hhead
      cases htext : item.text with
      | nil => simp
      | cons c rest => simpa [htext] using hhead

end Row

namespace Value

/-- The rows of arguments are legible if those of their values are, by induction on the list. -/
theorem legibleAll_rowAll {values : List Value}
    (h : ∀ value ∈ values, value.Everywhere SignApart → value.row.Legible)
    (hsigns : EverywhereAll SignApart values)
    : Row.LegibleAll (rowAll values) := by
  induction values with
  | nil => trivial
  | cons value values ih =>
      obtain ⟨hfirst, hrest⟩ := List.forall_mem_cons.1 h
      exact ⟨hfirst hsigns.1, ih hrest hsigns.2⟩

/-- The row of such a value can be told from its text.  Its names and numbers are words of their
own, and no minus sign runs into another one. -/
theorem Expressible.legible_row {value : Value} (h : Expressible value)
    (hsigns : value.Everywhere SignApart)
    : value.row.Legible := by
  induction h with
  | var hname => exact isOperandWord_of_isIdentifier hname
  | constant htext hsign => exact isOperandWord_of_isNumber htext hsign
  | @parens inner _ ih =>
      rw [row]
      split
      · exact ih hsigns.2
      · exact ih hsigns.2
  | @call name args hname _ ih =>
      exact ⟨isOperandWord_of_isIdentifier hname, legibleAll_rowAll ih hsigns.2⟩
  | @binary form op left right _ _ ihLeft ihRight =>
      have hjoined := (Row.legible_join op).2 ⟨ihLeft hsigns.2.1, ihRight hsigns.2.2⟩
      cases form with
      | enclosed => exact hjoined
      | bare => exact hjoined
  | @unary form op operand _ ih =>
      cases form with
      | enclosed =>
          refine Row.legible_prepend (ih hsigns.2) ?_
          rintro rfl
          rw [text_row]
          exact hsigns.1
      | bare => exact ⟨ih hsigns.2, fun _ => by simp [Item.text]⟩

/-- Two such values are written alike exactly if they are the same row, as both rows can be told
from their texts. -/
theorem render_eq_iff_row_eq {value other : Value} (hvalue : Expressible value)
    (hother : Expressible other) (hsigns : value.Everywhere SignApart)
    (hsigns' : other.Everywhere SignApart)
    : value.render = other.render ↔ value.row = other.row := by
  have hends : EndsRow [] := fun _ hc => by simp at hc
  rw [← String.toList_inj, ← text_row, ← text_row]
  refine ⟨fun h => ?_, congrArg Row.text⟩
  exact (Row.text_append_inj (hvalue.legible_row hsigns) (hother.legible_row hsigns') hends hends
    (congrArg (· ++ []) h)).1

end Value

-----------------------------------------------------------------------------------------
-- Putting the operands of a row together
-----------------------------------------------------------------------------------------

/-- Operands that have been put together, without what was in parentheses. -/
inductive Nest where
  | operand (value : NormalForm)
  | operation (op : BinaryOp) (left right : Nest)

namespace Nest

def meaning : Nest → NormalForm
  | operand value => value
  | operation op left right => .binary .enclosed op left.meaning right.meaning

/-- The leftmost operand. -/
def first : Nest → NormalForm
  | operand value => value
  | operation _ left _ => left.first

/-- The other operands from left to right, each with the operator in front of it. -/
def rest : Nest → List (BinaryOp × NormalForm)
  | operand _ => []
  | operation op left right => left.rest ++ (op, right.first) :: right.rest

def op? : Nest → Option BinaryOp
  | operand _ => none
  | operation op _ _ => some op

variable (precedence : BinaryOp → Nat)

/-- Adds an operator and an operand on the right.  The operator takes the last operands as its own
down to the first operator that binds as tightly. -/
def attach : Nest → BinaryOp × NormalForm → Nest
  | operand value, (op, next) => operation op (operand value) (operand next)
  | operation op' left right, (op, next) =>
      if precedence op' < precedence op then operation op' left (right.attach (op, next))
      else operation op (operation op' left right) (operand next)

/-- Holds if every operator binds its operands more tightly than the one above it, or as tightly
when it is on the left. -/
def NestsBy : Nest → Prop
  | operand _ => True
  | operation op left right =>
      left.NestsBy
      ∧ right.NestsBy
      ∧ (∀ inner ∈ left.op?, precedence op ≤ precedence inner)
      ∧ ∀ inner ∈ right.op?, precedence op < precedence inner

variable {precedence}

/-- What binds more tightly at the top does so everywhere. -/
theorem NestsBy.lt_of_mem_rest {nest : Nest} (h : nest.NestsBy precedence) {bound : Nat}
    (hbound : ∀ inner ∈ nest.op?, bound < precedence inner)
    : ∀ entry ∈ nest.rest, bound < precedence entry.1 := by
  induction nest with
  | operand value => exact List.forall_mem_nil _
  | operation op left right ihLeft ihRight =>
      obtain ⟨hleft, hright, hleftOp, hrightOp⟩ := h
      have hop : bound < precedence op := hbound op rfl
      rw [rest, List.forall_mem_append, List.forall_mem_cons]
      exact ⟨ihLeft hleft fun inner hinner => hop.trans_le (hleftOp inner hinner), hop,
        ihRight hright fun inner hinner => hop.trans (hrightOp inner hinner)⟩

/-- Operators that bind more tightly all go into the right operand. -/
theorem foldl_attach_operation (op : BinaryOp) (left right : Nest)
    {entries : List (BinaryOp × NormalForm)}
    (h : ∀ entry ∈ entries, precedence op < precedence entry.1)
    : entries.foldl (attach precedence) (operation op left right)
      = operation op left (entries.foldl (attach precedence) right) := by
  induction entries generalizing right with
  | nil => rfl
  | cons entry entries ih =>
      obtain ⟨hentry, hentries⟩ := List.forall_mem_cons.1 h
      rw [List.foldl_cons, List.foldl_cons, attach, if_pos hentry, ih _ hentries]

/-- An operator that binds no more tightly than the one before it takes everything there is as its
left operand. -/
theorem attach_of_le {nest : Nest} {op : BinaryOp} {next : NormalForm}
    (h : ∀ inner ∈ nest.op?, precedence op ≤ precedence inner)
    : nest.attach precedence (op, next) = operation op nest (operand next) := by
  cases nest with
  | operand value => rfl
  | operation op' left right => rw [attach, if_neg (h op' rfl).not_gt]

/-- Putting the operands together again gives what they were taken from, by induction on it.  The
left operand is complete when its operator comes, and all that follows goes to the right. -/
theorem NestsBy.foldl_attach {nest : Nest} (h : nest.NestsBy precedence)
    : nest.rest.foldl (attach precedence) (operand nest.first) = nest := by
  induction nest with
  | operand value => rfl
  | operation op left right ihLeft ihRight =>
      obtain ⟨hleft, hright, hleftOp, hrightOp⟩ := h
      rw [first, rest, List.foldl_append, ihLeft hleft, List.foldl_cons, attach_of_le hleftOp,
        foldl_attach_operation _ _ _ (hright.lt_of_mem_rest hrightOp), ihRight hright]

end Nest

section Reading

variable (precedence : BinaryOp → Nat)

mutual
/-- What an operand means to a reader who knows the precedence of operators. -/
def Item.meaning : Item → NormalForm
  | .word text => .text text
  | .call name args => .call name (Row.meaningAll args)
  | .group row => (row.nest .operand).meaning
  | .unary op operand => .unary .enclosed op operand.meaning

/-- The operands of a row put together, where the first one is placed as told. -/
def Row.nest : Row → (NormalForm → Nest) → Nest
  | .single item, place => place item.meaning
  | .joined item op row, place =>
      row.nest fun next => (place item.meaning).attach precedence (op, next)

def Row.meaningAll : List Row → List NormalForm
  | [] => []
  | row :: rows => (row.nest .operand).meaning :: Row.meaningAll rows
end

/-- What a row means to such a reader. -/
def Row.meaning (row : Row) : NormalForm :=
  (row.nest precedence .operand).meaning

/-- What follows an operator is put together with what stands in front of it, by induction on the
first row. -/
theorem Row.nest_join (row : Row) (op : BinaryOp) (other : Row) (place : NormalForm → Nest)
    : (row.join op other).nest precedence place
      = other.nest precedence fun next =>
          (row.nest precedence place).attach precedence (op, next) := by
  fun_induction join row op other generalizing place with
  | case1 item op other => rw [nest, nest]
  | case2 item op' row op other ih => rw [nest, ih, nest]

end Reading

namespace Value

variable {precedence : BinaryOp → Nat}

/-- How the bare operations at the top of a value nest. -/
def nest : Value → Nest
  | binary .bare op left right => .operation op left.nest right.nest
  | value => .operand value.meaning

/-- Nesting the bare operations of a value does not change its meaning, by induction along them. -/
theorem meaning_nest (value : Value)
    : value.nest.meaning = value.meaning := by
  fun_induction nest value with
  | case1 op left right ihLeft ihRight => rw [Nest.meaning, ihLeft, ihRight, meaning_binary]
  | case2 value hvalue => rfl

/-- The outermost operator of the nest is that of the bare operation. -/
theorem op?_nest (value : Value)
    : value.nest.op? = value.bareOp? := by
  fun_cases nest value with
  | case1 op left right => rfl
  | case2 value hvalue =>
      rw [Nest.op?, bareOp?]
      exact hvalue

/-- A value that is no bare operation is an operand. -/
theorem nest_eq_operand {value : Value} (h : value.bareOp? = none)
    : value.nest = .operand value.meaning := by
  rw [nest]
  rintro op left right rfl
  cases h

/-- A value that encloses itself is no bare operation. -/
theorem bareOp?_of_isSelfEnclosed {value : Value} (h : value.isSelfEnclosed = true)
    : value.bareOp? = none := by
  cases value with
  | binary form op left right =>
      cases form with
      | enclosed => rfl
      | bare => cases h
  | _ => rfl

/-- Only a bare operation shows more than one operand.  By induction on the value: what is enclosed,
called or grouped is a single operand, and prefix operators go with theirs. -/
theorem exists_row_eq_single (value : Value) (h : value.bareOp? = none)
    (hnests : value.Everywhere (NestsBy precedence))
    : ∃ item, value.row = .single item := by
  cases value with
  | parens inner =>
      rw [row]
      split
      · rename_i henclosed
        exact exists_row_eq_single inner (bareOp?_of_isSelfEnclosed henclosed) hnests.2
      · exact ⟨_, rfl⟩
  | binary form op left right =>
      cases form with
      | enclosed => exact ⟨_, rfl⟩
      | bare => cases h
  | unary form op operand =>
      cases form with
      | enclosed =>
          obtain ⟨item, hitem⟩ := exists_row_eq_single operand hnests.1 hnests.2
          exact ⟨.unary op item, by rw [row, hitem, Row.prepend]⟩
      | bare => exact ⟨_, rfl⟩
  | _ => exact ⟨_, rfl⟩
termination_by sizeOf value

/-- An operation nests if its operands do and their operators bind as tightly as they must on their
side. -/
theorem nestsBy_operation {op : BinaryOp} {form : Form} {left right : Value}
    (h : NestsBy precedence (binary form op left right)) (hleft : left.nest.NestsBy precedence)
    (hright : right.nest.NestsBy precedence)
    : (Nest.operation op left.nest right.nest).NestsBy precedence := by
  refine ⟨hleft, hright, ?_, ?_⟩
  · rw [op?_nest]
    exact h.1
  · rw [op?_nest]
    exact h.2

/-- A value whose bare operations nest everywhere has a nest that does, by induction along them. -/
theorem nestsBy_nest (value : Value) (h : value.Everywhere (NestsBy precedence))
    : value.nest.NestsBy precedence := by
  fun_induction nest value with
  | case1 op left right ihLeft ihRight =>
      exact nestsBy_operation h.1 (ihLeft h.2.1) (ihRight h.2.2)
  | case2 value hvalue => trivial

/-- A row is read as its value is built, wherever its first operand is placed. -/
def IsReadAs (precedence : BinaryOp → Nat) (row : Row) (nest : Nest) : Prop :=
  ∀ place : NormalForm → Nest,
    row.nest precedence place = nest.rest.foldl (Nest.attach precedence) (place nest.first)

/-- A row that is read as a nest means what the nest means if its operators nest. -/
theorem IsReadAs.meaning_eq {row : Row} {nest : Nest} (h : IsReadAs precedence row nest)
    (hnests : nest.NestsBy precedence)
    : row.meaning precedence = nest.meaning := by
  rw [Row.meaning, h, hnests.foldl_attach]

/-- Two rows with an operator between them are read as the operation on both nests. -/
theorem IsReadAs.join {row other : Row} {left right : Nest} (h : IsReadAs precedence row left)
    (hother : IsReadAs precedence other right) (op : BinaryOp)
    : IsReadAs precedence (row.join op other) (.operation op left right) := by
  intro place
  rw [Row.nest_join, hother, h, Nest.first, Nest.rest, List.foldl_append, List.foldl_cons]

/-- A row that is read as the nest of its value means what the value means. -/
theorem IsReadAs.meaning_value {value : Value} (h : IsReadAs precedence value.row value.nest)
    (hnests : value.Everywhere (NestsBy precedence))
    : value.row.meaning precedence = value.meaning := by
  rw [h.meaning_eq (nestsBy_nest value hnests), meaning_nest]

/-- The rows of arguments mean what the arguments mean if each of them does, by induction on the
list. -/
theorem meaningAll_rowAll {values : List Value}
    (h : ∀ value ∈ values,
      value.Everywhere (NestsBy precedence) → IsReadAs precedence value.row value.nest)
    (hnests : EverywhereAll (NestsBy precedence) values)
    : Row.meaningAll precedence (rowAll values) = meaningAll values := by
  induction values with
  | nil => rfl
  | cons value values ih =>
      obtain ⟨hfirst, hrest⟩ := List.forall_mem_cons.1 h
      have hvalue := (hfirst hnests.1).meaning_value hnests.1
      rw [Row.meaning] at hvalue
      rw [rowAll, Row.meaningAll, meaningAll_cons, hvalue, ih hrest hnests.2]

/-- A row that is a single operand is read as that operand. -/
theorem isReadAs_single {item : Item} {value : NormalForm} (h : item.meaning precedence = value)
    : IsReadAs precedence (.single item) (.operand value) := by
  intro place
  rw [Row.nest, h]
  rfl

/-- By induction on how the value is built.  What is in parentheses is read as a whole, since it
starts with its own first operand. -/
theorem Expressible.isReadAs {value : Value} (h : Expressible value)
    (hnests : value.Everywhere (NestsBy precedence))
    : IsReadAs precedence value.row value.nest := by
  induction h with
  | var hname => exact fun place => rfl
  | constant htext hsign => exact fun place => rfl
  | @parens inner _ ih =>
      have hinner := ih hnests.2
      cases henclosed : inner.isSelfEnclosed with
      | true =>
          have hnest := nest_eq_operand (bareOp?_of_isSelfEnclosed henclosed)
          rw [row, if_pos henclosed, nest_eq_operand rfl, meaning_parens, ← hnest]
          exact hinner
      | false =>
          rw [row, henclosed, nest_eq_operand rfl, meaning_parens]
          exact isReadAs_single (hinner.meaning_value hnests.2)
  | @call name args hname _ ih =>
      rw [row, nest_eq_operand rfl, meaning_call]
      exact isReadAs_single (congrArg _ (meaningAll_rowAll ih hnests.2))
  | @binary form op left right _ _ ihLeft ihRight =>
      obtain ⟨hhere, hleft, hright⟩ := hnests
      have hjoined := (ihLeft hleft).join (ihRight hright) op
      cases form with
      | bare => exact hjoined
      | enclosed =>
          have hnest :=
            nestsBy_operation hhere (nestsBy_nest left hleft) (nestsBy_nest right hright)
          rw [row, nest_eq_operand rfl, meaning_binary, ← meaning_nest left, ← meaning_nest right]
          exact isReadAs_single (hjoined.meaning_eq hnest)
  | @unary form op operand _ ih =>
      have hoperand := (ih hnests.2).meaning_value hnests.2
      cases form with
      | enclosed =>
          obtain ⟨item, hitem⟩ := exists_row_eq_single operand hnests.1 hnests.2
          rw [hitem] at hoperand
          rw [row, hitem, Row.prepend, nest_eq_operand rfl, meaning_unary]
          exact isReadAs_single (congrArg _ hoperand)
      | bare =>
          rw [row, nest_eq_operand rfl, meaning_unary]
          exact isReadAs_single (congrArg (NormalForm.unary .enclosed op) hoperand)

-----------------------------------------------------------------------------------------
-- What the text determines
-----------------------------------------------------------------------------------------

/-- The written form of a value determines its row, and with it the meaning of every value whose
bare operations nest as the precedence of their operators has it, whatever this precedence is. -/
theorem render_determines_meaning
    : (∀ value other : Value,
        Expressible value
        → Expressible other
        → value.Everywhere SignApart
        → other.Everywhere SignApart
        → (value.render = other.render ↔ value.row = other.row))
      ∧ ∀ (precedence : BinaryOp → Nat) (value other : Value),
        Expressible value
        → Expressible other
        → value.Everywhere SignApart
        → other.Everywhere SignApart
        → value.Everywhere (NestsBy precedence)
        → other.Everywhere (NestsBy precedence)
        → value.render = other.render
        → value.meaning = other.meaning := by
  refine ⟨fun _ _ => render_eq_iff_row_eq, ?_⟩
  intro precedence value other hvalue hother hsigns hsigns' hnests hnests' h
  have hrow := (render_eq_iff_row_eq hvalue hother hsigns hsigns').1 h
  calc
    value.meaning
    _ = value.row.meaning precedence := ((hvalue.isReadAs hnests).meaning_value hnests).symm
    _ = other.row.meaning precedence := by rw [hrow]
    _ = other.meaning := (hother.isReadAs hnests').meaning_value hnests'

/-- Two comparisons joined by a conjunction, once enclosed by itself and once as a group. -/
theorem render_determines_meaning_conjunction
    : let precedence : BinaryOp → Nat := fun op => if op = .and then 0 else 1
      let first := binary .bare .eq (named "II") (constant "0")
      let second := binary .bare .lt (unary .enclosed .negative (named "JJ")) (constant "1")
      let value := binary .enclosed .and first second
      let other := parens (binary .bare .and first second)
      (∀ part ∈ [value, other],
          Expressible part
          ∧ part.Everywhere SignApart
          ∧ part.Everywhere (NestsBy precedence))
        ∧ value.render = "(II == 0 && -JJ < 1)"
        ∧ other.render = "(II == 0 && -JJ < 1)"
        ∧ value.meaning = other.meaning := by
  intro precedence first second value other
  have hidentifier : ∀ name ∈ ["II", "JJ"], IsIdentifier name.toList := by
    simp [IsIdentifier, isIdentifierStart, isIdentifierPart]
  have hzero : number "0".toList ≠ [] := by decide
  have hone : number "1".toList ≠ [] := by decide
  have hfirst : Expressible first :=
    .binary (.var (hidentifier "II" (by simp)))
      (.constant (isNumber_number hzero) (stops_cons rfl _))
  have hsecond : Expressible second :=
    .binary (.unary (.var (hidentifier "JJ" (by simp))))
      (.constant (isNumber_number hone) (stops_cons rfl _))
  have hsigns : ∀ part ∈ [value, other], part.Everywhere SignApart := by
    simp [value, other, first, second, Everywhere, SignApart, named, render]
  have hnests : ∀ part ∈ [value, other], part.Everywhere (NestsBy precedence) := by
    simp [value, other, first, second, precedence, Everywhere, NestsBy, named, bareOp?]
  have hexpressible : ∀ part ∈ [value, other], Expressible part := by
    simpa using ⟨.binary hfirst hsecond, .parens (.binary hfirst hsecond)⟩
  have hvalue : value.render = "(II == 0 && -JJ < 1)" := by decide +kernel
  have hother : other.render = "(II == 0 && -JJ < 1)" := by decide +kernel
  have hmeaning : value.meaning = other.meaning :=
    render_determines_meaning.2 precedence value other (hexpressible value (by simp))
      (hexpressible other (by simp)) (hsigns value (by simp)) (hsigns other (by simp))
      (hnests value (by simp)) (hnests other (by simp)) (hvalue.trans hother.symm)
  exact ⟨fun part hpart => ⟨hexpressible part hpart, hsigns part hpart, hnests part hpart⟩, hvalue,
    hother, hmeaning⟩

/-- A bare sum as a factor and a bare product as a summand are written alike, and so are a negation
of a negation and a decrement. -/
theorem render_merges_bare_operations
    : let sum := binary .bare .add (named "a") (named "b")
      let product := binary .bare .mul (named "b") (named "c")
      let factored := binary .bare .mul sum (named "c")
      let expanded := binary .bare .add (named "a") product
      let negated := unary .enclosed .negative (unary .enclosed .negative (named "x"))
      let decremented := unary .enclosed .decrement (named "x")
      (∀ value ∈ [factored, expanded, negated, decremented], Expressible value)
      ∧ factored.render = expanded.render
      ∧ factored.meaning ≠ expanded.meaning
      ∧ negated.render = decremented.render
      ∧ negated.meaning ≠ decremented.meaning := by
  intro sum product factored expanded negated decremented
  have hname : ∀ name ∈ ["a", "b", "c", "x"], Expressible (named name) := by
    have hidentifier : ∀ name ∈ ["a", "b", "c", "x"], IsIdentifier name.toList := by
      simp [IsIdentifier, isIdentifierStart]
    exact fun name hname => .var (hidentifier name hname)
  have hsum : Expressible sum := .binary (hname "a" (by simp)) (hname "b" (by simp))
  have hproduct : Expressible product := .binary (hname "b" (by simp)) (hname "c" (by simp))
  have hx : Expressible (named "x") := hname "x" (by simp)
  refine ⟨?_, by decide +kernel, ?_, by decide +kernel, ?_⟩
  · simpa using ⟨.binary hsum (hname "c" (by simp)), .binary (hname "a" (by simp)) hproduct,
      .unary (.unary hx), .unary hx⟩
  · simp [factored, expanded]
  · simp [negated, decremented]

end Value

end Formulary
