import Formulary.Expr.Value
import Formulary.Proofs.Expr.NormalForm

/-! Rows of operands, which are what a written value shows.
A value that stands bare shows its operands and operators side by side without saying how they nest,
and everything in parentheses is a single operand.  The row of a value is all there is to its text,
and the text of a row determines the row as long as no minus sign runs into another one.
-/

namespace Formulary

mutual
/-- What stands between binary operators. -/
inductive Item where
  | word (text : String)
  | call (name : String) (args : List Row)
  | group (row : Row)
  | unary (op : UnaryOp) (operand : Item)

/-- One or more operands with binary operators between them. -/
inductive Row where
  | single (item : Item)
  | joined (item : Item) (op : BinaryOp) (row : Row)
end

-----------------------------------------------------------------------------------------
-- The text of a row
-----------------------------------------------------------------------------------------

mutual
def Item.text : Item → List Char
  | .word text => text.toList
  | .call name args => name.toList ++ '(' :: (Row.textAll args ++ [')'])
  | .group row => '(' :: (row.text ++ [')'])
  | .unary op operand => op.symbol.toList ++ operand.text

def Row.text : Row → List Char
  | .single item => item.text
  | .joined item op row => item.text ++ ' ' :: (op.symbol.toList ++ ' ' :: row.text)

/-- The texts of rows with a comma and a blank between each and the next. -/
def Row.textAll : List Row → List Char
  | [] => []
  | [row] => row.text
  | row :: next :: rows => row.text ++ ',' :: ' ' :: Row.textAll (next :: rows)
end

namespace Row

/-- Two rows with an operator between them. -/
def join : Row → BinaryOp → Row → Row
  | single item, op, other => joined item op other
  | joined item op' row, op, other => joined item op' (row.join op other)

/-- A row with an operator in front of its first operand. -/
def prepend (op : UnaryOp) : Row → Row
  | single item => single (.unary op item)
  | joined item op' row => joined (.unary op item) op' row

/-- Rows are written side by side with the operator between blanks, by induction on the first. -/
theorem text_join (row : Row) (op : BinaryOp) (other : Row)
    : (row.join op other).text = row.text ++ ' ' :: (op.symbol.toList ++ ' ' :: other.text) := by
  fun_induction join row op other with
  | case1 item op other => rw [text, text]
  | case2 item op' row op other ih => rw [text, text, ih]; simp

/-- A prefix operator is written in front of the first operand. -/
theorem text_prepend (op : UnaryOp) (row : Row)
    : (row.prepend op).text = op.symbol.toList ++ row.text := by
  cases row with
  | single item => rw [prepend, text, text, Item.text]
  | joined item op' row => rw [prepend, text, text, Item.text, List.append_assoc]

end Row

-----------------------------------------------------------------------------------------
-- The row of a value
-----------------------------------------------------------------------------------------

namespace Value

mutual
/-- The operands and operators that a value shows when it is written. -/
def row : Value → Row
  | var v => .single (.word v.name)
  | constant text => .single (.word text)
  | parens inner => if inner.isSelfEnclosed then inner.row else .single (.group inner.row)
  | call name args => .single (.call name (rowAll args))
  | binary .enclosed op left right => .single (.group (left.row.join op right.row))
  | binary .bare op left right => left.row.join op right.row
  | unary .enclosed op operand => operand.row.prepend op
  | unary .bare op operand => .single (.unary op (.group operand.row))
  | element array indices => .single (.word (element array indices).render)

/-- The rows of values, in order. -/
def rowAll : List Value → List Row
  | [] => []
  | value :: values => value.row :: rowAll values
end

mutual
/-- The written form of a value is the text of its row.  By induction on the value, as its row is
put together just as it is written. -/
theorem text_row (value : Value)
    : value.row.text = value.render.toList := by
  cases value with
  | var v => rw [row, Row.text, Item.text, render]
  | constant text => rw [row, Row.text, Item.text, render]
  | parens inner =>
      have hinner := text_row inner
      cases henclosed : inner.isSelfEnclosed <;>
        simp [row, render, Row.text, Item.text, henclosed, hinner]
  | call name args =>
      rw [row, render, Row.text, Item.text, textAll_rowAll args]
      simp
  | binary form op left right =>
      have hleft := text_row left
      have hright := text_row right
      cases form <;> simp [row, render, Row.text, Item.text, Row.text_join, hleft, hright]
  | unary form op operand =>
      have hoperand := text_row operand
      cases form <;> simp [row, render, Row.text, Item.text, Row.text_prepend, hoperand]
  | element array indices => rw [row, Row.text, Item.text]
termination_by sizeOf value

/-- The rows of arguments are written as the arguments are, by induction on the list. -/
theorem textAll_rowAll (values : List Value)
    : Row.textAll (rowAll values) = (", ".intercalate (renderAll values)).toList := by
  match values with
  | [] => simp [rowAll, Row.textAll, renderAll]
  | [value] => simp [rowAll, Row.textAll, renderAll, text_row value]
  | value :: next :: values =>
      have hrest := textAll_rowAll (next :: values)
      rw [rowAll, renderAll] at hrest
      simp [rowAll, Row.textAll, renderAll, String.intercalate_cons_cons, text_row value, hrest]
termination_by sizeOf values
end

end Value

-----------------------------------------------------------------------------------------
-- Reading a row off its text
-----------------------------------------------------------------------------------------

open Lexeme

/-- A character that a word may have inside. -/
def isInner (c : Char) : Bool :=
  !(c == ' ' || c == ',' || c == '(' || c == ')')

/-- A text of such characters that does not begin with a prefix operator. -/
def IsOperandWord (text : String) : Prop :=
  (∀ c ∈ text.toList, isInner c = true)
  ∧ ∃ c rest, text.toList = c :: rest ∧ c ∉ ['!', '-', '+']

/-- What follows an operand: a blank, a comma, a closing parenthesis or nothing. -/
def EndsOperand (rest : List Char) : Prop :=
  Stops (fun c => isInner c || c == '(') rest

/-- What follows a row: a comma, a closing parenthesis or nothing. -/
def EndsRow (rest : List Char) : Prop :=
  Stops (fun c => isInner c || c == '(' || c == ' ') rest

/-- What ends a row ends an operand. -/
theorem EndsRow.endsOperand {rest : List Char} (h : EndsRow rest)
    : EndsOperand rest :=
  Stops.mono h fun _ hc => (Bool.or_eq_false_iff.1 hc).1

mutual
/-- Holds of operands that can be told from their texts. -/
def Item.Legible : Item → Prop
  | .word text => IsOperandWord text
  | .call name args => IsOperandWord name ∧ Row.LegibleAll args
  | .group row => row.Legible
  | .unary op operand =>
      operand.Legible ∧ (op = .negative → operand.text.head? ≠ some '-')

/-- Holds of rows of such operands. -/
def Row.Legible : Row → Prop
  | .single item => item.Legible
  | .joined item _ row => item.Legible ∧ row.Legible

def Row.LegibleAll : List Row → Prop
  | [] => True
  | row :: rows => row.Legible ∧ Row.LegibleAll rows
end

/-- What ends an operand is no part of it. -/
theorem EndsOperand.stops {rest : List Char} (h : EndsOperand rest)
    : Stops isInner rest :=
  Stops.mono h fun _ hc => (Bool.or_eq_false_iff.1 hc).1

/-- What ends an operand does not make a call of it. -/
theorem EndsOperand.head?_ne {rest : List Char} (h : EndsOperand rest)
    : rest.head? ≠ some '(' :=
  fun hrest => absurd (h '(' hrest) (by decide)

/-- An operand that is a word ends where a character comes that no word has inside, so it can be
told from what follows. -/
theorem IsOperandWord.append_inj {first second : String} {rest rest' : List Char}
    (hfirst : IsOperandWord first) (hsecond : IsOperandWord second) (hrest : Stops isInner rest)
    (hrest' : Stops isInner rest') (h : first.toList ++ rest = second.toList ++ rest')
    : first = second ∧ rest = rest' := by
  rw [← String.toList_inj]
  constructor
  · rw [← takeWhile_append_of_stops hfirst.1 hrest, h, takeWhile_append_of_stops hsecond.1 hrest']
  · rw [← dropWhile_append_of_stops hfirst.1 hrest, h, dropWhile_append_of_stops hsecond.1 hrest']

/-- Every unary operator begins with one of three marks. -/
theorem UnaryOp.exists_symbol_eq (op : UnaryOp)
    : ∃ c rest, op.symbol.toList = c :: rest ∧ c ∈ ['!', '-', '+'] := by
  cases op <;> simp [UnaryOp.symbol]

/-- The text of a prefix operator tells the operator, unless a minus follows a minus. -/
theorem UnaryOp.symbol_append_inj {op op' : UnaryOp} {chars chars' : List Char}
    (hchars : op = .negative → chars.head? ≠ some '-')
    (hchars' : op' = .negative → chars'.head? ≠ some '-')
    (h : op.symbol.toList ++ chars = op'.symbol.toList ++ chars')
    : op = op' ∧ chars = chars' := by
  cases op <;> cases op' <;> simp_all [UnaryOp.symbol]
  exact hchars' (h ▸ rfl)

/-- Every binary operator is found by its own symbol. -/
theorem BinaryOp.ofSymbol?_symbol (op : BinaryOp)
    : BinaryOp.ofSymbol? op.symbol = some op := by
  cases op <;> rfl

/-- A binary operator ends at the blank behind it, and different ones are written differently. -/
theorem BinaryOp.symbol_append_inj {op op' : BinaryOp} {rest rest' : List Char}
    (h : op.symbol.toList ++ ' ' :: rest = op'.symbol.toList ++ ' ' :: rest')
    : op = op' ∧ rest = rest' := by
  have hsymbol : ∀ op : BinaryOp, ∀ c ∈ op.symbol.toList, (c != ' ') = true := by
    intro op
    cases op <;> simp [BinaryOp.symbol]
  have hblank : ∀ chars, Stops (· != ' ') (' ' :: chars) := stops_cons rfl
  have htake := takeWhile_append_of_stops (hsymbol op) (hblank rest)
  have hdrop := dropWhile_append_of_stops (hsymbol op) (hblank rest)
  rw [h, takeWhile_append_of_stops (hsymbol op') (hblank rest'), String.toList_inj] at htake
  rw [h, dropWhile_append_of_stops (hsymbol op') (hblank rest')] at hdrop
  refine ⟨?_, (List.cons.inj hdrop).2.symm⟩
  rw [← Option.some_inj, ← ofSymbol?_symbol op, ← ofSymbol?_symbol op', htake]

/-- The kinds of operands, told from the characters at the front of a text. -/
inductive ItemKind where
  | word
  | call
  | group
  | unary
deriving DecidableEq

def Item.kind : Item → ItemKind
  | word _ => .word
  | call _ _ => .call
  | group _ => .group
  | unary _ _ => .unary

def ItemKind.ofText : List Char → ItemKind
  | [] => .word
  | c :: rest =>
      if c = '(' then .group
      else if c ∈ ['!', '-', '+'] then .unary
      else if (rest.dropWhile isInner).head? = some '(' then .call
      else .word

/-- A word is told from a call by what follows it. -/
theorem IsOperandWord.kind_eq {text : String} (h : IsOperandWord text) {rest : List Char}
    (hrest : Stops isInner rest)
    : ItemKind.ofText (text.toList ++ rest) = if rest.head? = some '(' then .call else .word := by
  obtain ⟨hinner, c, others, htext, hc⟩ := h
  rw [htext, List.forall_mem_cons] at hinner
  have hparen : c ≠ '(' := by
    rintro rfl
    exact absurd hinner.1 (by decide)
  rw [htext, List.cons_append, ItemKind.ofText, if_neg hparen, if_neg hc,
    dropWhile_append_of_stops hinner.2 hrest]

/-- The first characters of a legible operand tell its kind.  A parenthesis begins a group, the mark
of an operator an operand behind it, and a word is a call if a parenthesis follows. -/
theorem Item.Legible.kind_eq {item : Item} (h : item.Legible) {rest : List Char}
    (hrest : EndsOperand rest)
    : ItemKind.ofText (item.text ++ rest) = item.kind := by
  cases item with
  | word text => rw [Item.text, IsOperandWord.kind_eq h hrest.stops, if_neg hrest.head?_ne, kind]
  | call name args =>
      have hopen : isInner '(' = false := by decide
      rw [text, List.append_assoc, List.cons_append, h.1.kind_eq (stops_cons hopen _)]
      rfl
  | group row => rfl
  | unary op operand =>
      obtain ⟨c, others, hsymbol, hc⟩ := op.exists_symbol_eq
      have hparen : c ≠ '(' := by
        rintro rfl
        exact absurd hc (by decide)
      rw [text, hsymbol, List.cons_append, List.cons_append, ItemKind.ofText, if_neg hparen,
        if_pos hc, kind]

/-- No word begins with a closing parenthesis. -/
theorem IsOperandWord.head?_ne {text : String} (h : IsOperandWord text) (rest : List Char)
    : (text.toList ++ rest).head? ≠ some ')' := by
  obtain ⟨hinner, c, others, htext, -⟩ := h
  rw [htext, List.cons_append, List.head?_cons, Option.some_inj.ne]
  rintro rfl
  exact absurd (hinner ')' (by simp [htext])) (by decide)

/-- No legible operand begins with a closing parenthesis. -/
theorem Item.Legible.head?_ne {item : Item} (h : item.Legible) (rest : List Char)
    : (item.text ++ rest).head? ≠ some ')' := by
  cases item with
  | word text => exact IsOperandWord.head?_ne h rest
  | call name args =>
      rw [text, List.append_assoc]
      exact h.1.head?_ne _
  | group row => simp [text]
  | unary op operand => cases op <;> simp [text, UnaryOp.symbol]

/-- No legible row begins with a closing parenthesis, as its first operand does not. -/
theorem Row.Legible.head?_ne {row : Row} (h : row.Legible) (rest : List Char)
    : (row.text ++ rest).head? ≠ some ')' := by
  cases row with
  | single item => exact Item.Legible.head?_ne h rest
  | joined item op row =>
      rw [text, List.append_assoc]
      exact h.1.head?_ne _

/-- Legible arguments do not begin with a closing parenthesis, so a call without any can be told
from one with some. -/
theorem Row.Legible.textAll_head?_ne {row : Row} (h : row.Legible) (rows : List Row)
    (rest : List Char)
    : (textAll (row :: rows) ++ rest).head? ≠ some ')' := by
  cases rows with
  | nil => exact h.head?_ne rest
  | cons next rows =>
      rw [textAll, List.append_assoc]
      exact h.head?_ne _

/-- A minus that does not come first in an operand does not come first behind it either. -/
theorem head?_append_ne_minus {chars rest : List Char} (h : chars.head? ≠ some '-')
    (hrest : EndsOperand rest)
    : (chars ++ rest).head? ≠ some '-' := by
  cases chars with
  | nil => exact fun hminus => absurd (hrest '-' hminus) (by decide)
  | cons c chars => exact h

mutual
/-- An operand can be told from the front of a text, by induction on how it is built.  Both operands
are of the same kind, and their parts are told apart one after another. -/
theorem Item.text_append_inj {item other : Item} (hitem : item.Legible) (hother : other.Legible)
    {rest rest' : List Char} (hrest : EndsOperand rest) (hrest' : EndsOperand rest')
    (h : item.text ++ rest = other.text ++ rest')
    : item = other ∧ rest = rest' := by
  have hkind : item.kind = other.kind := by
    rw [← hitem.kind_eq hrest, h, hother.kind_eq hrest']
  have hopen : ∀ chars, Stops isInner ('(' :: chars) := stops_cons (by decide)
  have hclose : ∀ chars, EndsRow (')' :: chars) := stops_cons (by decide)
  cases item with
  | word text =>
      cases other with
      | word text' =>
          obtain ⟨rfl, heq⟩ := hitem.append_inj hother hrest.stops hrest'.stops h
          exact ⟨rfl, heq⟩
      | _ => cases hkind
  | call name args =>
      cases other with
      | call name' args' =>
          simp only [Item.text, List.append_assoc, List.cons_append, List.nil_append] at h
          obtain ⟨rfl, hargs⟩ := hitem.1.append_inj hother.1 (hopen _) (hopen _) h
          obtain ⟨rfl, heq⟩ := Row.textAll_append_inj hitem.2 hother.2 (List.cons.inj hargs).2
          exact ⟨rfl, heq⟩
      | _ => cases hkind
  | group row =>
      cases other with
      | group row' =>
          simp only [Item.text, List.append_assoc, List.cons_append, List.nil_append] at h
          obtain ⟨rfl, heq⟩ :=
            Row.text_append_inj hitem hother (hclose _) (hclose _) (List.cons.inj h).2
          exact ⟨rfl, (List.cons.inj heq).2⟩
      | _ => cases hkind
  | unary op operand =>
      cases other with
      | unary op' operand' =>
          simp only [Item.text, List.append_assoc] at h
          obtain ⟨rfl, hoperand⟩ :=
            UnaryOp.symbol_append_inj (fun hop => head?_append_ne_minus (hitem.2 hop) hrest)
              (fun hop => head?_append_ne_minus (hother.2 hop) hrest') h
          obtain ⟨rfl, heq⟩ := Item.text_append_inj hitem.1 hother.1 hrest hrest' hoperand
          exact ⟨rfl, heq⟩
      | _ => cases hkind
termination_by sizeOf item

/-- A legible row can be told from what follows it, by induction on the row: its first operand can,
and a blank behind it means that an operator comes. -/
theorem Row.text_append_inj {row other : Row} (hrow : row.Legible) (hother : other.Legible)
    {rest rest' : List Char} (hrest : EndsRow rest) (hrest' : EndsRow rest')
    (h : row.text ++ rest = other.text ++ rest')
    : row = other ∧ rest = rest' := by
  have hblank : ∀ chars, EndsOperand (' ' :: chars) := stops_cons (by decide)
  have hclash : ∀ {chars more}, EndsRow chars → chars ≠ ' ' :: more := by
    rintro chars more hends rfl
    exact absurd (hends ' ' rfl) (by decide)
  cases row with
  | single item =>
      cases other with
      | single item' =>
          obtain ⟨rfl, heq⟩ :=
            Item.text_append_inj hrow hother hrest.endsOperand hrest'.endsOperand h
          exact ⟨rfl, heq⟩
      | joined item' op' row' =>
          simp only [Row.text, List.append_assoc, List.cons_append] at h
          have heq := (Item.text_append_inj hrow hother.1 hrest.endsOperand (hblank _) h).2
          exact (hclash hrest heq).elim
  | joined item op row =>
      cases other with
      | single item' =>
          simp only [Row.text, List.append_assoc, List.cons_append] at h
          have heq := (Item.text_append_inj hrow.1 hother (hblank _) hrest'.endsOperand h).2
          exact (hclash hrest' heq.symm).elim
      | joined item' op' row' =>
          simp only [Row.text, List.append_assoc, List.cons_append] at h
          obtain ⟨rfl, htail⟩ :=
            Item.text_append_inj hrow.1 hother.1 (hblank _) (hblank _) h
          obtain ⟨rfl, hrows⟩ := BinaryOp.symbol_append_inj (List.cons.inj htail).2
          obtain ⟨rfl, heq⟩ := Row.text_append_inj hrow.2 hother.2 hrest hrest' hrows
          exact ⟨rfl, heq⟩
termination_by sizeOf row

/-- Rows with commas between them can be told up to a closing parenthesis.  Where one list ends, a
parenthesis stands and no comma. -/
theorem Row.textAll_append_inj {rows others : List Row} (hrows : Row.LegibleAll rows)
    (hothers : Row.LegibleAll others) {rest rest' : List Char}
    (h : Row.textAll rows ++ ')' :: rest = Row.textAll others ++ ')' :: rest')
    : rows = others ∧ rest = rest' := by
  have hcomma : ∀ chars, EndsRow (',' :: chars) := stops_cons (by decide)
  have hclose : ∀ chars, EndsRow (')' :: chars) := stops_cons (by decide)
  match rows, others with
  | [], [] => exact ⟨rfl, (List.cons.inj h).2⟩
  | [], other :: others =>
      exact (hothers.1.textAll_head?_ne others _ (congrArg List.head? h.symm)).elim
  | row :: rows, [] => exact (hrows.1.textAll_head?_ne rows _ (congrArg List.head? h)).elim
  | [row], [other] =>
      rw [Row.textAll, Row.textAll] at h
      obtain ⟨rfl, heq⟩ := Row.text_append_inj hrows.1 hothers.1 (hclose _) (hclose _) h
      exact ⟨rfl, (List.cons.inj heq).2⟩
  | [row], other :: next' :: others =>
      simp only [Row.textAll, List.append_assoc, List.cons_append] at h
      have heq := (Row.text_append_inj hrows.1 hothers.1 (hclose _) (hcomma _) h).2
      cases heq
  | row :: next :: rows, [other] =>
      simp only [Row.textAll, List.append_assoc, List.cons_append] at h
      have heq := (Row.text_append_inj hrows.1 hothers.1 (hcomma _) (hclose _) h).2
      cases heq
  | row :: next :: rows, other :: next' :: others =>
      simp only [Row.textAll, List.append_assoc, List.cons_append] at h
      obtain ⟨rfl, htail⟩ := Row.text_append_inj hrows.1 hothers.1 (hcomma _) (hcomma _) h
      obtain ⟨hmore, heq⟩ :=
        Row.textAll_append_inj hrows.2 hothers.2 (List.cons.inj (List.cons.inj htail).2).2
      exact ⟨congrArg _ hmore, heq⟩
termination_by sizeOf rows
end

end Formulary
