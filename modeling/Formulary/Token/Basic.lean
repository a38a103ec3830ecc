import Formulary.Text

/-! Tokens: lexical categories paired with the text they were read from.
The categories form a closed set, and grammars refer to them by name in any letter case.  Sets of
categories have one bit for each of them.
-/

namespace Formulary

-----------------------------------------------------------------------------------------
-- Categories and tokens
-----------------------------------------------------------------------------------------

/-- The lexical categories. -/
inductive Tag where
  | number
  | name
  | funcName
  | addOp
  | mulOp
  | dot
  | comma
  | leftParen
  | rightParen
deriving DecidableEq, Repr, Inhabited

namespace Tag

/-- Every category once, in the order of declaration. -/
def all : List Tag :=
  [number, name, funcName, addOp, mulOp, dot, comma, leftParen, rightParen]

/-- The name of a category as grammars write it. -/
def keyword : Tag → String
  | number => "number"
  | name => "name"
  | funcName => "funcname"
  | addOp => "addop"
  | mulOp => "mulop"
  | dot => "dot"
  | comma => "comma"
  | leftParen => "lparen"
  | rightParen => "rparen"

/-- The name of a category as trees and token lists show it. -/
def label : Tag → String
  | number => "NUMBER"
  | name => "NAME"
  | funcName => "FUNCNAME"
  | addOp => "ADDOP"
  | mulOp => "MULOP"
  | dot => "DOT"
  | comma => "COMMA"
  | leftParen => "LPAREN"
  | rightParen => "RPAREN"

/-- The category with a name, in any ASCII letter case. -/
def ofName? (text : String) : Option Tag :=
  all.find? fun tag => tag.keyword.toList == text.toList.map Char.toLower

/-- The list of categories leaves none out. -/
theorem mem_all (tag : Tag)
    : tag ∈ all := by
  cases tag <;> decide

/-- A category that ends an operand: after it a sign is an operator. -/
def endsOperand : Tag → Bool
  | name | funcName | number | rightParen => true
  | _ => false

end Tag

/-- A lexical category with the text it stands for. -/
structure Token where
  tag : Tag
  text : String
deriving DecidableEq, Repr, Inhabited

namespace Token

/-- The category followed by the quoted text. -/
def render (token : Token) : String :=
  token.tag.label ++ " " ++ Text.quote token.text

/-- The concatenated texts of a run of tokens. -/
def textOf (tokens : List Token) : String :=
  String.join (tokens.map Token.text)

end Token

-----------------------------------------------------------------------------------------
-- Sets of categories
-----------------------------------------------------------------------------------------

/-- A set of lexical categories. -/
structure TagSet where
  bits : BitVec 9
deriving DecidableEq, Repr

namespace TagSet

/-- The bit that stands for a category. -/
def position : Tag → Nat
  | .number => 0
  | .name => 1
  | .funcName => 2
  | .addOp => 3
  | .mulOp => 4
  | .dot => 5
  | .comma => 6
  | .leftParen => 7
  | .rightParen => 8

def empty : TagSet :=
  ⟨0⟩

def single (tag : Tag) : TagSet :=
  ⟨BitVec.twoPow 9 (position tag)⟩

def contains (set : TagSet) (tag : Tag) : Bool :=
  set.bits.getLsbD (position tag)

def union (left right : TagSet) : TagSet :=
  ⟨left.bits ||| right.bits⟩

instance : EmptyCollection TagSet := ⟨empty⟩

instance : Union TagSet := ⟨union⟩

/-- The empty set holds no category, checked for each of them. -/
@[simp]
theorem contains_empty (tag : Tag)
    : (∅ : TagSet).contains tag = false := by
  cases tag <;> decide

/-- A set of one category holds that one only, checked for each pair. -/
@[simp]
theorem contains_single (tag other : Tag)
    : (single tag).contains other = decide (tag = other) := by
  cases tag <;> cases other <;> decide

/-- A union holds what either side holds, since it is the bitwise disjunction. -/
@[simp]
theorem contains_union (left right : TagSet) (tag : Tag)
    : (left ∪ right).contains tag = (left.contains tag || right.contains tag) :=
  BitVec.getLsbD_or

/-- A set is determined by its members.  Its nine bits say of each category whether it is one. -/
@[ext]
theorem ext {left right : TagSet} (h : ∀ tag, left.contains tag = right.contains tag)
    : left = right := by
  obtain ⟨left⟩ := left
  obtain ⟨right⟩ := right
  have hbits : left = right := by
    apply BitVec.eq_of_getLsbD_eq
    intro i hi
    have hpos : ∃ tag, position tag = i := by
      match i, hi with
      | 0, _ => exact ⟨.number, rfl⟩
      | 1, _ => exact ⟨.name, rfl⟩
      | 2, _ => exact ⟨.funcName, rfl⟩
      | 3, _ => exact ⟨.addOp, rfl⟩
      | 4, _ => exact ⟨.mulOp, rfl⟩
      | 5, _ => exact ⟨.dot, rfl⟩
      | 6, _ => exact ⟨.comma, rfl⟩
      | 7, _ => exact ⟨.leftParen, rfl⟩
      | 8, _ => exact ⟨.rightParen, rfl⟩
    obtain ⟨tag, rfl⟩ := hpos
    exact h tag
  rw [hbits]

end TagSet

end Formulary
