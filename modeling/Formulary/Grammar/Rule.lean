import Formulary.Text
import Formulary.Token.Basic

/-! Symbols, productions and the lines they are written on.
A production has one or two symbols on its right.  Nonterminals are named by text in a grammar
as written, and by number in a compiled one; the numbers follow the order of first mention, the left
side of each rule before its right side.  In the written form each line holds a name, an equals sign
and one or two symbols.  Blank lines, and lines that begin with `#` or `//`, are passed over but
counted.
-/

namespace Formulary

-----------------------------------------------------------------------------------------
-- Symbols and productions
-----------------------------------------------------------------------------------------

/-- A terminal stands for one token of a category, a nonterminal for what its rules derive. -/
inductive Symbol (ν : Type) where
  | terminal (tag : Tag)
  | nonterminal (name : ν)
deriving DecidableEq, Repr

namespace Symbol

def map (f : ν → μ) : Symbol ν → Symbol μ
  | terminal tag => terminal tag
  | nonterminal name => nonterminal (f name)

/-- Renaming nothing leaves a symbol as it is. -/
@[simp]
theorem map_id (symbol : Symbol ν)
    : symbol.map id = symbol := by
  cases symbol <;> rfl

/-- The nonterminals among one symbol. -/
def names : Symbol ν → List ν
  | terminal _ => []
  | nonterminal name => [name]

/-- The symbol that a word denotes: the names of categories are never nonterminals. -/
def ofWord (word : String) : Symbol String :=
  match Tag.ofName? word with
  | some tag => terminal tag
  | none => nonterminal word

end Symbol

/-- The right side of a production. -/
inductive Body (ν : Type) where
  | unit (symbol : Symbol ν)
  | pair (left right : Symbol ν)
deriving DecidableEq, Repr

namespace Body

def map (f : ν → μ) : Body ν → Body μ
  | unit symbol => unit (symbol.map f)
  | pair left right => pair (left.map f) (right.map f)

/-- Renaming nothing leaves a right side as it is. -/
@[simp]
theorem map_id (body : Body ν)
    : body.map id = body := by
  cases body <;> simp [map]

/-- The symbols of a right side, from left to right. -/
def symbols : Body ν → List (Symbol ν)
  | unit symbol => [symbol]
  | pair left right => [left, right]

/-- The symbol that a derivation of the right side begins with. -/
def first : Body ν → Symbol ν
  | unit symbol => symbol
  | pair left _ => left

/-- The symbol that a derivation of the right side ends with. -/
def last : Body ν → Symbol ν
  | unit symbol => symbol
  | pair _ right => right

def isUnit : Body ν → Bool
  | unit _ => true
  | pair _ _ => false

/-- The nonterminal that is the whole right side, if there is one. -/
def unitChild? : Body ν → Option ν
  | unit (.nonterminal name) => some name
  | _ => none

end Body

/-- A production: the nonterminal on the left derives the body. -/
structure Rule (ν : Type) where
  head : ν
  body : Body ν
deriving DecidableEq, Repr

namespace Rule

def map (f : ν → μ) (rule : Rule ν) : Rule μ :=
  ⟨f rule.head, rule.body.map f⟩

/-- Renaming nothing leaves a rule as it is. -/
@[simp]
theorem map_id (rule : Rule ν)
    : rule.map id = rule := by
  simp [map]

/-- The nonterminals of a rule, from left to right. -/
def names (rule : Rule ν) : List ν :=
  rule.head :: rule.body.symbols.flatMap Symbol.names

/-- Renaming a rule renames the nonterminals that it mentions. -/
theorem names_map (f : ν → μ) (rule : Rule ν)
    : (rule.map f).names = rule.names.map f := by
  obtain ⟨head, body⟩ := rule
  cases body with
  | unit symbol => cases symbol <;> rfl
  | pair left right => cases left <;> cases right <;> rfl

end Rule

-----------------------------------------------------------------------------------------
-- Numbering the nonterminals
-----------------------------------------------------------------------------------------

namespace Numbering

/-- The nonterminals that rules mention, each once, in the order of first mention. -/
def names (rules : List (Rule String)) : List String :=
  (rules.flatMap Rule.names).eraseDups

/-- Rules whose nonterminals are replaced by their places among the names. -/
def number (names : List String) (rules : List (Rule String)) : List (Rule Nat) :=
  rules.map (Rule.map fun name => names.idxOf name)

/-- Every number in a numbered rule lies below the count of names. -/
theorem lt_length_of_mem_names {rules : List (Rule String)} {rule : Rule Nat}
    (h : rule ∈ number (names rules) rules) {a : Nat} (ha : a ∈ rule.names)
    : a < (names rules).length := by
  obtain ⟨source, hsource, rfl⟩ := List.mem_map.1 h
  rw [Rule.names_map] at ha
  obtain ⟨name, hname, rfl⟩ := List.mem_map.1 ha
  apply List.idxOf_lt_length_of_mem
  rw [names, List.mem_eraseDups, List.mem_flatMap]
  exact ⟨source, hsource, hname⟩

end Numbering

-----------------------------------------------------------------------------------------
-- Reading and writing rules
-----------------------------------------------------------------------------------------

/-- Why a line is not a rule. -/
inductive RuleFault where
  | missingEquals
  | leftName
  | terminalOnLeft (name : String)
  | symbolCount (found : Nat)
deriving DecidableEq, Repr

namespace Rule

/-- The body that one or two words denote. -/
def readBody : List String → Except RuleFault (Body String)
  | [only] => .ok (.unit (.ofWord only))
  | [left, right] => .ok (.pair (.ofWord left) (.ofWord right))
  | words => .error (.symbolCount words.length)

/-- The name that stands alone before the equals sign. -/
def readHead (chars : List Char) : Except RuleFault String :=
  let name := Text.trimChars chars
  if name.isEmpty || name.any Text.isBlank then .error .leftName
  else if (Tag.ofName? (String.ofList name)).isSome then
    .error (.terminalOnLeft (String.ofList name))
  else .ok (String.ofList name)

/-- Reads a trimmed line.  The line is split at its first equals sign. -/
def read (line : List Char) : Except RuleFault (Rule String) :=
  match line.dropWhile (· != '=') with
  | [] => .error .missingEquals
  | _ :: right => do
      let head ← readHead (line.takeWhile (· != '='))
      let body ← readBody ((Text.wordChars right).map String.ofList)
      pure ⟨head, body⟩

/-- Holds of the trimmed lines that carry no rule. -/
def isPassedOver : List Char → Bool
  | [] => true
  | '#' :: _ => true
  | '/' :: '/' :: _ => true
  | _ => false

/-- The rules on the lines from the given number on, or the number and the fault of the first
line that is none. -/
def readLines : Nat → List (List Char) → Except (Nat × RuleFault) (List (Rule String))
  | _, [] => .ok []
  | number, line :: lines =>
      let line := Text.trimChars line
      if isPassedOver line then readLines (number + 1) lines
      else
        match read line with
        | .error fault => .error (number, fault)
        | .ok rule => (readLines (number + 1) lines).map (rule :: ·)

/-- The rules of a grammar text; lines are counted from one. -/
def readText (text : String) : Except (Nat × RuleFault) (List (Rule String)) :=
  readLines 1 (Text.lineChars text.toList)

end Rule

namespace Symbol

/-- The word that denotes a symbol. -/
def word : Symbol String → String
  | terminal tag => tag.keyword
  | nonterminal name => name

end Symbol

namespace Rule

/-- The line that a rule is written on. -/
def line (rule : Rule String) : String :=
  rule.head ++ " = " ++ " ".intercalate (rule.body.symbols.map Symbol.word)

end Rule

end Formulary
