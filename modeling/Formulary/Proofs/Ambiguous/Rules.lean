import Formulary.Proofs.Grammar.Numbering
import Formulary.Proofs.Parse.Enumeration

/-! A grammar without precedence and associativity.
Every operand of a sum is an expression again, so a chain of additive operators can be bracketed
in every way.
-/

namespace Formulary.Ambiguous

/-- The nonterminals, in the order in which the rules mention them. -/
inductive Nonterminal where
  | product
  | productHead
  | term
  | sum
  | sumHead
  | expr
  | parens
  | parensHead
  | function
  | functionHead
  | functionTail
  | list
  | listTail
  | start
deriving DecidableEq, Repr

namespace Nonterminal

def all : List Nonterminal :=
  [
    product, productHead, term, sum, sumHead, expr, parens, parensHead, function, functionHead,
    functionTail, list, listTail, start
  ]

def name : Nonterminal → String
  | product => "product"
  | productHead => "product_head"
  | term => "term"
  | sum => "sum"
  | sumHead => "sum_head"
  | expr => "expr"
  | parens => "parens"
  | parensHead => "parens_head"
  | function => "function"
  | functionHead => "function_head"
  | functionTail => "function_tail"
  | list => "list"
  | listTail => "list_tail"
  | start => "start"

/-- The place among all nonterminals. -/
def number (a : Nonterminal) : Nat :=
  all.idxOf a

end Nonterminal

/-- The grammar as it is written. -/
def text : String := "
product = product_head term
product_head = term mulop

sum = sum_head expr
sum_head = expr addop

parens = parens_head rparen
parens_head = lparen expr

function = function_head function_tail
function_head = funcname lparen
function_tail = rparen
function_tail = list rparen
list = expr list_tail
list = expr
list_tail = comma list

term = number
term = parens
term = product
term = function
term = name

expr = number
expr = parens
expr = product
expr = sum
expr = function
expr = name

start = expr
"

open Nonterminal Formulary.Symbol

/-- The rules in the order in which they are tried. -/
def rules : List (Rule Nonterminal) :=
  [
    ⟨product, .pair (nonterminal productHead) (nonterminal term)⟩,
    ⟨productHead, .pair (nonterminal term) (terminal .mulOp)⟩,
    ⟨sum, .pair (nonterminal sumHead) (nonterminal expr)⟩,
    ⟨sumHead, .pair (nonterminal expr) (terminal .addOp)⟩,
    ⟨parens, .pair (nonterminal parensHead) (terminal .rightParen)⟩,
    ⟨parensHead, .pair (terminal .leftParen) (nonterminal expr)⟩,
    ⟨function, .pair (nonterminal functionHead) (nonterminal functionTail)⟩,
    ⟨functionHead, .pair (terminal .funcName) (terminal .leftParen)⟩,
    ⟨functionTail, .unit (terminal .rightParen)⟩,
    ⟨functionTail, .pair (nonterminal list) (terminal .rightParen)⟩,
    ⟨list, .pair (nonterminal expr) (nonterminal listTail)⟩,
    ⟨list, .unit (nonterminal expr)⟩,
    ⟨listTail, .pair (terminal .comma) (nonterminal list)⟩,
    ⟨term, .unit (terminal .number)⟩,
    ⟨term, .unit (nonterminal parens)⟩,
    ⟨term, .unit (nonterminal product)⟩,
    ⟨term, .unit (nonterminal function)⟩,
    ⟨term, .unit (terminal .name)⟩,
    ⟨expr, .unit (terminal .number)⟩,
    ⟨expr, .unit (nonterminal parens)⟩,
    ⟨expr, .unit (nonterminal product)⟩,
    ⟨expr, .unit (nonterminal sum)⟩,
    ⟨expr, .unit (nonterminal function)⟩,
    ⟨expr, .unit (terminal .name)⟩,
    ⟨start, .unit (nonterminal expr)⟩
  ]

/-- The rules with their nonterminals numbered. -/
def numberedRules : List (Rule Nat) :=
  rules.map (Rule.map number)

/-- Walking the unit rules settles the nonterminals from the leaves up. -/
theorem walk_numberedRules
    : UnitOrder.walk (UnitOrder.children numberedRules) 14
      = .ok [13, 12, 11, 10, 9, 7, 5, 4, 3, 2, 8, 6, 1, 0] :=
  rfl

/-- No nonterminal leads back to itself by unit rules, since the walk over them comes to an end. -/
theorem numberedRules_unitAcyclic
    : UnitAcyclic numberedRules :=
  Grammar.unitAcyclic_of_walk walk_numberedRules (by decide)

/-- The grammar of the rules. -/
def grammar : Grammar :=
  .ofNumbered (all.map name).toArray numberedRules (by decide) numberedRules_unitAcyclic

-- The characters of the whole text are matched at once.
set_option maxRecDepth 8000 in
/-- Every line of the text that is not blank is a rule, and the rules stand in this order. -/
theorem readText_text
    : Rule.readText text = .ok (rules.map (Rule.map name)) :=
  have hchars (chars : List Char)
      : Rule.readText (String.ofList chars) = Rule.readLines 1 (Text.lineChars chars) := by
    rw [Rule.readText, String.toList_ofList]
  (hchars _).trans (by decide +kernel)

/-- The text compiles to the grammar of the rules, with the nonterminals numbered as the rules
mention them. -/
theorem compile_text
    : Grammar.compile text = .ok grammar :=
  Grammar.compile_eq_ok readText_text (by decide +kernel) (by decide +kernel) walk_numberedRules

/-- The start label denotes the last nonterminal. -/
theorem lookup?_start
    : grammar.lookup? "start" = some (.nonterminal (number start)) := by
  decide +kernel

/-- The alternatives of a nonterminal are those of its rules as they are written, checked for
each. -/
theorem alternatives_number (a : Nonterminal)
    : grammar.alternatives (number a)
      = (rules.filter fun rule => rule.head = a).map fun rule => rule.body.map number := by
  rw [Grammar.alternatives_eq]
  cases a <;> rfl

end Formulary.Ambiguous
