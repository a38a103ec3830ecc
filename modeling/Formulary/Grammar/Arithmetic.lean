import Formulary.Grammar.Basic

/-! The built-in grammar of arithmetic expressions.
Precedence and associativity lie in the shape of the rules.  A sum is an expression followed by
an additive operator and a term, so `a + b + c` splits only as `(a + b) + c`; products bind
tighter because a term never holds a bare additive operator.
-/

namespace Formulary.Arithmetic

/-- The nonterminals, in the order in which the rules mention them. -/
inductive Nonterminal where
  | start
  | expr
  | sum
  | term
  | sumHead
  | product
  | factor
  | productHead
  | member
  | parens
  | call
  | parensHead
  | callHead
  | callTail
  | args
  | argsTail
  | memberHead
deriving DecidableEq, Repr

namespace Nonterminal

def all : List Nonterminal :=
  [
    start, expr, sum, term, sumHead, product, factor, productHead, member, parens, call,
    parensHead, callHead, callTail, args, argsTail, memberHead
  ]

def name : Nonterminal → String
  | start => "start"
  | expr => "expr"
  | sum => "sum"
  | term => "term"
  | sumHead => "sum_head"
  | product => "product"
  | factor => "factor"
  | productHead => "product_head"
  | member => "member"
  | parens => "parens"
  | call => "call"
  | parensHead => "parens_head"
  | callHead => "call_head"
  | callTail => "call_tail"
  | args => "args"
  | argsTail => "args_tail"
  | memberHead => "member_head"

/-- The place among all nonterminals. -/
def number (a : Nonterminal) : Nat :=
  all.idxOf a

end Nonterminal

/-- The grammar as it is written. -/
def grammarText : String := "
start = expr

expr = sum
expr = term
sum = sum_head term
sum_head = expr addop

term = product
term = factor
product = product_head factor
product_head = term mulop

factor = number
factor = name
factor = member
factor = parens
factor = call

parens = parens_head rparen
parens_head = lparen expr

call = call_head call_tail
call_head = funcname lparen
call_tail = rparen
call_tail = args rparen
args = expr
args = expr args_tail
args_tail = comma args

member = member_head name
member_head = name dot
member_head = member dot
"

open Nonterminal Formulary.Symbol

/-- The rules in the order in which they are tried. -/
def rules : List (Rule Nonterminal) :=
  [
    ⟨start, .unit (nonterminal expr)⟩,
    ⟨expr, .unit (nonterminal sum)⟩,
    ⟨expr, .unit (nonterminal term)⟩,
    ⟨sum, .pair (nonterminal sumHead) (nonterminal term)⟩,
    ⟨sumHead, .pair (nonterminal expr) (terminal .addOp)⟩,
    ⟨term, .unit (nonterminal product)⟩,
    ⟨term, .unit (nonterminal factor)⟩,
    ⟨product, .pair (nonterminal productHead) (nonterminal factor)⟩,
    ⟨productHead, .pair (nonterminal term) (terminal .mulOp)⟩,
    ⟨factor, .unit (terminal .number)⟩,
    ⟨factor, .unit (terminal .name)⟩,
    ⟨factor, .unit (nonterminal member)⟩,
    ⟨factor, .unit (nonterminal parens)⟩,
    ⟨factor, .unit (nonterminal call)⟩,
    ⟨parens, .pair (nonterminal parensHead) (terminal .rightParen)⟩,
    ⟨parensHead, .pair (terminal .leftParen) (nonterminal expr)⟩,
    ⟨call, .pair (nonterminal callHead) (nonterminal callTail)⟩,
    ⟨callHead, .pair (terminal .funcName) (terminal .leftParen)⟩,
    ⟨callTail, .unit (terminal .rightParen)⟩,
    ⟨callTail, .pair (nonterminal args) (terminal .rightParen)⟩,
    ⟨args, .unit (nonterminal expr)⟩,
    ⟨args, .pair (nonterminal expr) (nonterminal argsTail)⟩,
    ⟨argsTail, .pair (terminal .comma) (nonterminal args)⟩,
    ⟨member, .pair (nonterminal memberHead) (terminal .name)⟩,
    ⟨memberHead, .pair (terminal .name) (terminal .dot)⟩,
    ⟨memberHead, .pair (nonterminal member) (terminal .dot)⟩
  ]

/-- The rules with their nonterminals numbered. -/
def numberedRules : List (Rule Nat) :=
  rules.map (Rule.map number)

/-- Walking the unit rules settles the nonterminals from the leaves up. -/
theorem walk_numberedRules
    : UnitOrder.walk (UnitOrder.children numberedRules) 17
      = .ok [16, 15, 14, 13, 12, 11, 7, 4, 0, 1, 3, 6, 10, 9, 8, 5, 2] :=
  rfl

/-- No nonterminal leads back to itself by unit rules, since the walk over them comes to an end. -/
theorem numberedRules_unitAcyclic
    : UnitAcyclic numberedRules :=
  Grammar.unitAcyclic_of_walk walk_numberedRules (by decide)

end Formulary.Arithmetic

namespace Formulary.Grammar

/-- The built-in grammar, which its text compiles to. -/
def arithmetic : Grammar :=
  ofNumbered (Arithmetic.Nonterminal.all.map Arithmetic.Nonterminal.name).toArray
    Arithmetic.numberedRules (by decide) Arithmetic.numberedRules_unitAcyclic

end Formulary.Grammar
