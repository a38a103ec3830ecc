import Formulary.Grammar.Arithmetic
import Formulary.Synthesis
import Formulary.Token.Lexer

/-! Languages: a grammar with its reductions and the label of whole expressions.
Reading a source goes through its tokens to the first parse tree and on to the value of that
tree; the first stage that fails gives the error.
-/

namespace Formulary

/-- Every failure of reading or building. -/
inductive Error where
  | lex (error : LexError)
  | grammar (error : GrammarError)
  | parse (error : ParseError)
  | synthesis (error : SynthesisError)
  | model (error : ModelError)

namespace Error

def diagnostic : Error → Diagnostic
  | lex error => error.diagnostic
  | grammar error => error.diagnostic
  | parse error => error.diagnostic
  | synthesis error => error.diagnostic
  | model error => error.diagnostic

/-- The line that shows an error. -/
def message (error : Error) : String :=
  error.diagnostic.message

end Error

/-- A grammar with its reductions and the label that whole expressions are parsed as. -/
structure Language where
  grammar : Grammar
  reductions : Reductions
  start : String

namespace Language

/-- The language of a grammar with the usual reductions. -/
def ofGrammar (grammar : Grammar) (start : String) : Language :=
  ⟨grammar, .usualFor grammar, start⟩

/-- The built-in language of arithmetic expressions. -/
def arithmetic : Language :=
  ofGrammar .arithmetic "start"

/-- The symbol that the start label denotes. -/
def startSymbol (language : Language) : Except ParseError (Symbol Nat) :=
  match language.grammar.lookup? language.start with
  | some symbol => .ok symbol
  | none => .error (.unknownStart language.start)

/-- Every parse of a whole run of tokens. -/
def forest (language : Language) (tokens : Array Token) : Except ParseError Forest := do
  Parse.forest language.grammar tokens 0 tokens.size (← language.startSymbol)

/-- The first parse of a whole run of tokens. -/
def firstTree (language : Language) (tokens : Array Token) : Except ParseError Tree := do
  Parse.first language.grammar tokens 0 tokens.size (← language.startSymbol)

/-- All parses of a whole run of tokens, of which there must be one. -/
def allTrees (language : Language) (tokens : Array Token) : Except ParseError (List Tree) := do
  Parse.all language.grammar tokens 0 tokens.size (← language.startSymbol)

/-- The tokens of a source. -/
def tokens (source : String) : Except Error (Array Token) :=
  ((tokenize source).map List.toArray).mapError .lex

/-- The value of the first parse of a run of tokens. -/
def value (language : Language) (tokens : Array Token) : Except Error Value := do
  let tree ← (language.firstTree tokens).mapError .parse
  (synthesize language.grammar language.reductions tokens tree).mapError .synthesis

/-- The value of a source. -/
def expression (language : Language) (source : String) : Except Error Value := do
  language.value (← tokens source)

end Language

end Formulary
