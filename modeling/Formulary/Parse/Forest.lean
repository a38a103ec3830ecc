import Formulary.Diagnostic
import Formulary.Parse.Trees
import Formulary.Tree

/-! Parsing a span of tokens.
A forest is a suspended enumeration of parse trees.  Taking a tree from it gives the rest as a
forest of its own, so enumerations never disturb each other, and an exhausted one stays so.  A pool
holds several forests, each under a name, and a step on one of them leaves the others as they are.
-/

namespace Formulary

-----------------------------------------------------------------------------------------
-- Forests
-----------------------------------------------------------------------------------------

/-- The trees of an enumeration that have not been taken yet. -/
structure Forest where
  pending : Thunk (LazySeq Tree)

namespace Forest

/-- The forest that is exhausted. -/
def empty : Forest :=
  ⟨⟨fun _ => .nil⟩⟩

/-- All trees that are left, in order. -/
def toList (forest : Forest) : List Tree :=
  forest.pending.get.toList

/-- Takes one tree. -/
def next (forest : Forest) : Option Tree × Forest :=
  match forest.pending.get with
  | .nil => (none, empty)
  | .cons tree rest => (some tree, ⟨rest⟩)

/-- Takes at most so many trees. -/
def take (count : Nat) (forest : Forest) : List Tree × Forest :=
  let (trees, rest) := LazySeq.splitAt count forest.pending
  (trees, ⟨rest⟩)

/-- Takes every tree that is left. -/
def drain (forest : Forest) : List Tree × Forest :=
  (forest.toList, empty)

end Forest

/-- Why there is no parse. -/
inductive ParseError where
  | noParse (start stop : Nat) (label text : String)
  | invalidSpan (start stop count : Nat)
  | unknownStart (label : String)
  | unknownNonterminal (name : String)
deriving DecidableEq, Repr

namespace ParseError

def diagnostic : ParseError → Diagnostic
  | noParse start stop label text =>
      ⟨.parse, .noParse, some (start, stop),
        some ("no derivation of " ++ label ++ " for " ++ Text.quote text)⟩
  | invalidSpan start stop count =>
      ⟨.parse, .invalidSpan, some (start, stop),
        some ("span " ++ toString start ++ ".." ++ toString stop ++ " is outside 0.."
          ++ toString count)⟩
  | unknownStart label =>
      ⟨.parse, .unknownLabel, none, some ("start label '" ++ label ++ "' is not in the grammar")⟩
  | unknownNonterminal name =>
      ⟨.parse, .unknownLabel, none, some ("'" ++ name ++ "' is not a nonterminal of the grammar")⟩

end ParseError

namespace Parse

/-- A span must lie within the tokens. -/
def checkSpan (tokens : Array Token) (start stop : Nat) : Except ParseError Unit :=
  if start > stop || stop > tokens.size then .error (.invalidSpan start stop tokens.size)
  else .ok ()

/-- The forest of a label over a span, which must lie within the tokens. -/
def forest (grammar : Grammar) (tokens : Array Token) (start stop : Nat) (label : Symbol Nat)
    : Except ParseError Forest := do
  checkSpan tokens start stop
  pure ⟨⟨fun _ => trees grammar (tokens.map Token.tag) start stop label⟩⟩

/-- The failure to find a tree of a label that has this name. -/
def noParseOf (name : String) (tokens : Array Token) (start stop : Nat) : ParseError :=
  .noParse start stop name (Token.textOf (tokens.extract start stop).toList)

/-- The failure to find a tree. -/
def noParse (grammar : Grammar) (tokens : Array Token) (start stop : Nat) (label : Symbol Nat)
    : ParseError :=
  noParseOf (grammar.symbolName label) tokens start stop

/-- Trees of which there must be one, or else the failure. -/
def someOf (failure : ParseError) : List Tree → Except ParseError (List Tree)
  | [] => .error failure
  | tree :: trees => .ok (tree :: trees)

/-- The first tree of a label over a span. -/
def first (grammar : Grammar) (tokens : Array Token) (start stop : Nat) (label : Symbol Nat)
    : Except ParseError Tree := do
  match (← forest grammar tokens start stop label).next with
  | (some tree, _) => pure tree
  | (none, _) => throw (noParse grammar tokens start stop label)

/-- Every tree of a label over a span, of which there must be one. -/
def all (grammar : Grammar) (tokens : Array Token) (start stop : Nat) (label : Symbol Nat)
    : Except ParseError (List Tree) := do
  let found ← forest grammar tokens start stop label
  someOf (noParse grammar tokens start stop label) found.toList

end Parse

-----------------------------------------------------------------------------------------
-- Pools of forests
-----------------------------------------------------------------------------------------

/-- Forests under their names; a name is found at its first entry. -/
structure Pool where
  entries : List (String × Forest)

namespace Pool

def empty : Pool :=
  ⟨[]⟩

/-- The forest under a name; one never opened has no trees. -/
def get (pool : Pool) (name : String) : Forest :=
  (pool.entries.lookup name).getD Forest.empty

/-- Puts a forest under a name, in the place of an earlier one. -/
def set (pool : Pool) (name : String) (forest : Forest) : Pool :=
  ⟨(name, forest) :: pool.entries.filter (·.1 != name)⟩

/-- Replaces the forest under a name by what a step leaves of it. -/
def step (pool : Pool) (name : String) (advance : Forest → α × Forest) : α × Pool :=
  let (result, rest) := advance (pool.get name)
  (result, pool.set name rest)

/-- Takes one tree from the forest under a name. -/
def next (pool : Pool) (name : String) : Option Tree × Pool :=
  pool.step name Forest.next

/-- Takes at most so many trees and counts them. -/
def skip (pool : Pool) (name : String) (count : Nat) : Nat × Pool :=
  let (trees, pool) := pool.step name (Forest.take count)
  (trees.length, pool)

/-- Takes all trees that are left and counts them. -/
def count (pool : Pool) (name : String) : Nat × Pool :=
  let (trees, pool) := pool.step name Forest.drain
  (trees.length, pool)

end Pool

end Formulary
