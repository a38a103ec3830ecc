import Formulary.Diagnostic
import Formulary.Grammar.Rule
import Formulary.Grammar.UnitOrder
import Formulary.Token.Basic

/-! Compiled grammars.
A grammar is immutable once compiled.  It keeps its rules in the order they were written, and
beside them the tables that parsing consults: the alternatives of each nonterminal and the
terminals at the two ends of its derivations.  No nonterminal reaches itself by unit rules.  No
production is empty, so a derivation begins with a terminal of its leftmost symbol and ends with one
of its rightmost; after as many rounds as there are nonterminals every chain of such symbols has
been followed.
-/

namespace Formulary

-----------------------------------------------------------------------------------------
-- Terminals at the edges of derivations
-----------------------------------------------------------------------------------------

namespace Boundary

/-- The terminals at the chosen edge of a symbol, given those of the nonterminals. -/
def edgeSet (sets : Array TagSet) : Symbol Nat → TagSet
  | .terminal tag => .single tag
  | .nonterminal a => sets.getD a ∅

/-- One round: each nonterminal collects the edges of its alternatives. -/
def round (edge : Body Nat → Symbol Nat) (alternatives : Array (List (Body Nat)))
    (sets : Array TagSet) : Array TagSet :=
  alternatives.map fun bodies =>
    bodies.foldl (fun set body => set ∪ edgeSet sets (edge body)) ∅

/-- The sets after a number of rounds from empty ones. -/
def rounds (edge : Body Nat → Symbol Nat) (alternatives : Array (List (Body Nat)))
    : Nat → Array TagSet
  | 0 => alternatives.map fun _ => ∅
  | count + 1 => round edge alternatives (rounds edge alternatives count)

/-- The terminals at the chosen edge of each nonterminal. -/
def sets (edge : Body Nat → Symbol Nat) (alternatives : Array (List (Body Nat)))
    : Array TagSet :=
  rounds edge alternatives alternatives.size

end Boundary

-----------------------------------------------------------------------------------------
-- Compiled grammars
-----------------------------------------------------------------------------------------

/-- Some ranking puts the left side of every unit rule above its right side. -/
def UnitAcyclic (rules : List (Rule Nat)) : Prop :=
  ∃ rank : Nat → Nat, ∀ rule ∈ rules, ∀ b, rule.body.unitChild? = some b → rank b < rank rule.head

/-- For each nonterminal below a count the bodies of its rules, in rule order. -/
def alternativeTable (count : Nat) (rules : List (Rule Nat)) : Array (List (Body Nat)) :=
  Array.ofFn fun a : Fin count =>
    rules.filterMap fun rule => if rule.head = a.val then some rule.body else none

/-- A compiled grammar. -/
structure Grammar where
  /-- The nonterminals, at the positions of their numbers. -/
  names : Array String
  rules : List (Rule Nat)
  bounded : ∀ rule ∈ rules, ∀ a ∈ rule.names, a < names.size
  bodies : Array (List (Body Nat))
  firsts : Array TagSet
  lasts : Array TagSet
  bodies_eq : bodies = alternativeTable names.size rules
  firsts_eq : firsts = Boundary.sets Body.first bodies
  lasts_eq : lasts = Boundary.sets Body.last bodies
  acyclic : UnitAcyclic rules

/-- Why a text is not a grammar. -/
inductive GrammarError where
  | malformed (line : Nat) (fault : RuleFault)
  | unitCycle (name : String)
deriving DecidableEq, Repr

namespace RuleFault

def code : RuleFault → FailureCode
  | terminalOnLeft _ => .terminalOnLeft
  | _ => .malformedRule

def message : RuleFault → String
  | missingEquals => "missing '='"
  | leftName => "expected a single name before '='"
  | terminalOnLeft name => "terminal '" ++ name ++ "' cannot have rules"
  | symbolCount found => "expected 1 or 2 symbols after '=', found " ++ toString found

end RuleFault

namespace GrammarError

def diagnostic : GrammarError → Diagnostic
  | malformed line fault =>
      ⟨.grammar, fault.code, none, some ("line " ++ toString line ++ ": " ++ fault.message)⟩
  | unitCycle name =>
      ⟨.grammar, .unitCycle, none, some ("'" ++ name ++ "' derives itself through unit rules")⟩

end GrammarError

namespace Grammar

/-- The grammar of some rules with its tables. -/
def ofNumbered (names : Array String) (rules : List (Rule Nat))
    (bounded : ∀ rule ∈ rules, ∀ a ∈ rule.names, a < names.size) (acyclic : UnitAcyclic rules)
    : Grammar :=
  let bodies := alternativeTable names.size rules
  {
    names, rules, bounded, bodies, acyclic,
    firsts := Boundary.sets Body.first bodies,
    lasts := Boundary.sets Body.last bodies,
    bodies_eq := rfl,
    firsts_eq := rfl,
    lasts_eq := rfl
  }

/-- A completed walk over the unit rules shows that they have no cycle. -/
theorem unitAcyclic_of_walk {rules : List (Rule Nat)} {count : Nat} {settled : List Nat}
    (hwalk : UnitOrder.walk (UnitOrder.children rules) count = .ok settled)
    (hheads : ∀ rule ∈ rules, rule.head < count)
    : UnitAcyclic rules := by
  obtain ⟨hsettled, hall⟩ := UnitOrder.settled_walk hwalk
  refine ⟨UnitOrder.height settled, fun rule hrule b hb => ?_⟩
  refine UnitOrder.height_lt_height hsettled (hall _ (hheads rule hrule)) ?_
  exact List.mem_filterMap.2 ⟨rule, hrule, by simpa using hb⟩

/-- Compiles rules whose nonterminals are named by text. -/
def ofRules (rules : List (Rule String)) : Except GrammarError Grammar :=
  let names := Numbering.names rules
  let numbered := Numbering.number names rules
  match h : UnitOrder.walk (UnitOrder.children numbered) names.length with
  | .ok _ =>
      have bounded := fun rule (hrule : rule ∈ numbered) _ => Numbering.lt_length_of_mem_names hrule
      .ok (ofNumbered names.toArray numbered bounded
        (unitAcyclic_of_walk h fun rule hrule => bounded rule hrule _ List.mem_cons_self))
  | .error a => .error (.unitCycle (names.getD a ""))

/-- Compiles a grammar text.  A line that is no rule is reported before any cycle. -/
def compile (text : String) : Except GrammarError Grammar :=
  match Rule.readText text with
  | .error (line, fault) => .error (.malformed line fault)
  | .ok rules => ofRules rules

/-- The bodies of a nonterminal's rules, in rule order. -/
def alternatives (grammar : Grammar) (a : Nat) : List (Body Nat) :=
  grammar.bodies.getD a []

/-- The alternatives are read off the rules, whether or not the number is in use. -/
theorem alternatives_eq (grammar : Grammar) (a : Nat)
    : grammar.alternatives a
      = grammar.rules.filterMap fun rule => if rule.head = a then some rule.body else none := by
  simp only [alternatives, grammar.bodies_eq, Array.getD_eq_getD_getElem?]
  by_cases ha : a < grammar.names.size
  · simp only [alternativeTable, Array.getElem?_ofFn, ha, dif_pos, Option.getD_some]
  · have hnone : ∀ rule ∈ grammar.rules,
        (if rule.head = a then some rule.body else none) = none := by
      intro rule hrule
      have hlt := grammar.bounded rule hrule rule.head List.mem_cons_self
      rw [if_neg (by omega)]
    rw [List.filterMap_eq_nil_iff.2 hnone]
    simp [alternativeTable, ha]

/-- The alternatives of a nonterminal are the right sides of its rules and nothing else. -/
@[simp]
theorem mem_alternatives {grammar : Grammar} {a : Nat} {body : Body Nat}
    : body ∈ grammar.alternatives a ↔ ⟨a, body⟩ ∈ grammar.rules := by
  rw [alternatives_eq, List.mem_filterMap]
  constructor
  · rintro ⟨⟨head, _⟩, hrule, hbody⟩
    split at hbody
    · rename_i hhead
      cases hbody
      exact hhead ▸ hrule
    · cases hbody
  · exact fun hrule => ⟨_, hrule, if_pos rfl⟩

/-- The number of a nonterminal. -/
def nonterminal? (grammar : Grammar) (name : String) : Option Nat :=
  grammar.names.idxOf? name

/-- The symbol with a name: categories first, then the nonterminals of the rules. -/
def lookup? (grammar : Grammar) (name : String) : Option (Symbol Nat) :=
  match Tag.ofName? name with
  | some tag => some (.terminal tag)
  | none => (grammar.nonterminal? name).map .nonterminal

/-- The name of a nonterminal. -/
def nonterminalName (grammar : Grammar) (a : Nat) : String :=
  grammar.names.getD a ""

/-- The name of a symbol as trees show it. -/
def symbolName (grammar : Grammar) : Symbol Nat → String
  | .terminal tag => tag.label
  | .nonterminal a => grammar.nonterminalName a

/-- The same name for those who ask for it within a monad. -/
def nameOf {m : Type → Type} [Pure m] (grammar : Grammar) (symbol : Symbol Nat) : m String :=
  pure (grammar.symbolName symbol)

/-- The categories that a derivation of the symbol can begin with. -/
def firstTags (grammar : Grammar) (symbol : Symbol Nat) : TagSet :=
  Boundary.edgeSet grammar.firsts symbol

/-- The categories that a derivation of the symbol can end with. -/
def lastTags (grammar : Grammar) (symbol : Symbol Nat) : TagSet :=
  Boundary.edgeSet grammar.lasts symbol

/-- The text of the rules, one on a line, in their order. -/
def render (grammar : Grammar) : String :=
  String.join
    (grammar.rules.map fun rule => (rule.map grammar.nonterminalName).line ++ "\n")

/-- A ranking of the nonterminals that puts each above its unit children. -/
noncomputable def rank (grammar : Grammar) : Symbol Nat → Nat
  | .terminal _ => 0
  | .nonterminal a => grammar.acyclic.choose a + 1

/-- A unit rule leads to a symbol of lower rank, as a grammar carries a rank that its unit rules
lower. -/
theorem rank_unit_lt {grammar : Grammar} {a : Nat} {symbol : Symbol Nat}
    (h : ⟨a, .unit symbol⟩ ∈ grammar.rules)
    : grammar.rank symbol < grammar.rank (.nonterminal a) := by
  cases symbol with
  | terminal tag => simp [rank]
  | nonterminal b =>
      exact Nat.succ_lt_succ
        (grammar.acyclic.choose_spec _ h b rfl)

end Grammar

end Formulary
