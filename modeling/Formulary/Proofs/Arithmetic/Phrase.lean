import Formulary.Proofs.Arithmetic.Rules
import Formulary.Synthesis

/-! Phrases: runs of tokens with the values that they stand for.
A chain of operands folds to the left, the operands of sums are products, and those of products
are single factors.  Every phrase is derived by the built-in rules.
-/

namespace Formulary.Arithmetic

/-- The levels of operators, of which products bind tighter. -/
inductive Level where
  | sum
  | product
deriving DecidableEq, Repr

/-- The kinds of phrases: chains of operands at a level, and what no operator takes apart. -/
inductive Kind where
  | chain (level : Level)
  | factor
deriving DecidableEq, Repr

namespace Level

/-- The category of the operators that join operands. -/
def operator : Level → Tag
  | sum => .addOp
  | product => .mulOp

/-- The phrases that are joined. -/
def operand : Level → Kind
  | sum => .chain product
  | product => .factor

end Level

/-- One name, or several joined by dots, with the text that they make up. -/
inductive DottedName : List Token → String → Prop where
  | name (text : String)
    : DottedName [⟨.name, text⟩] text
  | member {tokens : List Token} {path : String} (text : String) (below : DottedName tokens path)
    : DottedName (tokens ++ [⟨.dot, "."⟩, ⟨.name, text⟩]) (path ++ "." ++ text)

/-- Runs of tokens with a comma between each and the next. -/
def commaSeparated (runs : List (List Token)) : List Token :=
  [⟨.comma, ","⟩].intercalate runs

/-- A further run comes before a comma. -/
theorem commaSeparated_cons {first : List Token} {others : List (List Token)} (h : others ≠ [])
    : commaSeparated (first :: others) = first ++ ⟨.comma, ","⟩ :: commaSeparated others := by
  rw [commaSeparated, List.intercalate_cons_of_ne_nil h, List.append_assoc]
  rfl

/-- The tokens of every run are among those of all, by induction on the runs. -/
theorem subset_commaSeparated {runs : List (List Token)} {run : List Token} (h : run ∈ runs)
    : run ⊆ commaSeparated runs := by
  induction runs with
  | nil => cases h
  | cons first others ih =>
      rcases eq_or_ne others [] with rfl | hne
      · rw [List.mem_singleton] at h
        simp [h, commaSeparated]
      · rw [commaSeparated_cons hne]
        rcases List.mem_cons.1 h with rfl | h
        · exact List.subset_append_left _ _
        · exact fun token htoken => List.mem_append_right first (.tail _ (ih h htoken))

/-- The runs of tokens of each kind, each with its value. -/
inductive Phrase : Kind → List Token → Value → Prop where
  | operand {level : Level} {tokens : List Token} {value : Value}
    (below : Phrase level.operand tokens value)
    : Phrase (.chain level) tokens value
  | join {level : Level} {first second : List Token} {left right : Value} {op : BinaryOp}
    {text : String} (hop : BinaryOp.ofSymbol? text = some op)
    (hleft : Phrase (.chain level) first left) (hright : Phrase level.operand second right)
    : Phrase (.chain level) (first ++ ⟨level.operator, text⟩ :: second)
        (.binary .enclosed op left right)
  | constant (text : String)
    : Phrase .factor [⟨.number, text⟩] (.constant text)
  | named {tokens : List Token} {path : String} (hname : DottedName tokens path)
    : Phrase .factor tokens (.named path)
  | group {tokens : List Token} {value : Value} (below : Phrase (.chain .sum) tokens value)
    : Phrase .factor (⟨.leftParen, "("⟩ :: (tokens ++ [⟨.rightParen, ")"⟩])) (.parens value)
  | call (name : String) {args : List (List Token × Value)}
    (hargs : ∀ arg ∈ args, Phrase (.chain .sum) arg.1 arg.2)
    : Phrase .factor
        (⟨.funcName, name⟩ :: ⟨.leftParen, "("⟩
          :: (commaSeparated (args.map Prod.fst) ++ [⟨.rightParen, ")"⟩]))
        (.call name (args.map Prod.snd))

/-- A name in front of a dotted name makes it longer. -/
theorem DottedName.cons {tokens : List Token} {path : String} (text : String)
    (h : DottedName tokens path)
    : DottedName (⟨.name, text⟩ :: ⟨.dot, "."⟩ :: tokens) (text ++ "." ++ path) := by
  induction h with
  | name last => exact .member last (.name text)
  | member last _ ih => simpa [String.append_assoc] using ih.member last

/-- A chain at any level is an expression. -/
theorem Phrase.sum_of_chain {level : Level} {tokens : List Token} {value : Value}
    (h : Phrase (.chain level) tokens value)
    : Phrase (.chain .sum) tokens value := by
  cases level with
  | sum => exact h
  | product => exact .operand h

/-- A factor is a chain of a single operand at each level. -/
theorem Phrase.chain_of_factor {tokens : List Token} {value : Value}
    (h : Phrase .factor tokens value) (level : Level)
    : Phrase (.chain level) tokens value := by
  have hproduct : Phrase (.chain .product) tokens value := .operand h
  cases level with
  | sum => exact hproduct.sum_of_chain
  | product => exact hproduct

/-- A factor can stand as an operand at each level. -/
theorem Phrase.operand_of_factor {tokens : List Token} {value : Value}
    (h : Phrase .factor tokens value) (level : Level)
    : Phrase level.operand tokens value := by
  cases level with
  | sum => exact h.chain_of_factor .product
  | product => exact h

-----------------------------------------------------------------------------------------
-- Phrases are derived by the rules
-----------------------------------------------------------------------------------------

open Nonterminal Parse

/-- The nonterminal of the phrases of a kind. -/
def Kind.nonterminal : Kind → Nonterminal
  | chain .sum => expr
  | chain .product => term
  | factor => .factor

/-- A dotted name with a point behind it can be the head of a longer one.  By induction on the name:
with one more part it is a member, and with a point behind that a head again. -/
theorem DottedName.derives_memberHead {tokens : List Token} {path : String}
    (h : DottedName tokens path)
    : Derives .arithmetic (.nonterminal (number memberHead)) (tokens.map Token.tag ++ [.dot]) := by
  induction h with
  | name text =>
      exact
        derives_pair memberHead (.terminal .name) (.terminal .dot) (by decide) (.terminal .name)
          (.terminal .dot)
  | member text _ ih =>
      have hmember :=
        derives_pair Nonterminal.member (.nonterminal memberHead) (.terminal .name) (by decide) ih
          (.terminal .name)
      have hhead :=
        derives_pair memberHead (.nonterminal Nonterminal.member) (.terminal .dot) (by decide)
          hmember (.terminal .dot)
      simpa using hhead

/-- A dotted name is derived from a factor: a single name at once, a longer one as a member. -/
theorem DottedName.derives {tokens : List Token} {path : String} (h : DottedName tokens path)
    : Derives .arithmetic (.nonterminal (number factor)) (tokens.map Token.tag) := by
  cases h with
  | name text =>
      exact derives_unit factor (.terminal .name) (by decide) (.terminal .name)
  | member text below =>
      have hmember :=
        derives_pair Nonterminal.member (.nonterminal memberHead) (.terminal .name) (by decide)
          below.derives_memberHead (.terminal .name)
      have hfactor := derives_unit factor (.nonterminal Nonterminal.member) (by decide) hmember
      simpa using hfactor

/-- Expressions with commas between them make up a list of arguments.  By induction on the
expressions behind the first one. -/
theorem derives_args {first : List Token} {others : List (List Token)}
    (h : ∀ run ∈ first :: others,
      Derives .arithmetic (.nonterminal (number expr)) (run.map Token.tag))
    : Derives .arithmetic (.nonterminal (number args))
        ((commaSeparated (first :: others)).map Token.tag) := by
  induction others generalizing first with
  | nil =>
      have hfirst := h first List.mem_cons_self
      simpa [commaSeparated] using derives_unit args (.nonterminal expr) (by decide) hfirst
  | cons next others ih =>
      have hothers := ih fun run hrun => h run (List.mem_cons_of_mem _ hrun)
      have htail :=
        derives_pair argsTail (.terminal .comma) (.nonterminal args) (by decide)
          (.terminal .comma) hothers
      have hargs :=
        derives_pair args (.nonterminal expr) (.nonterminal argsTail) (by decide)
          (h first List.mem_cons_self) htail
      simpa [commaSeparated_cons] using hargs

/-- What stands behind the opening parenthesis of a call. -/
theorem derives_callTail {runs : List (List Token)}
    (h : ∀ run ∈ runs, Derives .arithmetic (.nonterminal (number expr)) (run.map Token.tag))
    : Derives .arithmetic (.nonterminal (number callTail))
        ((commaSeparated runs ++ [Token.mk .rightParen ")"]).map Token.tag) := by
  cases runs with
  | nil =>
      exact derives_unit callTail (.terminal .rightParen) (by decide) (.terminal .rightParen)
  | cons first others =>
      have hargs :=
        derives_pair callTail (.nonterminal args) (.terminal .rightParen) (by decide)
          (derives_args h) (.terminal .rightParen)
      simpa using hargs

/-- Phrases are derived from the nonterminal of their kind, by induction on the phrase.  Each way to
put a phrase together is a rule, or a few of them one below the other. -/
theorem Phrase.derives {kind : Kind} {tokens : List Token} {value : Value}
    (h : Phrase kind tokens value)
    : Derives .arithmetic (.nonterminal (number kind.nonterminal)) (tokens.map Token.tag) := by
  induction h with
  | @operand level _ _ _ ih =>
      cases level with
      | sum => exact derives_unit expr (.nonterminal term) (by decide) ih
      | product => exact derives_unit term (.nonterminal factor) (by decide) ih
  | @join level first second _ _ _ text _ _ _ ihLeft ihRight =>
      rw [List.append_cons, List.map_append, List.map_append]
      cases level with
      | sum =>
          have hhead :=
            derives_pair sumHead (.nonterminal expr) (.terminal .addOp) (by decide) ihLeft
              (.terminal .addOp)
          refine derives_unit expr (.nonterminal sum) (by decide) ?_
          exact
            derives_pair sum (.nonterminal sumHead) (.nonterminal term) (by decide) hhead ihRight
      | product =>
          have hhead :=
            derives_pair productHead (.nonterminal term) (.terminal .mulOp) (by decide) ihLeft
              (.terminal .mulOp)
          refine derives_unit term (.nonterminal product) (by decide) ?_
          exact
            derives_pair product (.nonterminal productHead) (.nonterminal factor) (by decide) hhead
              ihRight
  | constant text =>
      exact derives_unit factor (.terminal .number) (by decide) (.terminal .number)
  | named hname => exact hname.derives
  | group _ ih =>
      have hhead :=
        derives_pair parensHead (.terminal .leftParen) (.nonterminal expr) (by decide)
          (.terminal .leftParen) ih
      have hparens :=
        derives_pair parens (.nonterminal parensHead) (.terminal .rightParen) (by decide) hhead
          (.terminal .rightParen)
      simpa [Kind.nonterminal] using derives_unit factor (.nonterminal parens) (by decide) hparens
  | @call name args _ ih =>
      have hruns : ∀ run ∈ args.map Prod.fst,
          Derives .arithmetic (.nonterminal (number expr)) (run.map Token.tag) := by
        intro run hrun
        obtain ⟨arg, harg, rfl⟩ := List.mem_map.1 hrun
        exact ih arg harg
      have hhead :=
        derives_pair callHead (.terminal .funcName) (.terminal .leftParen) (by decide)
          (.terminal .funcName) (.terminal .leftParen)
      have hcall :=
        derives_pair Nonterminal.call (.nonterminal callHead) (.nonterminal callTail) (by decide)
          hhead (derives_callTail hruns)
      simpa [Kind.nonterminal] using
        derives_unit factor (.nonterminal Nonterminal.call) (by decide) hcall

/-- A phrase that takes up all tokens has a derivation tree. -/
theorem Phrase.exists_derivation {tokens : List Token} {value : Value}
    (h : Phrase (.chain .sum) tokens value)
    : ∃ tree,
        Derivation .arithmetic (tokens.toArray.map Token.tag) (.nonterminal (number start)) 0
          tokens.length tree := by
  have hstart := derives_unit start (.nonterminal expr) (by decide) h.derives
  simpa using hstart.exists_derivation [] []

/-- No phrase is empty, as nothing is derived from no token. -/
theorem Phrase.length_pos {kind : Kind} {tokens : List Token} {value : Value}
    (h : Phrase kind tokens value)
    : 0 < tokens.length := by
  simpa using h.derives.length_pos

end Formulary.Arithmetic
