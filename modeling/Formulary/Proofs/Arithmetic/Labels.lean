import Formulary.Proofs.Arithmetic.Synthesis
import Formulary.Proofs.Language.Outcome

/-! Which start labels of the built-in grammar have values.
What a derivation tree yields depends on its symbol alone: expressions, their operands and numbers
yield values, and all else yields pieces that a parent has to combine.  So the label decides
whether synthesis succeeds, whatever the source.
-/

namespace Formulary.Arithmetic

open Nonterminal Synthesis

-----------------------------------------------------------------------------------------
-- Symbols with values
-----------------------------------------------------------------------------------------

/-- The labels of expressions, their operands and numbers. -/
def valueLabels : List String :=
  ["start", "expr", "term", "factor", "sum", "product", "parens", "call", "member", "number"]

/-- A label of a symbol that has values.  The names of categories are read in any letter case, so
labels are told apart by what they denote. -/
def DenotesValue (label : String) : Prop :=
  ∃ name ∈ valueLabels, Grammar.arithmetic.lookup? label = Grammar.arithmetic.lookup? name

instance (label : String) : Decidable (DenotesValue label) :=
  inferInstanceAs
    (Decidable
      (∃ name ∈ valueLabels, Grammar.arithmetic.lookup? label = Grammar.arithmetic.lookup? name))

/-- The symbols that the labels with values denote, in the same order. -/
def valueSymbols : List (Symbol Nonterminal) :=
  [
    .nonterminal start, .nonterminal expr, .nonterminal term, .nonterminal factor,
    .nonterminal sum, .nonterminal product, .nonterminal parens, .nonterminal call,
    .nonterminal member, .terminal .number
  ]

/-- The ten labels denote the symbols that can have values, in the same order. -/
theorem map_lookup?_valueLabels
    : valueLabels.map Grammar.arithmetic.lookup?
      = valueSymbols.map fun symbol => some (symbol.map number) := by
  decide +kernel

/-- Symbols with different names get different numbers, since nonterminals do. -/
theorem map_number_injective
    : Function.Injective (Symbol.map number) := by
  intro left right h
  cases left <;> cases right <;>
    simp_all [Symbol.map, number_injective.eq_iff]

/-- A label denotes a symbol that can have a value exactly if its own symbol is among them, as
numbering is injective. -/
theorem denotesValue_iff {label : String} {symbol : Symbol Nonterminal}
    (h : Grammar.arithmetic.lookup? label = some (symbol.map number))
    : DenotesValue label ↔ symbol ∈ valueSymbols := by
  have hinjective : Function.Injective fun symbol => some (Symbol.map number symbol) :=
    (Option.some_injective _).comp map_number_injective
  calc DenotesValue label
      ↔ some (symbol.map number) ∈ valueLabels.map Grammar.arithmetic.lookup? := by
        simp [DenotesValue, h, eq_comm]
    _ ↔ symbol ∈ valueSymbols := by
        rw [map_lookup?_valueLabels]
        exact List.mem_map_of_injective hinjective

/-- The symbol of a derivation decides whether its fragment is a value.  What each symbol asks of
its fragment says of which kind it is, case by case on the symbol. -/
theorem Denotes.exists_value_iff {symbol : Symbol Nonterminal} {tokens : List Token}
    {fragment : Fragment} (h : Denotes symbol tokens fragment)
    : (∃ value, fragment = .value value) ↔ symbol ∈ valueSymbols := by
  cases symbol with
  | terminal tag =>
      cases tag with
      | number =>
          obtain ⟨text, -, rfl⟩ := h
          simp [valueSymbols]
      | name | funcName =>
          obtain ⟨text, -, rfl⟩ := h
          simp [valueSymbols]
      | addOp | mulOp =>
          obtain ⟨_, _, -, rfl, -⟩ := h
          simp [valueSymbols]
      | dot | comma | leftParen | rightParen =>
          obtain ⟨-, rfl⟩ := h
          simp [valueSymbols]
  | nonterminal a =>
      cases a with
      | start | expr | sum | term | product | factor | parens | call | member =>
          obtain ⟨value, rfl, -⟩ := h
          simp [valueSymbols]
      | sumHead | productHead =>
          obtain ⟨_, _, _, _, -, rfl, -⟩ := h
          simp [valueSymbols]
      | parensHead =>
          obtain ⟨_, _, -, rfl, -⟩ := h
          simp [valueSymbols]
      | callHead =>
          obtain ⟨_, -, rfl⟩ := h
          simp [valueSymbols]
      | callTail =>
          obtain ⟨_, _, -, -, rfl, -⟩ := h
          simp [valueSymbols]
      | args =>
          obtain ⟨_, -, -, rfl, -⟩ := h
          simp [valueSymbols]
      | argsTail =>
          obtain ⟨_, _, -, -, -, rfl, -⟩ := h
          simp [valueSymbols]
      | memberHead =>
          obtain ⟨_, _, _, -, rfl, -⟩ := h
          simp [valueSymbols]

-----------------------------------------------------------------------------------------
-- Labels with values
-----------------------------------------------------------------------------------------

section Labels

variable {label source : String} {tokens : List Token} {tree : Tree}

/-- The first tree under a label has a value exactly when the label is one of a symbol with
values. -/
theorem exists_synthesize_iff_denotesValue (htokens : tokenize source = .ok tokens)
    (htree : (Language.ofGrammar .arithmetic label).firstTree tokens.toArray = .ok tree)
    : (∃ value,
        synthesize .arithmetic Language.arithmetic.reductions tokens.toArray tree = .ok value)
      ↔ DenotesValue label := by
  have hspelled : ∀ token ∈ tokens.toArray, token.Spelled := by
    simpa using (tokenize_eq_ok_iff.1 htokens).spelled
  obtain ⟨_, hlookup, hderivation⟩ := Language.exists_derivation_of_firstTree htree
  obtain ⟨symbol, rfl⟩ := exists_symbol_of_derivation hderivation
  have hlabel : Grammar.arithmetic.lookup? label = some (symbol.map number) := hlookup
  obtain ⟨result, hfragment, hdenotes⟩ := exists_fragmentOf_denotes hspelled symbol hderivation
  rw [denotesValue_iff hlabel, ← hdenotes.exists_value_iff, synthesize_eq,
    show fragment .arithmetic _ _ _ = _ from hfragment]
  cases result <;> simp [Except.bind]

/-- Under a label with values the synthesis of a first tree succeeds. -/
theorem exists_expression_of_denotesValue (hlabel : DenotesValue label)
    (htokens : tokenize source = .ok tokens)
    (htree : (Language.ofGrammar .arithmetic label).firstTree tokens.toArray = .ok tree)
    : ∃ value, (Language.ofGrammar .arithmetic label).expression source = .ok value := by
  obtain ⟨value, hvalue⟩ := (exists_synthesize_iff_denotesValue htokens htree).2 hlabel
  exact ⟨value, Language.expression_eq_iff.2 (.value htokens htree hvalue)⟩

/-- Under a label with values only the input can be at fault. -/
theorem isInputError_of_denotesValue (hlabel : DenotesValue label) {error : Error}
    (h : (Language.ofGrammar .arithmetic label).expression source = .error error)
    : error.diagnostic.isInputError = true := by
  cases Language.expression_eq_iff.1 h with
  | unrecognized _ => rfl
  | unknownLabel _ _ => rfl
  | noParse _ _ _ => rfl
  | shape htokens htree hsynthesis _ =>
      obtain ⟨value, hvalue⟩ := (exists_synthesize_iff_denotesValue htokens htree).2 hlabel
      cases hvalue.symm.trans hsynthesis

/-- Under any other label no first tree has a value. -/
theorem failsWith_of_not_denotesValue (hlabel : ¬ DenotesValue label)
    (htokens : tokenize source = .ok tokens)
    (htree : (Language.ofGrammar .arithmetic label).firstTree tokens.toArray = .ok tree)
    : (Language.ofGrammar .arithmetic label).FailsWith source .synthesis .unexpectedShape := by
  refine Language.failsWith_unexpectedShape_iff.2 ⟨tokens, tree, htokens, htree, ?_⟩
  intro value hvalue
  exact hlabel ((exists_synthesize_iff_denotesValue htokens htree).1 ⟨value, hvalue⟩)

end Labels

/-- Reading a source fails in four ways, in any language, and each has its one cause.  In the
built-in language the start label alone decides about the last: it never comes about under a label
of expressions, their operands or numbers, and always under any other, once there is a tree. -/
theorem expression_failures
    : (∀ (language : Language) (source : String),
        (∀ error,
          language.expression source = .error error
          → (error.diagnostic.stage, error.diagnostic.code) ∈ Language.failures)
        ∧ (language.FailsWith source .lex .unrecognizedCharacter
          ↔ ∀ tokens, tokenize source ≠ .ok tokens)
        ∧ (language.FailsWith source .parse .unknownLabel
          ↔ (∃ tokens, tokenize source = .ok tokens)
            ∧ language.grammar.lookup? language.start = none)
        ∧ (language.FailsWith source .parse .noParse
          ↔ ∃ tokens symbol,
              tokenize source = .ok tokens
              ∧ language.grammar.lookup? language.start = some symbol
              ∧ ∀ tree,
                ¬ Parse.Derivation language.grammar (tokens.toArray.map Token.tag) symbol 0
                    tokens.length tree)
        ∧ (language.FailsWith source .synthesis .unexpectedShape
          ↔ ∃ tokens tree,
              tokenize source = .ok tokens
              ∧ language.firstTree tokens.toArray = .ok tree
              ∧ ∀ value,
                synthesize language.grammar language.reductions tokens.toArray tree
                  ≠ .ok value))
      ∧ ∀ label source : String,
        (DenotesValue label
          → (∀ tokens tree,
              tokenize source = .ok tokens
              → (Language.ofGrammar .arithmetic label).firstTree tokens.toArray = .ok tree
              → ∃ value, (Language.ofGrammar .arithmetic label).expression source = .ok value)
            ∧ ∀ error,
              (Language.ofGrammar .arithmetic label).expression source = .error error
              → error.diagnostic.isInputError = true)
        ∧ (¬ DenotesValue label
          → ∀ tokens tree,
              tokenize source = .ok tokens
              → (Language.ofGrammar .arithmetic label).firstTree tokens.toArray = .ok tree
              → (Language.ofGrammar .arithmetic label).FailsWith source .synthesis
                  .unexpectedShape) := by
  refine ⟨fun language source => ?_, fun label source => ⟨fun hlabel => ⟨?_, ?_⟩, ?_⟩⟩
  · exact
      ⟨fun _ => Language.mem_failures_of_error, Language.failsWith_unrecognizedCharacter_iff,
        Language.failsWith_unknownLabel_iff, Language.failsWith_noParse_iff,
        Language.failsWith_unexpectedShape_iff⟩
  · intro tokens tree htokens htree
    exact exists_expression_of_denotesValue hlabel htokens htree
  · intro error herror
    exact isInputError_of_denotesValue hlabel herror
  · intro hlabel tokens tree htokens htree
    exact failsWith_of_not_denotesValue hlabel htokens htree

/-- A name has a value as a factor, and none with a dot behind it. -/
theorem expression_failures_name
    : (∃ value, (Language.ofGrammar .arithmetic "factor").expression "a" = .ok value)
      ∧ (Language.ofGrammar .arithmetic "member_head").FailsWith "a." .synthesis
          .unexpectedShape := by
  have hfactor : Grammar.arithmetic.lookup? "factor" = some (.nonterminal factor.number) := by
    decide +kernel
  have hhead
      : Grammar.arithmetic.lookup? "member_head" = some (.nonterminal memberHead.number) := by
    decide +kernel
  have hname : Parse.Derives .arithmetic (.terminal .name) [.name] := .terminal .name
  have hdot : Parse.Derives .arithmetic (.terminal .dot) [.dot] := .terminal .dot
  have hoperand := derives_unit factor (.terminal .name) (by decide) hname
  have hprefix := derives_pair memberHead (.terminal .name) (.terminal .dot) (by decide) hname hdot
  have hfactorTokens : tokenize "a" = .ok [⟨.name, "a"⟩] := by decide +kernel
  have hheadTokens : tokenize "a." = .ok [⟨.name, "a"⟩, ⟨.dot, "."⟩] := by decide +kernel
  obtain ⟨factorTree, hfactorTree⟩ : ∃ tree,
      (Language.ofGrammar .arithmetic "factor").firstTree #[⟨.name, "a"⟩] = .ok tree :=
    Language.exists_firstTree_of_derives hfactor hoperand
  obtain ⟨headTree, hheadTree⟩ : ∃ tree,
      (Language.ofGrammar .arithmetic "member_head").firstTree #[⟨.name, "a"⟩, ⟨.dot, "."⟩]
        = .ok tree :=
    Language.exists_firstTree_of_derives hhead hprefix
  obtain ⟨-, harithmetic⟩ := expression_failures
  obtain ⟨hsucceeds, -⟩ := harithmetic "factor" "a"
  obtain ⟨-, hfails⟩ := harithmetic "member_head" "a."
  exact
    ⟨(hsucceeds (by decide +kernel)).1 _ factorTree hfactorTokens hfactorTree,
      hfails (by decide +kernel) _ headTree hheadTokens hheadTree⟩

/-- The name of a category is read in any letter case, so `NUMBER` denotes numbers although it is
none of the labels in the list, and the value of `1` is found under it. -/
theorem exists_expression_numberTag
    : "NUMBER" ∉ valueLabels
      ∧ ∃ tokens tree value,
          tokenize "1" = .ok tokens
          ∧ (Language.ofGrammar .arithmetic "NUMBER").firstTree tokens.toArray = .ok tree
          ∧ (Language.ofGrammar .arithmetic "NUMBER").expression "1" = .ok value
          ∧ ¬ (Language.ofGrammar .arithmetic "NUMBER").FailsWith "1" .synthesis
              .unexpectedShape := by
  have hlookup : Grammar.arithmetic.lookup? "NUMBER" = some (.terminal .number) := by
    decide +kernel
  have hdenotes : DenotesValue "NUMBER" := ⟨"number", by decide, by decide +kernel⟩
  have htokens : tokenize "1" = .ok [⟨.number, "1"⟩] := by decide +kernel
  have hderives : Parse.Derives .arithmetic (.terminal .number) [.number] := .terminal .number
  obtain ⟨tree, htree⟩ : ∃ tree,
      (Language.ofGrammar .arithmetic "NUMBER").firstTree #[⟨.number, "1"⟩] = .ok tree :=
    Language.exists_firstTree_of_derives hlookup hderives
  obtain ⟨value, hvalue⟩ := exists_expression_of_denotesValue hdenotes htokens htree
  refine ⟨by decide, _, tree, value, htokens, htree, hvalue, ?_⟩
  rintro ⟨error, herror, -⟩
  cases hvalue.symm.trans herror

end Formulary.Arithmetic
