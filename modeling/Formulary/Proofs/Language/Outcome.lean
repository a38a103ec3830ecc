import Formulary.Language
import Formulary.Proofs.Parse.Forest
import Formulary.Proofs.Synthesis.Failure

/-! How reading a source ends, in any language.
There is one way to succeed and four ways to fail, one for each thing that can be missing: tokens, a
symbol for the start label, a derivation of the tokens, and a value of the first tree.  Each comes
about exactly where its cause is present.
-/

namespace Formulary

namespace Language

open Parse

variable {language : Language} {source : String} {tokens : List Token}

-----------------------------------------------------------------------------------------
-- The stages, one after the other
-----------------------------------------------------------------------------------------

/-- A source that is no row of tokens fails as the tokenizer does. -/
theorem expression_of_tokenize_error {error : LexError} (h : tokenize source = .error error)
    : language.expression source = .error (.lex error) := by
  rw [expression, Language.tokens, h]
  rfl

/-- A source that is a row of tokens has the value of the row. -/
theorem expression_of_tokenize (h : tokenize source = .ok tokens)
    : language.expression source = language.value tokens.toArray := by
  rw [expression, Language.tokens, h]
  rfl

/-- Without a start symbol there is no tree. -/
theorem firstTree_of_unknown (h : language.grammar.lookup? language.start = none)
    (tokens : Array Token)
    : language.firstTree tokens = .error (.unknownStart language.start) := by
  rw [firstTree, startSymbol, h]
  rfl

/-- The first tree of the language is the first one over its start symbol that spans all tokens. -/
theorem firstTree_of_label {label : Symbol Nat}
    (h : language.grammar.lookup? language.start = some label) (tokens : Array Token)
    : language.firstTree tokens = first language.grammar tokens 0 tokens.size label := by
  rw [firstTree, startSymbol, h]
  rfl

/-- A row of tokens without a tree fails as the parser does. -/
theorem value_of_firstTree_error {tokens : Array Token} {error : ParseError}
    (h : language.firstTree tokens = .error error)
    : language.value tokens = .error (.parse error) := by
  rw [value, h]
  rfl

/-- A row of tokens with a tree has the value of its first tree, or fails as the evaluation of that
tree does. -/
theorem value_of_firstTree {tokens : Array Token} {tree : Tree}
    (h : language.firstTree tokens = .ok tree)
    : language.value tokens
      = (synthesize language.grammar language.reductions tokens tree).mapError .synthesis := by
  rw [value, h]
  rfl

/-- The first tree of a language is a derivation tree of its start label. -/
theorem exists_derivation_of_firstTree {tree : Tree}
    (h : language.firstTree tokens.toArray = .ok tree)
    : ∃ label,
        language.grammar.lookup? language.start = some label
        ∧ Derivation language.grammar (tokens.toArray.map Token.tag) label 0 tokens.length
            tree := by
  cases hlabel : language.grammar.lookup? language.start with
  | none =>
      rw [firstTree_of_unknown hlabel] at h
      cases h
  | some label =>
      rw [firstTree_of_label hlabel] at h
      exact ⟨label, rfl, derivation_of_first (Nat.zero_le _) le_rfl h⟩

/-- Where the start label has a derivation tree there is a first one. -/
theorem exists_firstTree_of_derivation {label : Symbol Nat} {tree : Tree}
    (hlabel : language.grammar.lookup? language.start = some label)
    (h : Derivation language.grammar (tokens.toArray.map Token.tag) label 0 tokens.length tree)
    : ∃ found, language.firstTree tokens.toArray = .ok found := by
  rw [firstTree_of_label hlabel]
  exact exists_first_of_derivation (Nat.zero_le _) le_rfl h

/-- What derives from the start label has a first tree. -/
theorem exists_firstTree_of_derives {label : Symbol Nat}
    (hlabel : language.grammar.lookup? language.start = some label)
    (h : Derives language.grammar label (tokens.map Token.tag))
    : ∃ found, language.firstTree tokens.toArray = .ok found := by
  obtain ⟨tree, htree⟩ := h.exists_derivation [] []
  exact exists_firstTree_of_derivation hlabel (by simpa using htree)

/-- The first tree of the tokens of a source can only fail by shape. -/
theorem isShape_of_firstTree (htokens : tokenize source = .ok tokens) {tree : Tree}
    (htree : language.firstTree tokens.toArray = .ok tree) {error : SynthesisError}
    (herror : synthesize language.grammar language.reductions tokens.toArray tree = .error error)
    : error.IsShape := by
  have hspelled : ∀ token ∈ tokens.toArray, token.Spelled := by
    simpa using (tokenize_eq_ok_iff.1 htokens).spelled
  obtain ⟨_, _, hderivation⟩ := exists_derivation_of_firstTree htree
  exact isShape_of_synthesize hspelled hderivation herror

-----------------------------------------------------------------------------------------
-- The ends
-----------------------------------------------------------------------------------------

/-- The ways in which reading a source ends, each with its cause. -/
inductive Outcome (language : Language) (source : String) : Except Error Value → Prop where
  | unrecognized {error : LexError} (htokens : tokenize source = .error error)
    : Outcome language source (.error (.lex error))
  | unknownLabel {tokens : List Token} (htokens : tokenize source = .ok tokens)
    (hlabel : language.grammar.lookup? language.start = none)
    : Outcome language source (.error (.parse (.unknownStart language.start)))
  | noParse {tokens : List Token} {label : Symbol Nat} (htokens : tokenize source = .ok tokens)
    (hlabel : language.grammar.lookup? language.start = some label)
    (hnone
      : ∀ tree,
          ¬ Derivation language.grammar (tokens.toArray.map Token.tag) label 0 tokens.length tree)
    : Outcome language source
        (.error
          (.parse (Parse.noParse language.grammar tokens.toArray 0 tokens.length label)))
  | shape {tokens : List Token} {tree : Tree} {error : SynthesisError}
    (htokens : tokenize source = .ok tokens)
    (htree : language.firstTree tokens.toArray = .ok tree)
    (hsynthesis
      : synthesize language.grammar language.reductions tokens.toArray tree = .error error)
    (hshape : error.IsShape)
    : Outcome language source (.error (.synthesis error))
  | value {tokens : List Token} {tree : Tree} {value : Value}
    (htokens : tokenize source = .ok tokens)
    (htree : language.firstTree tokens.toArray = .ok tree)
    (hsynthesis
      : synthesize language.grammar language.reductions tokens.toArray tree = .ok value)
    : Outcome language source (.ok value)

/-- Every outcome that can be derived is the result of the run.  By cases on the outcome: the stages
before it succeed, and the one that it is about decides. -/
theorem Outcome.expression_eq {result : Except Error Value} (h : Outcome language source result)
    : language.expression source = result := by
  cases h with
  | unrecognized htokens => exact expression_of_tokenize_error htokens
  | unknownLabel htokens hlabel =>
      rw [expression_of_tokenize htokens]
      exact value_of_firstTree_error (firstTree_of_unknown hlabel _)
  | noParse htokens hlabel hnone =>
      rw [expression_of_tokenize htokens]
      refine value_of_firstTree_error ?_
      rw [firstTree_of_label hlabel]
      exact first_eq_error_of_not_derivation (Nat.zero_le _) le_rfl hnone
  | shape htokens htree hsynthesis _ =>
      rw [expression_of_tokenize htokens, value_of_firstTree htree, hsynthesis]
      rfl
  | value htokens htree hsynthesis =>
      rw [expression_of_tokenize htokens, value_of_firstTree htree, hsynthesis]
      rfl

/-- Reading a source ends in one of the ways, stage by stage.  What the parser does not find cannot
be derived, and what fails in the evaluation of a derived tree is a shape. -/
theorem exists_outcome (language : Language) (source : String)
    : ∃ result, Outcome language source result := by
  cases htokens : tokenize source with
  | error error => exact ⟨_, .unrecognized htokens⟩
  | ok tokens =>
      cases hlabel : language.grammar.lookup? language.start with
      | none => exact ⟨_, .unknownLabel htokens hlabel⟩
      | some label =>
          cases htree : language.firstTree tokens.toArray with
          | error _ =>
              refine ⟨_, .noParse htokens hlabel fun tree hderivation => ?_⟩
              obtain ⟨found, hfound⟩ := exists_firstTree_of_derivation hlabel hderivation
              cases hfound.symm.trans htree
          | ok tree =>
              cases hsynthesis
                : synthesize language.grammar language.reductions tokens.toArray tree with
              | ok value => exact ⟨_, .value htokens htree hsynthesis⟩
              | error error =>
                  have hshape := isShape_of_firstTree htokens htree hsynthesis
                  exact ⟨_, .shape htokens htree hsynthesis hshape⟩

/-- The outcomes that can be derived are the results of the runs: every source has one, and a run
has only one result. -/
theorem expression_eq_iff {result : Except Error Value}
    : language.expression source = result ↔ Outcome language source result := by
  constructor
  · intro h
    obtain ⟨found, hfound⟩ := exists_outcome language source
    rwa [← h, hfound.expression_eq]
  · exact Outcome.expression_eq

-----------------------------------------------------------------------------------------
-- The failures by their reports
-----------------------------------------------------------------------------------------

/-- Reading a source fails with a report of this stage and this code. -/
def FailsWith (language : Language) (source : String) (stage : Stage) (code : FailureCode)
    : Prop :=
  ∃ error,
    language.expression source = .error error
    ∧ error.diagnostic.stage = stage
    ∧ error.diagnostic.code = code

/-- The stages that can fail, with the one code of each of their failures. -/
def failures : List (Stage × FailureCode) :=
  [
    (.lex, .unrecognizedCharacter), (.parse, .unknownLabel), (.parse, .noParse),
    (.synthesis, .unexpectedShape)
  ]

/-- A failure is reported at its stage with one of the codes of the stage, case by case on the
outcome. -/
theorem mem_failures_of_error {error : Error} (h : language.expression source = .error error)
    : (error.diagnostic.stage, error.diagnostic.code) ∈ failures := by
  cases expression_eq_iff.1 h with
  | unrecognized _ => simp [failures, Error.diagnostic, LexError.diagnostic]
  | unknownLabel _ _ => simp [failures, Error.diagnostic, ParseError.diagnostic]
  | noParse _ _ _ =>
      simp [failures, Error.diagnostic, Parse.noParse, Parse.noParseOf, ParseError.diagnostic]
  | shape _ _ _ hshape =>
      rw [SynthesisError.IsShape] at hshape
      simp [failures, Error.diagnostic, hshape]

/-- Reading the source fails exactly if it is no row of tokens. -/
theorem failsWith_unrecognizedCharacter_iff
    : language.FailsWith source .lex .unrecognizedCharacter
      ↔ ∀ tokens, tokenize source ≠ .ok tokens := by
  constructor
  · rintro ⟨error, herror, hstage, -⟩
    cases expression_eq_iff.1 herror with
    | unrecognized htokens => simp [htokens]
    | unknownLabel _ _ => cases hstage
    | noParse _ _ _ => cases hstage
    | shape _ _ _ _ => simp [Error.diagnostic] at hstage
  · intro h
    cases htokens : tokenize source with
    | ok tokens => exact absurd htokens (h tokens)
    | error error => exact ⟨_, expression_eq_iff.2 (.unrecognized htokens), rfl, rfl⟩

/-- The start label is reported as unknown exactly if the source is a row of tokens and nothing in
the grammar has that name. -/
theorem failsWith_unknownLabel_iff
    : language.FailsWith source .parse .unknownLabel
      ↔ (∃ tokens, tokenize source = .ok tokens)
        ∧ language.grammar.lookup? language.start = none := by
  constructor
  · rintro ⟨error, herror, hstage, hcode⟩
    cases expression_eq_iff.1 herror with
    | unrecognized _ => cases hstage
    | unknownLabel htokens hlabel => exact ⟨⟨_, htokens⟩, hlabel⟩
    | noParse _ _ _ => cases hcode
    | shape _ _ _ _ => simp [Error.diagnostic] at hstage
  · rintro ⟨⟨tokens, htokens⟩, hlabel⟩
    exact ⟨_, expression_eq_iff.2 (.unknownLabel htokens hlabel), rfl, rfl⟩

/-- The tokens are reported as having no tree exactly if none can be derived from the start symbol
over all of them. -/
theorem failsWith_noParse_iff
    : language.FailsWith source .parse .noParse
      ↔ ∃ tokens label,
          tokenize source = .ok tokens
          ∧ language.grammar.lookup? language.start = some label
          ∧ ∀ tree,
            ¬ Derivation language.grammar (tokens.toArray.map Token.tag) label 0 tokens.length
                tree := by
  constructor
  · rintro ⟨error, herror, hstage, hcode⟩
    cases expression_eq_iff.1 herror with
    | unrecognized _ => cases hstage
    | unknownLabel _ _ => cases hcode
    | noParse htokens hlabel hnone => exact ⟨_, _, htokens, hlabel, hnone⟩
    | shape _ _ _ _ => simp [Error.diagnostic] at hstage
  · rintro ⟨tokens, label, htokens, hlabel, hnone⟩
    exact ⟨_, expression_eq_iff.2 (.noParse htokens hlabel hnone), rfl, rfl⟩

/-- A shape is reported as unexpected exactly if there is a first tree and no value can be built
from it. -/
theorem failsWith_unexpectedShape_iff
    : language.FailsWith source .synthesis .unexpectedShape
      ↔ ∃ tokens tree,
          tokenize source = .ok tokens
          ∧ language.firstTree tokens.toArray = .ok tree
          ∧ ∀ value,
            synthesize language.grammar language.reductions tokens.toArray tree ≠ .ok value := by
  constructor
  · rintro ⟨error, herror, hstage, -⟩
    cases expression_eq_iff.1 herror with
    | unrecognized _ => cases hstage
    | unknownLabel _ _ => cases hstage
    | noParse _ _ _ => cases hstage
    | shape htokens htree hsynthesis _ => exact ⟨_, _, htokens, htree, by simp [hsynthesis]⟩
  · rintro ⟨tokens, tree, htokens, htree, hvalue⟩
    cases hsynthesis : synthesize language.grammar language.reductions tokens.toArray tree with
    | ok value => exact absurd hsynthesis (hvalue value)
    | error error =>
        have hshape := isShape_of_firstTree htokens htree hsynthesis
        have houtcome := Outcome.shape htokens htree hsynthesis hshape
        exact ⟨_, expression_eq_iff.2 houtcome, error.stage_diagnostic, hshape⟩

end Language

end Formulary
