import Formulary.Proofs.Arithmetic.Reading
import Formulary.Proofs.Arithmetic.Synthesis
import Formulary.Proofs.Language.Outcome

/-! The first tree of the built-in language and its value.
Tokens have a tree exactly when they are a phrase, and its value is that of the phrase, which
reading by precedence finds as well.
-/

namespace Formulary.Arithmetic

open Parse

/-- The built-in language parses whole expressions as the first nonterminal. -/
theorem lookup?_start
    : Language.arithmetic.grammar.lookup? Language.arithmetic.start
      = some (.nonterminal Nonterminal.start.number) := by
  decide +kernel

/-- A phrase that takes up all tokens has a first tree. -/
theorem exists_firstTree_of_phrase {tokens : List Token} {value : Value}
    (h : Phrase (.chain .sum) tokens value)
    : ∃ tree, Language.arithmetic.firstTree tokens.toArray = .ok tree := by
  obtain ⟨tree, htree⟩ := h.exists_derivation
  exact Language.exists_firstTree_of_derivation lookup?_start htree

/-- The first tree of well spelled tokens has a value, and the tokens are a phrase with it. -/
theorem exists_synthesize_of_firstTree {tokens : List Token}
    (hspelled : ∀ token ∈ tokens, token.Spelled) {tree : Tree}
    (h : Language.arithmetic.firstTree tokens.toArray = .ok tree)
    : ∃ value,
        synthesize Language.arithmetic.grammar Language.arithmetic.reductions tokens.toArray tree
          = .ok value
        ∧ Phrase (.chain .sum) tokens value := by
  obtain ⟨label, hlabel, htree⟩ := Language.exists_derivation_of_firstTree h
  cases lookup?_start.symm.trans hlabel
  exact exists_synthesize_eq_ok (by simpa using hspelled) htree

/-- The value of the first tree is the value of the tokens as a phrase.  A row of tokens is a phrase
with one value only, since reading by precedence finds it. -/
theorem value_eq_ok_iff {tokens : List Token} (hspelled : ∀ token ∈ tokens, token.Spelled)
    {value : Value}
    : Language.arithmetic.value tokens.toArray = .ok value ↔ Phrase (.chain .sum) tokens value := by
  have hvalue : ∀ {tree found},
      Language.arithmetic.firstTree tokens.toArray = .ok tree
      → synthesize Language.arithmetic.grammar Language.arithmetic.reductions tokens.toArray tree
        = .ok found
      → Language.arithmetic.value tokens.toArray = .ok found := by
    intro tree found htree hfound
    rw [Language.value_of_firstTree htree, hfound]
    rfl
  constructor
  · intro h
    cases htree : Language.arithmetic.firstTree tokens.toArray with
    | error _ =>
        rw [Language.value_of_firstTree_error htree] at h
        cases h
    | ok tree =>
        obtain ⟨found, hfound, hphrase⟩ := exists_synthesize_of_firstTree hspelled htree
        cases h.symm.trans (hvalue htree hfound)
        exact hphrase
  · intro h
    obtain ⟨tree, htree⟩ := exists_firstTree_of_phrase h
    obtain ⟨found, hfound, hphrase⟩ := exists_synthesize_of_firstTree hspelled htree
    -- Reading is a function of the tokens, so they are no phrase with another value.
    have hread := (readExpression_eq_some_iff hspelled).2 h
    rw [(readExpression_eq_some_iff hspelled).2 hphrase] at hread
    cases hread
    exact hvalue htree hfound

/-- A source has a value exactly when its tokens are a phrase with it. -/
theorem expression_eq_ok_iff {source : String} {value : Value}
    : Language.arithmetic.expression source = .ok value
      ↔ ∃ tokens, tokenize source = .ok tokens ∧ Phrase (.chain .sum) tokens value := by
  cases htokens : tokenize source with
  | error _ => simp [Language.expression_of_tokenize_error htokens]
  | ok tokens =>
      have hspelled := (tokenize_eq_ok_iff.1 htokens).spelled
      rw [Language.expression_of_tokenize htokens, value_eq_ok_iff hspelled]
      simp

/-- The built-in language has a tree for the tokens of a source exactly when reading by precedence
takes up all of them, and the value of its first tree is the one that was read.  Both go by the
phrases of the grammar, of which a row of tokens is at most one. -/
theorem firstTree_iff_read (source : String) (tokens : List Token)
    (h : tokenize source = .ok tokens)
    : ((∃ tree, Language.arithmetic.firstTree tokens.toArray = .ok tree)
        ↔ ∃ value, readExpression tokens = some value)
      ∧ ∀ tree,
        Language.arithmetic.firstTree tokens.toArray = .ok tree
        → ∃ value,
          readExpression tokens = some value
          ∧ synthesize Language.arithmetic.grammar Language.arithmetic.reductions tokens.toArray
              tree
            = .ok value := by
  have hspelled := (tokenize_eq_ok_iff.1 h).spelled
  have hvalue : ∀ tree,
      Language.arithmetic.firstTree tokens.toArray = .ok tree
      → ∃ value,
        readExpression tokens = some value
        ∧ synthesize Language.arithmetic.grammar Language.arithmetic.reductions tokens.toArray tree
          = .ok value := by
    intro tree htree
    obtain ⟨value, hsynthesize, hphrase⟩ := exists_synthesize_of_firstTree hspelled htree
    exact ⟨value, (readExpression_eq_some_iff hspelled).2 hphrase, hsynthesize⟩
  refine ⟨⟨?_, ?_⟩, hvalue⟩
  · intro h
    obtain ⟨tree, htree⟩ := h
    obtain ⟨value, hread, _⟩ := hvalue tree htree
    exact ⟨value, hread⟩
  · intro h
    obtain ⟨value, hread⟩ := h
    exact exists_firstTree_of_phrase ((readExpression_eq_some_iff hspelled).1 hread)

/-- Differences fold to the left, with a product and a call as operands. -/
theorem firstTree_iff_read_difference
    : let tokens : List Token :=
        [
          ⟨.name, "a"⟩, ⟨.dot, "."⟩, ⟨.name, "b"⟩, ⟨.addOp, "-"⟩, ⟨.number, "2"⟩, ⟨.mulOp, "*"⟩,
          ⟨.funcName, "f"⟩, ⟨.leftParen, "("⟩, ⟨.name, "x"⟩, ⟨.comma, ","⟩, ⟨.number, "-1"⟩,
          ⟨.rightParen, ")"⟩, ⟨.addOp, "-"⟩, ⟨.name, "y"⟩
        ]
      tokenize "a.b - 2*f(x, -1) - y" = .ok tokens
      ∧ ∃ tree,
        Language.arithmetic.firstTree tokens.toArray = .ok tree
        ∧ synthesize Language.arithmetic.grammar Language.arithmetic.reductions tokens.toArray tree
          = .ok
            (.binary .enclosed .sub
              (.binary .enclosed .sub (.named "a.b")
                (.binary .enclosed .mul (.constant "2")
                  (.call "f" [.named "x", .constant "-1"])))
              (.named "y")) := by
  intro tokens
  have htokens : tokenize "a.b - 2*f(x, -1) - y" = .ok tokens := by decide +kernel
  have hsub : BinaryOp.ofSymbol? "-" = some .sub := rfl
  have hmul : BinaryOp.ofSymbol? "*" = some .mul := rfl
  have hread
      : readExpression tokens
        = some
          (.binary .enclosed .sub
            (.binary .enclosed .sub (.named "a.b")
              (.binary .enclosed .mul (.constant "2") (.call "f" [.named "x", .constant "-1"])))
            (.named "y")) := by
    simp [tokens, readExpression, readChain_eq, readOperand_sum, readOperand_product,
      readFactor_eq, readTail_cons, readTail_nil, readPath, readArguments_eq, Level.operator, hsub,
      hmul]
  obtain ⟨hiff, hvalue⟩ := firstTree_iff_read "a.b - 2*f(x, -1) - y" tokens htokens
  obtain ⟨tree, htree⟩ := hiff.2 ⟨_, hread⟩
  obtain ⟨value, heq, hsynthesize⟩ := hvalue tree htree
  cases hread.symm.trans heq
  exact ⟨htokens, tree, htree, hsynthesize⟩

end Formulary.Arithmetic
