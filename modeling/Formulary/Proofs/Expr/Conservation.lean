import Formulary.Proofs.Expr.RoundTrip

/-! Reading a source and writing its value keeps every token but the parentheses.
A value has all the other tokens of its source in their order, and so has the written form, which
is read as the regrouped value.
-/

namespace Formulary

namespace Token

/-- The tokens of a run that are not parentheses. -/
def bare (tokens : List Token) : List Token :=
  tokens.filter fun token => token.tag ≠ .leftParen ∧ token.tag ≠ .rightParen

/-- Parentheses are taken out of runs one by one. -/
@[simp]
theorem bare_append (first second : List Token)
    : bare (first ++ second) = bare first ++ bare second := by
  simp [bare]

/-- An opening parenthesis in front is taken out. -/
@[simp]
theorem bare_cons_leftParen (text : String) (tokens : List Token)
    : bare (⟨.leftParen, text⟩ :: tokens) = bare tokens := by
  simp [bare]

/-- A closing parenthesis on its own leaves nothing. -/
@[simp]
theorem bare_singleton_rightParen (text : String)
    : bare [⟨.rightParen, text⟩] = [] := by
  simp [bare]

/-- Any other token in front stays. -/
theorem bare_cons {token : Token} (hleft : token.tag ≠ .leftParen)
    (hright : token.tag ≠ .rightParen) (tokens : List Token)
    : bare (token :: tokens) = token :: bare tokens := by
  simp [bare, hleft, hright]

end Token

namespace Arithmetic

open Token

/-- Taking out parentheses leaves the commas between runs, by induction on the runs. -/
theorem bare_commaSeparated (runs : List (List Token))
    : bare (commaSeparated runs) = commaSeparated (runs.map bare) := by
  induction runs with
  | nil => rfl
  | cons first others ih =>
      rcases eq_or_ne others [] with rfl | hne
      · simp [commaSeparated]
      · rw [commaSeparated_cons hne, List.map_cons, commaSeparated_cons (by simpa using hne), ← ih,
          bare_append, bare_cons (by simp) (by simp)]

/-- A dotted name holds no parentheses, by induction on its parts. -/
theorem DottedName.bare_eq {tokens : List Token} {path : String} (h : DottedName tokens path)
    : bare tokens = tokens := by
  induction h with
  | name text => simp [bare]
  | member text _ ih =>
      rw [bare_append, ih]
      rfl

/-- A dotted name by itself is read as its parts with the dots between them. -/
theorem DottedName.tokenize_eq {tokens : List Token} {path : String} (h : DottedName tokens path)
    (hspelled : ∀ token ∈ tokens, token.Spelled)
    : tokenize path = .ok tokens :=
  Lexeme.ReadsAs.tokenize_eq (h.visible_eq hspelled ▸ h.readsAs hspelled)

end Arithmetic

namespace Value

open Arithmetic Token

-----------------------------------------------------------------------------------------
-- The tokens of a value
-----------------------------------------------------------------------------------------

/-- The token of an arithmetic operator. -/
def operatorToken : BinaryOp → Token
  | .add => ⟨.addOp, "+"⟩
  | .sub => ⟨.addOp, "-"⟩
  | op => ⟨.mulOp, op.symbol⟩

mutual
/-- The tokens of an arithmetic value without its parentheses.  No source has the other values. -/
def bareTokens : Value → List Token
  | var v => (tokenize v.name).toOption.getD []
  | constant text => [⟨.number, text⟩]
  | parens inner => inner.bareTokens
  | call name args => ⟨.funcName, name⟩ :: commaSeparated (bareRuns args)
  | binary _ op left right => left.bareTokens ++ operatorToken op :: right.bareTokens
  | unary _ _ _ => []
  | element _ _ => []

/-- The tokens of each value. -/
def bareRuns : List Value → List (List Token)
  | [] => []
  | value :: values => value.bareTokens :: bareRuns values
end

/-- Values side by side have their bare tokens one by one, by induction on the list. -/
theorem bareRuns_eq_map (values : List Value)
    : bareRuns values = values.map bareTokens := by
  induction values with
  | nil => rfl
  | cons value values ih => rw [bareRuns, ih, List.map_cons]

mutual
/-- Regrouping only adds and changes groups.  Groups have no tokens but parentheses. -/
theorem bareTokens_regroup (value : Value) (grouped : Bool)
    : (value.regroup grouped).bareTokens = value.bareTokens := by
  cases value with
  | var v => simp [regroup, named, bareTokens]
  | constant text => simp [regroup]
  | parens inner => rw [regroup, bareTokens, bareTokens, bareTokens_regroup inner true]
  | call name args => simp [regroup, bareTokens, bareRuns_regroupAll args]
  | binary form op left right =>
      have hleft := bareTokens_regroup left false
      have hright := bareTokens_regroup right false
      cases form with
      | enclosed => cases grouped <;> simp [regroup, bareTokens, hleft, hright]
      | bare => simp [regroup, bareTokens, hleft, hright]
  | unary form op operand => simp [regroup, bareTokens]
  | element array indices => simp [regroup, bareTokens]
termination_by sizeOf value

/-- Regrouping values side by side changes none of their bare tokens. -/
theorem bareRuns_regroupAll (values : List Value)
    : bareRuns (regroupAll values) = bareRuns values := by
  cases values with
  | nil => simp [regroupAll]
  | cons value values =>
      simp [regroupAll, bareRuns, bareTokens_regroup value false, bareRuns_regroupAll values]
termination_by sizeOf values
end

/-- The token of an operator has the category of its level, checked for each operator. -/
theorem operatorToken_eq {level : Level} {text : String} {op : BinaryOp}
    (h : (level, text, op) ∈ operators)
    : operatorToken op = ⟨level.operator, text⟩ := by
  have hall : ∀ entry ∈ operators, operatorToken entry.2.2 = ⟨entry.1.operator, entry.2.1⟩ := by
    decide
  exact hall _ h

/-- A phrase has just the tokens of its value, but for the parentheses.  By induction on the phrase,
with the operators at their places between the operands. -/
theorem bare_of_phrase {kind : Kind} {tokens : List Token} {value : Value}
    (h : Phrase kind tokens value) (hspelled : ∀ token ∈ tokens, token.Spelled)
    : bare tokens = value.bareTokens := by
  induction h with
  | operand _ ih => exact ih hspelled
  | @join level _ _ _ _ _ _ hop _ _ ihLeft ihRight =>
      obtain ⟨hfirst, hothers⟩ := List.forall_mem_append.1 hspelled
      obtain ⟨hoperator, hsecond⟩ := List.forall_mem_cons.1 hothers
      have hleft : level.operator ≠ .leftParen := by cases level <;> simp [Level.operator]
      have hright : level.operator ≠ .rightParen := by cases level <;> simp [Level.operator]
      rw [bareTokens, operatorToken_eq (mem_operators hoperator hop), ← ihLeft hfirst,
        ← ihRight hsecond, bare_append, bare_cons hleft hright]
  | constant text => simp [bareTokens, bare]
  | named hname =>
      rw [hname.bare_eq, named, bareTokens, hname.tokenize_eq hspelled]
      rfl
  | group _ ih =>
      have hinner := ih fun token htoken => hspelled token (by simp [htoken])
      simpa [bareTokens] using hinner
  | @call name args _ ih =>
      have hruns : ∀ arg ∈ args, bare arg.1 = arg.2.bareTokens := by
        intro arg harg
        refine ih arg harg fun token htoken => hspelled token ?_
        have hmem := subset_commaSeparated (List.mem_map_of_mem (f := Prod.fst) harg) htoken
        simp [hmem]
      have hargs : (args.map Prod.fst).map bare = (args.map Prod.snd).map bareTokens := by
        simpa using hruns
      rw [bareTokens, bareRuns_eq_map, ← hargs, ← bare_commaSeparated,
        bare_cons (by simp) (by simp)]
      simp

/-- What a source is read as can be written and split into tokens again, and no token but
parentheses is lost, added, moved or changed. -/
theorem bare_tokenize_render {source : String} {value : Value}
    (h : Language.arithmetic.expression source = .ok value)
    : ∃ tokens written,
        tokenize source = .ok tokens
        ∧ tokenize value.render = .ok written
        ∧ bare written = bare tokens := by
  obtain ⟨tokens, htokens, hphrase⟩ := expression_eq_ok_iff.1 h
  have hspelled := (tokenize_eq_ok_iff.1 htokens).spelled
  have hcanonical := canonical_of_phrase hphrase hspelled
  obtain ⟨written, hwritten, hagain⟩ := expression_eq_ok_iff.1 hcanonical.expression_render
  refine ⟨tokens, written, htokens, hwritten, ?_⟩
  calc bare written
      = (value.regroup false).bareTokens :=
        bare_of_phrase hagain (tokenize_eq_ok_iff.1 hwritten).spelled
    _ = value.bareTokens := bareTokens_regroup value false
    _ = bare tokens := (bare_of_phrase hphrase hspelled).symm

/-- Groups come and go in a difference of a name and a product, all else stays. -/
theorem bare_tokenize_render_difference
    : let value : Value :=
        .binary .enclosed .sub (.named "a.b")
          (.parens
            (.binary .enclosed .mul (.call "f" [.constant "-1"]) (.parens (.named "c"))))
      Language.arithmetic.expression "a.b - (f(-1)*(c))" = .ok value
      ∧ ∃ tokens written,
        tokenize "a.b - (f(-1)*(c))" = .ok tokens
        ∧ tokenize value.render = .ok written
        ∧ bare written = bare tokens := by
  intro value
  have htokens
      : tokenize "a.b - (f(-1)*(c))"
        = .ok
          [
            ⟨.name, "a"⟩, ⟨.dot, "."⟩, ⟨.name, "b"⟩, ⟨.addOp, "-"⟩, ⟨.leftParen, "("⟩,
            ⟨.funcName, "f"⟩, ⟨.leftParen, "("⟩, ⟨.number, "-1"⟩, ⟨.rightParen, ")"⟩,
            ⟨.mulOp, "*"⟩, ⟨.leftParen, "("⟩, ⟨.name, "c"⟩, ⟨.rightParen, ")"⟩,
            ⟨.rightParen, ")"⟩
          ] := by
    decide +kernel
  have hspelled := (tokenize_eq_ok_iff.1 htokens).spelled
  have hsub : BinaryOp.ofSymbol? "-" = some .sub := rfl
  have hmul : BinaryOp.ofSymbol? "*" = some .mul := rfl
  have hphrase := (readExpression_eq_some_iff hspelled).1
    (show readExpression _ = some value by
      simp [value, readExpression, readChain_eq, readOperand_sum, readOperand_product,
        readFactor_eq, readTail_cons, readTail_nil, readPath, readArguments_eq, Level.operator,
        hsub, hmul])
  have hexpression := expression_eq_ok_iff.2 ⟨_, htokens, hphrase⟩
  exact ⟨hexpression, bare_tokenize_render hexpression⟩

end Value

end Formulary
