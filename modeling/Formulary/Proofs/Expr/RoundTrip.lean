import Formulary.Proofs.Arithmetic.FirstTree
import Formulary.Proofs.Arithmetic.Spelling
import Formulary.Proofs.Expr.Canonical

/-! Writing a canonical value and reading the text back.
The written form of a canonical value is read as an operand wherever one can stand, and what is
read is the regrouped value.  Everything the built-in language reads is canonical, so what it reads
can be written and read back as well.
-/

namespace Formulary

-----------------------------------------------------------------------------------------
-- Writing and reading back
-----------------------------------------------------------------------------------------

namespace Value

open Lexeme Arithmetic

/-- An arithmetic operator is written as a token of its level. -/
theorem exists_level_of_operator {op : BinaryOp} (hop : op ∈ [.add, .sub, .mul, .div])
    : ∃ level : Level,
        (Token.mk level.operator op.symbol).Spelled
        ∧ BinaryOp.ofSymbol? op.symbol = some op := by
  simp only [List.mem_cons, List.not_mem_nil, or_false] at hop
  rcases hop with rfl | rfl | rfl | rfl
  · exact ⟨.sum, .inl rfl, rfl⟩
  · exact ⟨.sum, .inr rfl, rfl⟩
  · exact ⟨.product, .inl rfl, rfl⟩
  · exact ⟨.product, .inr rfl, rfl⟩

/-- Identifiers joined by dots are a dotted name.  By induction on the parts behind the first
one. -/
theorem IsPath.exists_dottedName {name : String} (h : IsPath name)
    : ∃ tokens, DottedName tokens name ∧ ∀ token ∈ tokens, token.Spelled := by
  obtain ⟨parts, hne, hparts, rfl⟩ := h
  obtain ⟨first, others, rfl⟩ := List.exists_cons_of_ne_nil hne
  induction others generalizing first with
  | nil =>
      refine ⟨[⟨.name, first⟩], by simpa using .name first, ?_⟩
      simpa [Token.Spelled] using hparts
  | cons next others ih =>
      obtain ⟨hfirst, hothers⟩ := List.forall_mem_cons.1 hparts
      obtain ⟨tokens, hname, hspelled⟩ := ih next (by simp) hothers
      refine ⟨_, by simpa using hname.cons first, ?_⟩
      have hdot : (Token.mk .dot ".").Spelled := rfl
      exact List.forall_mem_cons.2 ⟨hfirst, List.forall_mem_cons.2 ⟨hdot, hspelled⟩⟩

/-- A value whose written form is read as an operand, with the regrouped value. -/
def ReadsBack (value : Value) : Prop :=
  ∃ tokens, ReadsAs (visible value.render) tokens ∧ Phrase .factor tokens (value.regroup false)

/-- Arguments that are read back each are read back with commas between them, by induction on the
list. -/
theorem exists_arguments {first : Value} {others : List Value}
    (h : ∀ arg ∈ first :: others, ReadsBack arg)
    : ∃ args : List (List Token × Value),
        args.map Prod.snd = regroupAll (first :: others)
        ∧ (∀ arg ∈ args, Phrase (.chain .sum) arg.1 arg.2)
        ∧ ReadsAs (visible (", ".intercalate (renderAll (first :: others))))
            (commaSeparated (args.map Prod.fst)) := by
  induction others generalizing first with
  | nil =>
      obtain ⟨tokens, hreads, hphrase⟩ := h first List.mem_cons_self
      refine ⟨[(tokens, first.regroup false)], by simp [regroupAll], ?_, ?_⟩
      · simpa using hphrase.chain_of_factor .sum
      · simpa [renderAll, commaSeparated] using hreads
  | cons next others ih =>
      obtain ⟨hfirst, hothers⟩ := List.forall_mem_cons.1 h
      obtain ⟨tokens, hreads, hphrase⟩ := hfirst
      obtain ⟨args, hargs, hphrases, hrest⟩ := ih hothers
      have hne : args.map Prod.fst ≠ [] := by
        intro hnil
        rw [List.map_eq_nil_iff.1 hnil] at hargs
        simp [regroupAll] at hargs
      refine ⟨(tokens, first.regroup false) :: args, ?_, ?_, ?_⟩
      · rw [List.map_cons, hargs, regroupAll, regroupAll, regroupAll]
      · exact List.forall_mem_cons.2 ⟨hphrase.chain_of_factor .sum, hphrases⟩
      · have hcomma
            : ReadsAs
                (visible first.render
                  ++ ',' :: visible (", ".intercalate (renderAll (next :: others))))
                (tokens ++ ⟨.comma, ","⟩ :: commaSeparated (args.map Prod.fst)) :=
          hreads.separated hrest rfl rfl fun _ _ _ => rfl
        have hvisible
            : visible (", ".intercalate (renderAll (first :: next :: others)))
              = visible first.render
                ++ ',' :: visible (", ".intercalate (renderAll (next :: others))) := by
          simp only [renderAll, String.intercalate_cons_cons, visible_append, List.append_assoc]
          rfl
        rw [hvisible, List.map_cons, commaSeparated_cons hne]
        exact hcomma

/-- A variable is read back as the dotted name that it is written as; its type is not written. -/
theorem readsBack_var {name type : String} (hname : IsPath name)
    : ReadsBack (.var ⟨name, type⟩) := by
  obtain ⟨tokens, hname, hspelled⟩ := hname.exists_dottedName
  refine ⟨tokens, ?_, ?_⟩
  · rw [render, hname.visible_eq hspelled]
    exact hname.readsAs hspelled
  · rw [regroup]
    exact .named hname

/-- A constant is read back as the number that it is written as. -/
theorem readsBack_constant {text : String} (htext : IsNumber text.toList)
    : ReadsBack (.constant text) := by
  refine ⟨[⟨.number, text⟩], ?_, ?_⟩
  · rw [render, visible_eq_toList (isBlank_eq_false_of_isNumber htext)]
    exact readsAs_number htext
  · rw [regroup]
    exact .constant text

/-- A group around an enclosed operation writes nothing, any other its own parentheses.  What is
read back then is a group in either case. -/
theorem ReadsBack.parens {inner : Value} (h : ReadsBack inner)
    : ReadsBack (.parens inner) := by
  obtain ⟨tokens, hreads, hphrase⟩ := h
  cases hinner : inner.isSelfEnclosed with
  | true =>
      refine ⟨tokens, by simpa [render, hinner] using hreads, ?_⟩
      rw [regroup_parens_of_isSelfEnclosed hinner]
      exact hphrase
  | false =>
      refine ⟨⟨.leftParen, "("⟩ :: (tokens ++ [⟨.rightParen, ")"⟩]), ?_, ?_⟩
      · simp only [render, hinner, Bool.false_eq_true, if_false, visible_group]
        exact hreads.group
      · rw [regroup, regroup_true_eq hinner]
        exact .group (hphrase.chain_of_factor .sum)

/-- A call is read back if its arguments are: its name stands in front of a parenthesis, so it is
the name of a call. -/
theorem readsBack_call {name : String} {args : List Value} (hname : IsIdentifier name.toList)
    (h : ∀ arg ∈ args, ReadsBack arg)
    : ReadsBack (.call name args) := by
  have hargs
      : ∃ parts : List (List Token × Value),
          parts.map Prod.snd = regroupAll args
          ∧ (∀ part ∈ parts, Phrase (.chain .sum) part.1 part.2)
          ∧ (ReadsAs (visible (", ".intercalate (renderAll args)))
                (commaSeparated (parts.map Prod.fst))
            ∨ visible (", ".intercalate (renderAll args)) = []
              ∧ commaSeparated (parts.map Prod.fst) = []) := by
    cases args with
    | nil => exact ⟨[], rfl, List.forall_mem_nil _, .inr ⟨rfl, rfl⟩⟩
    | cons first others =>
        obtain ⟨parts, hparts, hphrases, hreads⟩ := exists_arguments h
        exact ⟨parts, hparts, hphrases, .inl hreads⟩
  obtain ⟨parts, hparts, hphrases, hreads⟩ := hargs
  have hvisible
      : visible (call name args).render
        = name.toList ++ '(' :: (visible (", ".intercalate (renderAll args)) ++ [')']) := by
    rw [render, String.append_assoc, String.append_assoc, visible_append,
      visible_eq_toList (isBlank_eq_false_of_isIdentifier hname), ← String.append_assoc,
      visible_group]
  refine ⟨_, by rw [hvisible]; exact readsAs_call hname hreads, ?_⟩
  rw [regroup, ← hparts]
  exact .call name hphrases

/-- Two operands with an arithmetic operator between them are read with the operator as a token. -/
theorem readsAs_operation {op : BinaryOp} {level : Level}
    (hop : (Token.mk level.operator op.symbol).Spelled) {left right : String}
    {leftTokens rightTokens : List Token} (hleft : ReadsAs (visible left) leftTokens)
    (hright : ReadsAs (visible right) rightTokens)
    : ReadsAs (visible (left ++ op.symbol ++ right))
        (leftTokens ++ ⟨level.operator, op.symbol⟩ :: rightTokens) := by
  obtain ⟨c, hsymbol, hdelimited, hoperator⟩ := exists_operator_char hop
  have hcharacter : visible op.symbol = [c] := by
    rw [visible_eq_toList hop.isBlank_eq_false, hsymbol, String.toList_ofList]
  rw [visible_append, visible_append, hcharacter, List.append_assoc, List.singleton_append, hsymbol]
  exact hleft.separated hright hdelimited (by cases level <;> rfl)
    fun before hbefore rest => scan_operator (hoperator before hbefore) rest

/-- An enclosed operation is read back if both of its operands are: the parentheses make a factor of
it, and the operator joins them at its level. -/
theorem ReadsBack.binary {op : BinaryOp} {left right : Value}
    (hop : op ∈ [.add, .sub, .mul, .div]) (hleft : ReadsBack left) (hright : ReadsBack right)
    : ReadsBack (.binary .enclosed op left right) := by
  obtain ⟨leftTokens, hleft, hleftPhrase⟩ := hleft
  obtain ⟨rightTokens, hright, hrightPhrase⟩ := hright
  obtain ⟨level, hspelled, hop⟩ := exists_level_of_operator hop
  have hjoined := readsAs_operation hspelled hleft hright
  have hphrase :=
    Phrase.join hop (hleftPhrase.chain_of_factor level) (hrightPhrase.operand_of_factor level)
  have hvisible
      : visible (Value.binary .enclosed op left right).render
        = '(' :: (visible (left.render ++ op.symbol ++ right.render) ++ [')']) := by
    have hspace : visible " " = [] := rfl
    have hinner
        : visible (left.render ++ " " ++ op.symbol ++ " " ++ right.render)
          = visible (left.render ++ op.symbol ++ right.render) := by
      simp only [visible_append, hspace, List.append_nil]
    rw [render, ← hinner, ← visible_group]
    simp only [String.append_assoc]
  refine ⟨_, by rw [hvisible]; exact hjoined.group, ?_⟩
  rw [regroup]
  exact .group (hphrase.sum_of_chain)

/-- Every canonical value is read back regrouped, by induction on how it is built. -/
theorem Canonical.readsBack {value : Value} (h : Canonical value)
    : ReadsBack value := by
  induction h with
  | var hname => exact readsBack_var hname
  | constant htext => exact readsBack_constant htext
  | parens _ ih => exact ih.parens
  | call hname _ ih => exact readsBack_call hname ih
  | binary hop _ _ ihLeft ihRight => exact ReadsBack.binary hop ihLeft ihRight

/-- Every name that is read is a path. -/
theorem isPath_of_dottedName {tokens : List Token} {path : String} (h : DottedName tokens path)
    (hspelled : ∀ token ∈ tokens, token.Spelled)
    : IsPath path := by
  induction h with
  | name text =>
      have htext : IsIdentifier text.toList := hspelled ⟨.name, text⟩ List.mem_cons_self
      exact ⟨[text], by simp, by simpa using htext, by simp⟩
  | @member tokens path text _ ih =>
      obtain ⟨hbefore, hafter⟩ := List.forall_mem_append.1 hspelled
      obtain ⟨parts, hne, hparts, rfl⟩ := ih hbefore
      have htext : IsIdentifier text.toList := hafter ⟨.name, text⟩ (by simp)
      refine ⟨parts ++ [text], by simp, ?_, ?_⟩
      · exact List.forall_mem_append.2 ⟨hparts, by simpa using htext⟩
      · rw [String.intercalate_append_of_ne_nil hne (by simp), String.intercalate_singleton]

/-- The operators of arithmetic, each with its level and its text. -/
def operators : List (Level × String × BinaryOp) :=
  [(.sum, "+", .add), (.sum, "-", .sub), (.product, "*", .mul), (.product, "/", .div)]

/-- Only the operators of arithmetic are read from well spelled tokens.  Each level has two
operators, whose texts are the only well spelled ones of its category. -/
theorem mem_operators {level : Level} {text : String} {op : BinaryOp}
    (hspelled : (Token.mk level.operator text).Spelled) (hop : BinaryOp.ofSymbol? text = some op)
    : (level, text, op) ∈ operators := by
  cases level with
  | sum =>
      rcases hspelled with rfl | rfl
      · cases hop
        simp [operators]
      · cases hop
        simp [operators]
  | product =>
      rcases hspelled with rfl | rfl
      · cases hop
        simp [operators]
      · cases hop
        simp [operators]

/-- Every value that is read is canonical.  By induction on the phrase: only operators of arithmetic
join operands, and names and numbers are spelled as such. -/
theorem canonical_of_phrase {kind : Kind} {tokens : List Token} {value : Value}
    (h : Phrase kind tokens value) (hspelled : ∀ token ∈ tokens, token.Spelled)
    : Canonical value := by
  induction h with
  | operand _ ih => exact ih hspelled
  | join hop _ _ ihLeft ihRight =>
      obtain ⟨hfirst, hothers⟩ := List.forall_mem_append.1 hspelled
      obtain ⟨hoperator, hsecond⟩ := List.forall_mem_cons.1 hothers
      have hmem := List.mem_map_of_mem (f := fun entry => entry.2.2) (mem_operators hoperator hop)
      exact .binary hmem (ihLeft hfirst) (ihRight hsecond)
  | constant text => exact .constant (hspelled ⟨.number, text⟩ List.mem_cons_self)
  | named hname => exact .var (isPath_of_dottedName hname hspelled)
  | group _ ih =>
      refine .parens (ih fun token htoken => hspelled token ?_)
      simp [htoken]
  | @call name args _ ih =>
      refine .call (hspelled ⟨.funcName, name⟩ List.mem_cons_self) fun value hvalue => ?_
      obtain ⟨arg, harg, rfl⟩ := List.mem_map.1 hvalue
      refine ih arg harg fun token htoken => hspelled token ?_
      have hmem := subset_commaSeparated (List.mem_map_of_mem (f := Prod.fst) harg) htoken
      simp [hmem]

/-- The written form of a canonical value is read as the regrouped value. -/
theorem Canonical.expression_render {value : Value} (h : Canonical value)
    : Language.arithmetic.expression value.render = .ok (value.regroup false) := by
  obtain ⟨tokens, hreads, hphrase⟩ := h.readsBack
  exact expression_eq_ok_iff.2 ⟨tokens, hreads.tokenize_eq, hphrase.chain_of_factor .sum⟩

/-- Writing a canonical value and reading the text back only regroups it, which neither comparing
nor writing shows.  Every value that is read from any source is canonical, so writing it and reading
it again gives an equal value with the same text.  The text of a canonical value is read as an
operand wherever one can stand. -/
theorem expression_render_eq_regroup
    : (∀ value,
        Canonical value
        → Language.arithmetic.expression value.render = .ok (value.regroup false)
          ∧ (value.regroup false == value) = true
          ∧ (value.regroup false).render = value.render)
      ∧ ∀ source value,
        Language.arithmetic.expression source = .ok value
        → Canonical value
          ∧ ∃ again,
            Language.arithmetic.expression value.render = .ok again
            ∧ (again == value) = true
            ∧ again.render = value.render := by
  have hback : ∀ value,
      Canonical value
      → Language.arithmetic.expression value.render = .ok (value.regroup false)
        ∧ (value.regroup false == value) = true
        ∧ (value.regroup false).render = value.render :=
    fun value h => ⟨h.expression_render, same_regroup value false, render_regroup value false⟩
  refine ⟨hback, fun source value h => ?_⟩
  obtain ⟨tokens, htokens, hphrase⟩ := expression_eq_ok_iff.1 h
  have hcanonical := canonical_of_phrase hphrase (tokenize_eq_ok_iff.1 htokens).spelled
  exact ⟨hcanonical, _, hback value hcanonical⟩

/-- A difference of a dotted variable and a call, written with blanks and read back. -/
theorem expression_render_eq_regroup_difference
    : let value : Value :=
        .binary .enclosed .sub (.var ⟨"a.b", "int"⟩)
          (.call "f" [.constant "-1e5", .parens (.named "x")])
      let again : Value :=
        .parens
          (.binary .enclosed .sub (.named "a.b")
            (.call "f" [.constant "-1e5", .parens (.named "x")]))
      Canonical value
      ∧ Language.arithmetic.expression "(a.b - f(-1e5, (x)))" = .ok again
      ∧ (again == value) = true
      ∧ Canonical again := by
  intro value again
  have hidentifier : ∀ text ∈ ["a", "b", "f", "x"], IsIdentifier text.toList := by
    simp [IsIdentifier, isIdentifierStart]
  have hpath : IsPath "a.b" :=
    ⟨["a", "b"], by simp, fun part hpart => hidentifier part (by revert hpart; simp; tauto), rfl⟩
  have hvariable : IsPath "x" :=
    ⟨["x"], by simp, fun part hpart => hidentifier part (by revert hpart; simp; tauto), rfl⟩
  have hne : number "-1e5".toList ≠ [] := by decide
  have hnumber : IsNumber "-1e5".toList := isNumber_number hne
  have hcall : Canonical (.call "f" [.constant "-1e5", .parens (.named "x")]) := by
    refine .call (hidentifier "f" (by simp)) ?_
    simpa using ⟨.constant hnumber, .parens (.var hvariable)⟩
  have hvalue : Canonical value := .binary (by simp) (.var hpath) hcall
  have hrender : value.render = "(a.b - f(-1e5, (x)))" := by decide +kernel
  have hregroup : value.regroup false = again := rfl
  obtain ⟨hwrite, hread⟩ := expression_render_eq_regroup
  obtain ⟨hexpression, hequal, _⟩ := hwrite value hvalue
  rw [hrender, hregroup] at hexpression
  rw [hregroup] at hequal
  exact ⟨hvalue, hexpression, hequal, (hread _ again hexpression).1⟩

end Value

end Formulary
