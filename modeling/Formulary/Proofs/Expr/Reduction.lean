import Formulary.Proofs.Expr.NormalForm
import Formulary.Proofs.Expr.RoundTrip

/-! Joining values and joining their texts.
Values that are joined with an arithmetic operator nest to the left.  Their texts with the symbol of
the operator between them are a chain, and reading a chain nests to the left as well, so both ways
lead to equal values.
-/

namespace Formulary.Value

open Lexeme Arithmetic

/-- A chain goes on with one operand after the other, by induction on the operands that are left.
What has been read so far is the left operand of the rest. -/
theorem exists_chain_of_joined {op : BinaryOp} {level : Level}
    (hspelled : (Token.mk level.operator op.symbol).Spelled)
    (hop : BinaryOp.ofSymbol? op.symbol = some op) {rest : List Value}
    (hrest : ∀ value ∈ rest, ReadsBack value) {text : String} {tokens : List Token}
    {start read : Value} (hreads : ReadsAs (visible text) tokens)
    (hphrase : Phrase (.chain level) tokens read) (hstart : read.normalForm = start.normalForm)
    : ∃ tokens read,
        ReadsAs (visible (op.symbol.intercalate (text :: rest.map render))) tokens
        ∧ Phrase (.chain level) tokens read
        ∧ read.normalForm = (rest.foldl (binary .enclosed op) start).normalForm := by
  induction rest generalizing text tokens start read with
  | nil => exact ⟨tokens, read, by simpa using hreads, hphrase, hstart⟩
  | cons next rest ih =>
      obtain ⟨hnext, hrest⟩ := List.forall_mem_cons.1 hrest
      obtain ⟨nextTokens, hnextReads, hnextPhrase⟩ := hnext
      have hjoined := readsAs_operation hspelled hreads hnextReads
      have hchain := Phrase.join hop hphrase (hnextPhrase.operand_of_factor level)
      have hnormal : (next.regroup false).normalForm = next.normalForm :=
        same_iff _ _ |>.1 (same_regroup next false)
      rw [List.map_cons, String.intercalate_cons_cons, ← String.intercalate_cons_append]
      exact ih hrest hjoined hchain (by rw [normalForm, normalForm, hstart, hnormal])

/-- The texts of canonical values with the symbol of an arithmetic operator between them are read as
the values joined with that operator.  Joining fails for want of values alone. -/
theorem expression_joined_eq_reduce
    : (∀ op : BinaryOp,
        op ∈ [.add, .sub, .mul, .div]
        → ∀ values : List Value,
          values ≠ []
          → (∀ value ∈ values, Canonical value)
          → ∃ reduced read,
            reduce op values = .ok reduced
            ∧ Language.arithmetic.expression (op.symbol.intercalate (values.map render)) = .ok read
            ∧ (read == reduced) = true)
      ∧ (∀ (op : BinaryOp) (values : List Value) (error : ModelError),
          reduce op values = .error error ↔ values = [] ∧ error = .emptyReduction op)
      ∧ ∀ op : BinaryOp, (ModelError.emptyReduction op).diagnostic.code = .emptyReduction := by
  refine ⟨fun op hop values hne hcanonical => ?_, fun op values error => ?_, fun _ => rfl⟩
  · obtain ⟨first, rest, rfl⟩ := List.exists_cons_of_ne_nil hne
    obtain ⟨hfirst, hrest⟩ := List.forall_mem_cons.1 hcanonical
    obtain ⟨level, hspelled, hsymbol⟩ := exists_level_of_operator hop
    obtain ⟨firstTokens, hreads, hphrase⟩ := hfirst.readsBack
    have hnormal : (first.regroup false).normalForm = first.normalForm :=
      same_iff _ _ |>.1 (same_regroup first false)
    obtain ⟨tokens, read, hall, hchain, hread⟩ :=
      exists_chain_of_joined hspelled hsymbol (fun value hvalue => (hrest value hvalue).readsBack)
        hreads (hphrase.chain_of_factor level) hnormal
    exact ⟨_, read, rfl, expression_eq_ok_iff.2 ⟨tokens, hall.tokenize_eq, hchain.sum_of_chain⟩,
      beq_iff_normalForm_eq.2 hread⟩
  · cases values with
    | nil => simp [reduce, eq_comm]
    | cons first rest => simp [reduce]

/-- A chain of differences with a negative number in the middle. -/
theorem expression_joined_eq_reduce_differences
    : let values := [.var ⟨"a.b", "int"⟩, .constant "-1", .call "f" [.named "x"]]
      (∀ value ∈ values, Canonical value)
      ∧ ∃ reduced read,
        reduce .sub values = .ok reduced
        ∧ Language.arithmetic.expression "a.b--1-f(x)" = .ok read
        ∧ (read == reduced) = true := by
  intro values
  have hidentifier : ∀ text ∈ ["a", "b", "f", "x"], IsIdentifier text.toList := by
    simp [IsIdentifier, isIdentifierStart]
  have hpath : IsPath "a.b" :=
    ⟨["a", "b"], by simp, fun part hpart => hidentifier part (by revert hpart; simp; tauto), rfl⟩
  have hvariable : IsPath "x" := ⟨["x"], by simp, by simpa using hidentifier "x" (by simp), rfl⟩
  have hne : number "-1".toList ≠ [] := by decide
  have hnumber : IsNumber "-1".toList := isNumber_number hne
  have hcall : Canonical (.call "f" [.named "x"]) :=
    .call (hidentifier "f" (by simp)) (by simpa using .var hvariable)
  have hcanonical : ∀ value ∈ values, Canonical value := by
    simpa [values] using ⟨.var hpath, .constant hnumber, hcall⟩
  have htext : BinaryOp.sub.symbol.intercalate (values.map render) = "a.b--1-f(x)" := by
    decide +kernel
  have hjoined := expression_joined_eq_reduce.1 .sub (by simp) values (by simp [values]) hcanonical
  rw [htext] at hjoined
  exact ⟨hcanonical, hjoined⟩

end Formulary.Value
