import Formulary.Proofs.Arithmetic.Spelling
import Formulary.Proofs.Code.Texts
import Formulary.Proofs.Language.Outcome
import Formulary.Proofs.Tree.Print

/-! What the value of a tree is written with.
Synthesis takes its names and numbers from the tokens and at most joins some of them with dots, so
they are words, whatever the grammar and its reductions.  A value of words is written on one line,
with a word at its end.
-/

namespace Formulary

open Text

/-- The text of a well spelled token is a word.  It is not empty, and no category has blanks in its
texts. -/
theorem Token.Spelled.isWord {token : Token} (h : token.Spelled)
    : IsWord token.text.toList := by
  refine ⟨?_, h.isBlank_eq_false⟩
  obtain ⟨tag, text⟩ := token
  cases tag with
  | number =>
      obtain ⟨c, rest, hchars, -⟩ := Lexeme.exists_head_of_isNumber h
      simp [hchars]
  | name | funcName =>
      intro hnil
      rw [Token.Spelled, hnil] at h
      exact h
  | addOp | mulOp => rcases h with rfl | rfl <;> decide
  | dot | comma | leftParen | rightParen =>
      cases h
      decide

/-- Words written together are a word. -/
theorem Text.isWord_append {first second : List Char} (hfirst : IsWord first)
    (hsecond : IsWord second)
    : IsWord (first ++ second) :=
  ⟨by simp [hfirst.1], List.forall_mem_append.2 ⟨hfirst.2, hsecond.2⟩⟩

/-- Words that a word joins are a word. -/
theorem Text.isWord_intercalate {separator : String} (hseparator : IsWord separator.toList)
    {texts : List String} (hne : texts ≠ []) (h : ∀ text ∈ texts, IsWord text.toList)
    : IsWord (separator.intercalate texts).toList := by
  obtain ⟨text, texts, rfl⟩ := List.exists_cons_of_ne_nil hne
  induction texts generalizing text with
  | nil => simpa using h
  | cons next texts ih =>
      obtain ⟨htext, htexts⟩ := List.forall_mem_cons.1 h
      rw [String.intercalate_cons_cons, String.toList_append, String.toList_append]
      exact isWord_append (isWord_append htext hseparator) (ih next (by simp) htexts)

-----------------------------------------------------------------------------------------
-- The texts of fragments
-----------------------------------------------------------------------------------------

namespace Fragment

mutual
/-- The names and numbers that a fragment holds. -/
def texts : Fragment → List String
  | raw name => [name]
  | op _ => []
  | value v => v.texts
  | list items => textsAll items
  | nil => []

def textsAll : List Fragment → List String
  | [] => []
  | fragment :: fragments => fragment.texts ++ textsAll fragments
end

/-- The texts of fragments side by side come part by part, by induction on the first part. -/
theorem textsAll_append (first second : List Fragment)
    : textsAll (first ++ second) = textsAll first ++ textsAll second := by
  induction first with
  | nil => rfl
  | cons fragment first ih => rw [List.cons_append, textsAll, ih, textsAll, List.append_assoc]

mutual
/-- Taking lists apart keeps all texts in their order. -/
theorem textsAll_flatten (fragment : Fragment)
    : textsAll fragment.flatten = fragment.texts := by
  cases fragment with
  | list items => rw [flatten, texts, textsAll_flattenAll items]
  | nil => rfl
  | _ => simp [flatten, textsAll]
termination_by sizeOf fragment

/-- Flattening keeps the texts. -/
theorem textsAll_flattenAll (fragments : List Fragment)
    : textsAll (flattenAll fragments) = textsAll fragments := by
  cases fragments with
  | nil => rfl
  | cons fragment fragments =>
      rw [flattenAll, textsAll_append, textsAll_flatten fragment, textsAll_flattenAll fragments,
        textsAll]
termination_by sizeOf fragments
end

/-- Fragments that are values have the texts of the values.  By induction on the list. -/
theorem textsAll_of_mapM_value? {fragments : List Fragment} {values : List Value}
    (h : fragments.mapM value? = some values)
    : textsAll fragments = Value.textsAll values := by
  induction fragments generalizing values with
  | nil =>
      cases h
      rfl
  | cons fragment fragments ih =>
      simp only [List.mapM_cons, Option.bind_eq_bind, Option.bind_eq_some_iff, Option.pure_def,
        Option.some_inj] at h
      obtain ⟨v, hv, others, hothers, rfl⟩ := h
      cases fragment with
      | value _ =>
          cases hv
          rw [textsAll, ih hothers, texts, Value.textsAll]
      | _ => cases hv

/-- The name that a fragment is read as is one of its texts. -/
theorem mem_texts_of_name? {fragment : Fragment} {name : String} (h : fragment.name? = some name)
    : name ∈ fragment.texts := by
  unfold name? at h
  split at h
  · cases h
    simp [texts]
  · cases h
    simp [texts, Value.texts]
  · cases h

/-- The names that fragments are read as are among their texts, by induction on the list. -/
theorem subset_textsAll_of_mapM_name? {fragments : List Fragment} {names : List String}
    (h : fragments.mapM name? = some names)
    : names ⊆ textsAll fragments := by
  induction fragments generalizing names with
  | nil =>
      cases h
      exact List.nil_subset _
  | cons fragment fragments ih =>
      simp only [List.mapM_cons, Option.bind_eq_bind, Option.bind_eq_some_iff, Option.pure_def,
        Option.some_inj] at h
      obtain ⟨name, hname, others, hothers, rfl⟩ := h
      rw [textsAll]
      exact List.cons_subset.2
        ⟨List.mem_append_left _ (mem_texts_of_name? hname),
          List.Subset.trans (ih hothers) (List.subset_append_right _ _)⟩

end Fragment

-----------------------------------------------------------------------------------------
-- Synthesis
-----------------------------------------------------------------------------------------

/-- A reduction makes up no text but the names that it joins with dots.  Words with dots between
them are a word. -/
theorem Reduction.isWord_of_apply {reduction : Reduction} {children : List Fragment}
    {result : Fragment} (h : reduction.apply children = some result)
    (hchildren : ∀ text ∈ Fragment.textsAll children, IsWord text.toList)
    : ∀ text ∈ result.texts, IsWord text.toList := by
  unfold apply at h
  split at h
  · cases h
    simpa [Fragment.texts] using hchildren
  · cases h
    simpa [Fragment.textsAll] using hchildren
  · cases h
    simpa [Fragment.textsAll, Fragment.texts, Value.named, Value.texts] using hchildren
  · cases h
    simpa [Fragment.textsAll] using hchildren
  · cases h
    simpa [Fragment.textsAll, Fragment.texts, Value.texts] using hchildren
  · obtain ⟨args, hargs, rfl⟩ := Option.map_eq_some_iff.1 h
    simpa [Fragment.textsAll, Fragment.texts, Value.texts,
      Fragment.textsAll_of_mapM_value? hargs] using hchildren
  · obtain ⟨names, hnames, rfl⟩ := Option.map_eq_some_iff.1 h
    have hwords : ∀ name ∈ names, IsWord name.toList := fun name hname =>
      hchildren name (Fragment.subset_textsAll_of_mapM_name? hnames hname)
    have hne : names ≠ [] := by
      rintro rfl
      simp [List.mapM_cons, Option.bind_eq_some_iff] at hnames
    have hdot : IsWord ".".toList := isWord_singleton (by decide)
    simpa [Fragment.texts, Value.named, Value.texts] using isWord_intercalate hdot hne hwords
  · cases h
    simpa [Fragment.textsAll, Fragment.texts, Value.texts] using hchildren
  · cases h

namespace Synthesis

variable {grammar : Grammar} {reductions : Reductions} {tokens : Array Token}

/-- The texts of a leaf are words if its token is well spelled.  It is either the text of the token
or, for operators and marks, none. -/
theorem isWord_of_leaf {tag : Tag} {token : Token} (htoken : token.Spelled) {result : Fragment}
    (h : leaf tag token = .ok result)
    : ∀ text ∈ result.texts, IsWord text.toList := by
  unfold leaf at h
  split at h
  · cases h
  · cases tag with
    | addOp | mulOp =>
        dsimp only at h
        split at h <;> cases h
        simp [Fragment.texts]
    | name | funcName =>
        cases h
        simpa [Fragment.texts] using htoken.isWord
    | number =>
        cases h
        simpa [Fragment.texts, Value.texts] using htoken.isWord
    | dot | comma | leftParen | rightParen =>
        cases h
        simp [Fragment.texts]

/-- The texts of an inner node are words if those below it are, as every reduction makes words of
words. -/
theorem isWord_of_inner {a : Nat} {children : List Fragment} {result : Fragment}
    (h : inner grammar reductions a children = .ok result)
    (hchildren : ∀ text ∈ Fragment.textsAll children, IsWord text.toList)
    : ∀ text ∈ result.texts, IsWord text.toList := by
  rw [inner_eq] at h
  split at h
  · cases h
  · split at h
    · rename_i happly
      cases h
      exact Reduction.isWord_of_apply happly hchildren
    · cases h

/-- The texts of a derivation tree's fragment are words, by induction on the derivation.  The leaves
stand over well spelled tokens, and reductions make words of words. -/
theorem isWord_of_fragment (hspelled : ∀ token ∈ tokens, token.Spelled) {label : Symbol Nat}
    {start stop : Nat} {tree : Tree}
    (h : Parse.Derivation grammar (tokens.map Token.tag) label start stop tree) {result : Fragment}
    (hresult : fragment grammar reductions tokens tree = .ok result)
    : ∀ text ∈ result.texts, IsWord text.toList := by
  induction h generalizing result with
  | leaf htag =>
      rw [Array.getElem?_map, Option.map_eq_some_iff] at htag
      obtain ⟨token, htoken, rfl⟩ := htag
      rw [fragment_leaf htoken] at hresult
      exact isWord_of_leaf (hspelled token (Array.mem_of_getElem? htoken)) hresult
  | unit _ _ ih =>
      rw [fragment_unit] at hresult
      obtain ⟨below, hbelow, hinner⟩ := exists_of_bind_eq_ok hresult
      refine isWord_of_inner hinner ?_
      rw [Fragment.textsAll_flatten]
      exact ih hbelow
  | pair _ _ _ _ _ ihLeft ihRight =>
      rw [fragment_pair] at hresult
      obtain ⟨left, hleft, hrest⟩ := exists_of_bind_eq_ok hresult
      obtain ⟨right, hright, hinner⟩ := exists_of_bind_eq_ok hrest
      refine isWord_of_inner hinner ?_
      rw [Fragment.textsAll_append, Fragment.textsAll_flatten, Fragment.textsAll_flatten,
        List.forall_mem_append]
      exact ⟨ihLeft hleft, ihRight hright⟩

end Synthesis

/-- The value that is read from a source is written with words.  It is the fragment of a derived
tree over the tokens of the source. -/
theorem Language.isWord_of_outcome {language : Language} {source : String} {value : Value}
    (h : Outcome language source (.ok value))
    : ∀ text ∈ value.texts, IsWord text.toList := by
  cases h with
  | @value tokens tree _ htokens htree hsynthesis =>
      have hspelled : ∀ token ∈ tokens.toArray, token.Spelled := by
        simpa using (tokenize_eq_ok_iff.1 htokens).spelled
      obtain ⟨label, -, hderivation⟩ := exists_derivation_of_firstTree htree
      rw [synthesize_eq] at hsynthesis
      obtain ⟨result, hresult, hvalue⟩ := Synthesis.exists_of_bind_eq_ok hsynthesis
      have hwords := Synthesis.isWord_of_fragment hspelled hderivation hresult
      cases result with
      | value found =>
          cases hvalue
          exact hwords
      | _ => cases hvalue

-----------------------------------------------------------------------------------------
-- Values of words
-----------------------------------------------------------------------------------------

/-- A word closes the text in front of it. -/
theorem Text.endsInWord_append (text : String) {last : String} (h : IsWord last.toList)
    : EndsInWord (text ++ last) :=
  ⟨text, last, rfl, h⟩

namespace Value

/-- Indices end with the bracket of the last one. -/
theorem endsInWord_append_renderIndices {name : String} (hname : EndsInWord name)
    (indices : List Value)
    : EndsInWord (name ++ renderIndices indices) := by
  induction indices generalizing name with
  | nil => simpa [renderIndices] using hname
  | cons index indices ih =>
      have hbracket : IsWord "]".toList := isWord_singleton (by decide)
      rw [renderIndices, ← String.append_assoc]
      refine ih ?_
      rw [← String.append_assoc]
      exact endsInWord_append _ hbracket

/-- A value of words is written with a word at its end.  By cases on the value: a name, a constant
or a closing mark comes last, or an operand that ends in a word itself. -/
theorem endsInWord_render (value : Value) (h : ∀ text ∈ value.texts, IsWord text.toList)
    : EndsInWord value.render := by
  have hparen : IsWord ")".toList := isWord_singleton (by decide)
  cases value with
  | var v => simpa [render, texts] using endsInWord_append "" (h v.name (by simp [texts]))
  | constant text => simpa [render, texts] using endsInWord_append "" (h text (by simp [texts]))
  | parens inner =>
      rw [render]
      split
      · exact inner.endsInWord_render (by simpa only [texts] using h)
      · exact endsInWord_append _ hparen
  | call name args =>
      rw [render]
      exact endsInWord_append _ hparen
  | binary form op left right =>
      rw [texts, List.forall_mem_append] at h
      cases form with
      | enclosed =>
          rw [render]
          exact endsInWord_append _ hparen
      | bare =>
          rw [render]
          exact (right.endsInWord_render h.2).prepend _
  | unary form op operand =>
      cases form with
      | enclosed =>
          rw [render]
          exact (operand.endsInWord_render (by simpa only [texts] using h)).prepend _
      | bare =>
          rw [render]
          exact endsInWord_append _ hparen
  | element array indices =>
      have hname : EndsInWord array.name := by
        simpa using endsInWord_append "" (h array.name (by simp [texts]))
      rw [render]
      exact endsInWord_append_renderIndices hname indices
termination_by sizeOf value

end Value

end Formulary
