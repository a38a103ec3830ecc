import Formulary.Proofs.Parse.Derivation
import Formulary.Proofs.Token.Lexing
import Formulary.Synthesis

/-! How the synthesis of a derivation tree can fail.
Every leaf of a derivation tree fits the token under it, and well spelled operators are known, so
only the shape of some node's children can be at fault, whatever the grammar and its reductions.
-/

namespace Formulary

namespace SynthesisError

/-- The children of a node, or the whole tree, did not come to what was asked. -/
def IsShape (error : SynthesisError) : Prop :=
  error.diagnostic.code = .unexpectedShape

/-- Errors of the evaluation are reported at the stage of evaluation. -/
@[simp]
theorem stage_diagnostic (error : SynthesisError)
    : error.diagnostic.stage = .synthesis := by
  cases error <;> rfl

end SynthesisError

namespace Synthesis

variable {grammar : Grammar} {reductions : Reductions} {tokens : Array Token}

-----------------------------------------------------------------------------------------
-- The fragment of each kind of node
-----------------------------------------------------------------------------------------

/-- The fragment of a leaf is that of its token. -/
theorem fragment_leaf {token : Token} {start : Nat} (htoken : tokens[start]? = some token)
    : fragment grammar reductions tokens (.leaf (.terminal token.tag) start)
      = leaf token.tag token := by
  simp only [fragment, Tree.leaf, Tree.foldM, Tree.foldAllM]
  simp [combine_eq, Tree.label, Tree.isLeaf, Tree.children, Tree.start, htoken, pure, Except.pure,
    bind, Except.bind]

/-- A node with one child joins the flattened fragment of the child. -/
theorem fragment_unit (a start stop : Nat) (child : Tree)
    : fragment grammar reductions tokens (.node (.nonterminal a) start stop [child])
      = (fragment grammar reductions tokens child).bind fun below =>
          inner grammar reductions a below.flatten := by
  simp only [fragment, Tree.foldM, Tree.foldAllM]
  cases Tree.foldM (combine grammar reductions tokens) child with
  | error _ => rfl
  | ok below =>
      simp [combine_eq, Tree.label, Fragment.flattenAll, pure, Except.pure, bind, Except.bind]

/-- A node with two children joins their flattened fragments side by side; the first failure
decides. -/
theorem fragment_pair (a start stop : Nat) (left right : Tree)
    : fragment grammar reductions tokens (.node (.nonterminal a) start stop [left, right])
      = (fragment grammar reductions tokens left).bind fun leftBelow =>
          (fragment grammar reductions tokens right).bind fun rightBelow =>
            inner grammar reductions a (leftBelow.flatten ++ rightBelow.flatten) := by
  simp only [fragment, Tree.foldM, Tree.foldAllM]
  cases Tree.foldM (combine grammar reductions tokens) left with
  | error _ => rfl
  | ok leftBelow =>
      cases Tree.foldM (combine grammar reductions tokens) right with
      | error _ => rfl
      | ok rightBelow =>
          simp [combine_eq, Tree.label, Fragment.flattenAll, pure, Except.pure, bind, Except.bind]

-----------------------------------------------------------------------------------------
-- What can fail
-----------------------------------------------------------------------------------------

/-- A leaf over a well spelled token of its category never fails. -/
theorem exists_leaf_eq_ok {token : Token} (h : token.Spelled)
    : ∃ fragment, leaf token.tag token = .ok fragment := by
  obtain ⟨tag, text⟩ := token
  cases tag with
  | addOp | mulOp =>
      rcases h with rfl | rfl
      · exact ⟨_, rfl⟩
      · exact ⟨_, rfl⟩
  | _ => exact ⟨_, rfl⟩

/-- An inner node only fails because of the shape of what is below it. -/
theorem isShape_of_inner {a : Nat} {children : List Fragment} {error : SynthesisError}
    (h : inner grammar reductions a children = .error error)
    : error.IsShape := by
  rw [inner_eq] at h
  split at h
  · cases h
    rfl
  · split at h
    · cases h
    · cases h
      rfl

/-- Steps that follow each other fail where the first fails or else the second. -/
theorem of_bind_eq_error {ε α β : Type} {action : Except ε α} {next : α → Except ε β} {error : ε}
    {motive : Prop} (h : action.bind next = .error error)
    (hfirst : action = .error error → motive) (hsecond : ∀ a, next a = .error error → motive)
    : motive := by
  cases action with
  | error failed =>
      cases h
      exact hfirst rfl
  | ok a => exact hsecond a h

/-- Steps one after another succeed only if both do. -/
theorem exists_of_bind_eq_ok {ε α β : Type} {action : Except ε α} {next : α → Except ε β} {b : β}
    (h : action.bind next = .ok b)
    : ∃ a, action = .ok a ∧ next a = .ok b := by
  cases action with
  | error error => cases h
  | ok a => exact ⟨a, rfl, h⟩

/-- The fragment of a derivation tree fails only where the children of some node are combined, by
induction on the derivation. -/
theorem exists_inner_of_fragment (hspelled : ∀ token ∈ tokens, token.Spelled) {label : Symbol Nat}
    {start stop : Nat} {tree : Tree}
    (h : Parse.Derivation grammar (tokens.map Token.tag) label start stop tree)
    {error : SynthesisError} (herror : fragment grammar reductions tokens tree = .error error)
    : ∃ a children, inner grammar reductions a children = .error error := by
  induction h with
  | leaf htag =>
      rw [Array.getElem?_map, Option.map_eq_some_iff] at htag
      obtain ⟨token, htoken, rfl⟩ := htag
      obtain ⟨fragment, hleaf⟩ := exists_leaf_eq_ok (hspelled token (Array.mem_of_getElem? htoken))
      rw [fragment_leaf htoken, hleaf] at herror
      cases herror
  | unit _ _ ih =>
      rw [fragment_unit] at herror
      exact of_bind_eq_error herror ih fun _ hinner => ⟨_, _, hinner⟩
  | pair _ _ _ _ _ ihLeft ihRight =>
      rw [fragment_pair] at herror
      refine of_bind_eq_error herror ihLeft fun _ hright => ?_
      exact of_bind_eq_error hright ihRight fun _ hinner => ⟨_, _, hinner⟩

end Synthesis

/-- A derivation tree without a value fails where the children of a node are combined, or in the end
for want of a value. -/
theorem exists_inner_or_notAValue {grammar : Grammar} {reductions : Reductions}
    {tokens : Array Token} (hspelled : ∀ token ∈ tokens, token.Spelled) {label : Symbol Nat}
    {start stop : Nat} {tree : Tree}
    (h : Parse.Derivation grammar (tokens.map Token.tag) label start stop tree)
    {error : SynthesisError} (herror : synthesize grammar reductions tokens tree = .error error)
    : (∃ a children, Synthesis.inner grammar reductions a children = .error error)
      ∨ ∃ result, error = .notAValue (grammar.symbolName tree.label) result := by
  rw [synthesize_eq] at herror
  refine Synthesis.of_bind_eq_error herror
    (fun hfragment => .inl (Synthesis.exists_inner_of_fragment hspelled h hfragment)) ?_
  intro result hresult
  cases result with
  | value _ => cases hresult
  | _ =>
      cases hresult
      exact .inr ⟨_, rfl⟩

/-- The evaluation of a tree over well-spelled tokens fails only because of a shape: no number or
name is misread, and no node lies outside of the tokens. -/
theorem isShape_of_synthesize {grammar : Grammar} {reductions : Reductions} {tokens : Array Token}
    (hspelled : ∀ token ∈ tokens, token.Spelled) {label : Symbol Nat} {start stop : Nat}
    {tree : Tree} (h : Parse.Derivation grammar (tokens.map Token.tag) label start stop tree)
    {error : SynthesisError} (herror : synthesize grammar reductions tokens tree = .error error)
    : error.IsShape := by
  rcases exists_inner_or_notAValue hspelled h herror with ⟨a, children, hinner⟩ | ⟨result, rfl⟩
  · exact Synthesis.isShape_of_inner hinner
  · rfl

end Formulary
