import Formulary.Proofs.Parse.Forest
import Formulary.Proofs.Tree.Outline
import Mathlib.Data.List.Flatten
import Mathlib.Data.List.Perm.Basic

/-! Enumerating the trees of one grammar and of another that resembles it.
A way of comparing lists that survives putting lists together survives the whole enumeration.  So
where the alternatives of two grammars compare and the spans hold the same categories, the trees
compare, once they are carried over from the one grammar and span to the other.  In particular
parsing looks at nothing but the categories inside its span: the texts of the tokens and what stands
around the span play no part.
-/

namespace Formulary.Parse

/-- A way of comparing lists that is kept when lists that compare are put together in the order of
lists that compare. -/
structure Comparison (R : ∀ {α : Type}, List α → List α → Prop) : Prop where
  refl : ∀ {α : Type} (items : List α), R items items
  trans
    : ∀ {α : Type} {first second third : List α},
        R first second → R second third → R first third
  flatMap
    : ∀ {α β : Type} {first second : List α} {f g : α → List β},
        R first second → (∀ a ∈ first, R (f a) (g a)) → R (first.flatMap f) (second.flatMap g)

/-- Being the same list is a comparison. -/
theorem comparison_eq
    : Comparison fun first second => first = second where
  refl _ := rfl
  trans := Eq.trans
  flatMap h hitems := h ▸ List.flatMap_congr hitems

/-- Being the same up to order is a comparison. -/
theorem comparison_perm
    : Comparison List.Perm where
  refl := List.Perm.refl
  trans := List.Perm.trans
  flatMap := List.Perm.flatMap

/-- Being what is left after some items are dropped is a comparison. -/
theorem comparison_sublist
    : Comparison List.Sublist where
  refl := List.Sublist.refl
  trans := List.Sublist.trans
  flatMap h hitems := (List.Sublist.flatMap_right _ hitems).trans (h.flatMap _)

/-- The right sides of a nonterminal stay as they are when no symbol is renamed. -/
theorem map_id_alternatives (grammar : Grammar) (a : Nat)
    : (grammar.alternatives a).map (Body.map id) = grammar.alternatives a := by
  rw [List.map_congr_left fun body _ => body.map_id, List.map_id']

/-- The positions inside a moved span are those of the span, moved. -/
theorem map_inside (start stop offset : Nat)
    : (inside start stop).map (· + offset) = inside (start + offset) (stop + offset) := by
  have hshift := List.map_add_range' (a := offset) (start + 1) (stop - (start + 1)) 1
  have hstart : offset + (start + 1) = start + offset + 1 := by omega
  have hlength : stop - (start + 1) = stop + offset - (start + offset + 1) := by omega
  simp only [Nat.add_comm offset] at hshift
  rw [inside, hshift, Nat.add_right_comm, inside, hlength]

namespace Comparison

variable {R : ∀ {α : Type}, List α → List α → Prop} (hR : Comparison R)

include hR

/-- A comparison survives that all items are mapped alike. -/
theorem map {α β : Type} {first second : List α} (h : R first second) (f : α → β)
    : R (first.map f) (second.map f) := by
  rw [List.map_eq_flatMap, List.map_eq_flatMap]
  exact hR.flatMap h fun a _ => hR.refl [f a]

/-- The trees of a symbol compare with those of the renamed symbol over the moved span, if the
alternatives of all nonterminals do and the categories in both spans are the same. -/
theorem enumeration {grammar other : Grammar} {rename : Nat → Nat}
    (hrules
      : ∀ a, R ((grammar.alternatives a).map (Body.map rename)) (other.alternatives (rename a)))
    {tags others : Array Tag} {offset : Nat} (start stop : Nat) (label : Symbol Nat)
    (htags : ∀ place, start ≤ place → place < stop → tags[place]? = others[place + offset]?)
    : R ((enumeration grammar tags start stop label).map (Tree.transport rename offset))
        (enumeration other others (start + offset) (stop + offset) (label.map rename)) := by
  induction start, stop, label using span_induction grammar with
  | terminal start stop tag =>
      have hleaf
          : (stop = start + 1 ∧ tags[start]? = some tag)
            ↔ stop + offset = start + offset + 1 ∧ others[start + offset]? = some tag := by
        constructor
        · rintro ⟨rfl, htag⟩
          exact ⟨by omega, by rw [← htags start (by omega) (by omega), htag]⟩
        · rintro ⟨hstop, htag⟩
          exact ⟨by omega, by rw [htags start (by omega) (by omega), htag]⟩
      rw [Symbol.map, enumeration_terminal, enumeration_terminal]
      by_cases h : stop = start + 1 ∧ tags[start]? = some tag
      · rw [if_pos h, if_pos (hleaf.1 h), List.map_singleton, Tree.transport_leaf]
        exact hR.refl _
      · rw [if_neg h, if_neg (mt hleaf.2 h)]
        exact hR.refl []
  | nonterminal start stop a ihUnit ihLeft ihRight =>
      have hbodies : ∀ body ∈ grammar.alternatives a,
          R ((extensions grammar tags start stop (.nonterminal a) body).map
              (Tree.transport rename offset))
            (extensions other others (start + offset) (stop + offset) (.nonterminal (rename a))
              (body.map rename)) := by
        intro body hbody
        rw [Grammar.mem_alternatives] at hbody
        cases body with
        | unit child =>
            have hbelow := hR.map (ihUnit child hbody htags) fun tree =>
              Tree.node (.nonterminal (rename a)) (start + offset) (stop + offset) [tree]
            simpa [extensions, Body.map, Symbol.map, Function.comp_def] using hbelow
        | pair left right =>
            simp only [extensions, Body.map]
            rw [← map_inside, List.flatMap_map, List.map_flatMap]
            refine hR.flatMap (hR.refl _) fun middle hmiddle => ?_
            obtain ⟨hstart, hstop⟩ := mem_inside.1 hmiddle
            have hlefts := ihLeft middle left hstart hstop fun place hle hlt =>
              htags place hle (by omega)
            have hrights := ihRight middle right hstart hstop fun place hle hlt =>
              htags place (by omega) hlt
            have hpairs := hR.flatMap hlefts fun leftTree _ => hR.map hrights fun rightTree =>
              Tree.node (.nonterminal (rename a)) (start + offset) (stop + offset)
                [leftTree, rightTree]
            simpa [List.map_flatMap, List.flatMap_map, Symbol.map, Function.comp_def] using hpairs
      rw [Symbol.map, enumeration_nonterminal, enumeration_nonterminal, List.map_flatMap]
      refine hR.trans (hR.flatMap (hR.refl _) hbodies) ?_
      rw [← List.flatMap_map (Body.map rename)]
      exact hR.flatMap (hrules a) fun body _ => hR.refl _

end Comparison

/-- Two spans have forests, and what holds of their enumerations holds of what these deliver. -/
theorem exists_forests {grammar other : Grammar} {tokens others : Array Token}
    {start stop otherStart otherStop : Nat} {label otherLabel : Symbol Nat}
    {p : List Tree → List Tree → Prop} (hspan : start ≤ stop) (htokens : stop ≤ tokens.size)
    (hother : otherStart ≤ otherStop) (hothers : otherStop ≤ others.size)
    (h
      : p (enumeration grammar (tokens.map Token.tag) start stop label)
          (enumeration other (others.map Token.tag) otherStart otherStop otherLabel))
    : ∃ found otherFound trees otherTrees,
        forest grammar tokens start stop label = .ok found
        ∧ forest other others otherStart otherStop otherLabel = .ok otherFound
        ∧ found.Delivers trees
        ∧ otherFound.Delivers otherTrees
        ∧ p trees otherTrees := by
  obtain ⟨found, hfound, htrees⟩ := exists_forest grammar tokens hspan htokens label
  obtain ⟨otherFound, hotherFound, hotherTrees⟩ :=
    exists_forest other others hother hothers otherLabel
  exact ⟨found, otherFound, _, _, hfound, hotherFound, Forest.delivers_iff.2 htrees.symm,
    Forest.delivers_iff.2 hotherTrees.symm, h⟩

-----------------------------------------------------------------------------------------
-- Spans with the same categories
-----------------------------------------------------------------------------------------

variable {grammar : Grammar}

/-- Over a span of the same categories that lies further to the right come the same trees, moved
there. -/
theorem enumeration_eq_of_tags_eq {tags others : Array Tag} {start otherStart length : Nat}
    (hle : start ≤ otherStart) (h : ∀ i < length, tags[start + i]? = others[otherStart + i]?)
    (label : Symbol Nat)
    : enumeration grammar others otherStart (otherStart + length) label
      = (enumeration grammar tags start (start + length) label).map
          (Tree.transport id (otherStart - start)) := by
  obtain ⟨offset, rfl⟩ := Nat.exists_eq_add_of_le hle
  have htags : ∀ place, start ≤ place → place < start + length →
      tags[place]? = others[place + offset]? := by
    intro place hfirst hlast
    obtain ⟨i, rfl⟩ := Nat.exists_eq_add_of_le hfirst
    rw [h i (by omega), Nat.add_right_comm]
  have hmoved :=
    comparison_eq.enumeration (map_id_alternatives grammar) start (start + length) label htags
  rw [Nat.add_sub_cancel_left, hmoved, Symbol.map_id, Nat.add_right_comm]

/-- Spans of one length whose tokens have the same categories, place by place, have forests that
deliver the same trees in the same order, up to the distance between the spans.  The search looks at
nothing but the categories inside its span. -/
theorem forest_of_same_tags (grammar : Grammar) (label : Symbol Nat) {tokens others : Array Token}
    {start otherStart length : Nat} (htokens : start + length ≤ tokens.size)
    (hothers : otherStart + length ≤ others.size)
    (htags
      : ∀ i < length, tokens[start + i]?.map Token.tag = others[otherStart + i]?.map Token.tag)
    : ∃ found otherFound trees otherTrees,
        forest grammar tokens start (start + length) label = .ok found
        ∧ forest grammar others otherStart (otherStart + length) label = .ok otherFound
        ∧ found.Delivers trees
        ∧ otherFound.Delivers otherTrees
        ∧ (start ≤ otherStart
          → otherTrees = trees.map (Tree.transport id (otherStart - start)))
        ∧ (otherStart ≤ start
          → trees = otherTrees.map (Tree.transport id (start - otherStart))) := by
  have hsame : ∀ i < length,
      (tokens.map Token.tag)[start + i]? = (others.map Token.tag)[otherStart + i]? := by
    intro i hi
    rw [Array.getElem?_map, Array.getElem?_map, htags i hi]
  refine exists_forests (Nat.le_add_right start length) htokens
    (Nat.le_add_right otherStart length) hothers ⟨fun hle => ?_, fun hle => ?_⟩
  · exact enumeration_eq_of_tags_eq hle hsame label
  · exact enumeration_eq_of_tags_eq hle (fun i hi => (hsame i hi).symm) label

/-- The sum `a + b`, and the difference `x - y` in parentheses before an operator. -/
theorem forest_of_same_tags_moved
    : let tokens := #[Token.mk .name "a", .mk .addOp "+", .mk .name "b"]
      let others :=
        #[Token.mk .leftParen "(", .mk .name "x", .mk .addOp "-", .mk .name "y",
          .mk .rightParen ")", .mk .mulOp "*"]
      0 + 3 ≤ tokens.size
      ∧ 1 + 3 ≤ others.size
      ∧ (∀ i < 3, tokens[0 + i]?.map Token.tag = others[1 + i]?.map Token.tag)
      ∧ ∃ found otherFound trees otherTrees,
          forest .arithmetic tokens 0 3 (.nonterminal 1) = .ok found
          ∧ forest .arithmetic others 1 4 (.nonterminal 1) = .ok otherFound
          ∧ found.Delivers trees
          ∧ otherFound.Delivers otherTrees
          ∧ otherTrees = trees.map (Tree.transport id 1) := by
  intro tokens others
  have htokens : 0 + 3 ≤ tokens.size := by decide
  have hothers : 1 + 3 ≤ others.size := by decide
  have htags : ∀ i < 3, tokens[0 + i]?.map Token.tag = others[1 + i]?.map Token.tag := by decide
  obtain
      ⟨found, otherFound, trees, otherTrees, hfound, hotherFound, htrees, hotherTrees, hmoved, -⟩ :=
    forest_of_same_tags .arithmetic (.nonterminal 1) htokens hothers htags
  exact ⟨htokens, hothers, htags, found, otherFound, trees, otherTrees, hfound, hotherFound, htrees,
    hotherTrees, hmoved (Nat.zero_le 1)⟩

end Formulary.Parse
