import Formulary.Grammar.Arithmetic
import Formulary.Proofs.Parse.Enumeration

/-! What a forest delivers when trees are taken from it until none is left.
It is the plain enumeration of its label over its span, so every derivation tree comes, nothing
else does, and none comes twice unless a rule is repeated.
-/

namespace Formulary

namespace Forest

/-- Taking trees one by one until there is none gives exactly these, in this order. -/
inductive Delivers : Forest → List Tree → Prop where
  | done {forest : Forest} {rest : Forest} (hnext : forest.next = (none, rest))
    : Delivers forest []
  | step {forest rest : Forest} {tree : Tree} {trees : List Tree}
    (hnext : forest.next = (some tree, rest)) (below : Delivers rest trees)
    : Delivers forest (tree :: trees)

/-- A forest that delivers nothing holds no trees. -/
theorem toList_of_next_none {forest rest : Forest} (h : forest.next = (none, rest))
    : forest.toList = [] := by
  unfold next at h
  unfold toList
  split at h
  · rename_i hnil
    rw [hnil, LazySeq.toList_nil]
  · simp at h

/-- What a forest delivers is the first of its trees, and what it holds afterwards are the
others. -/
theorem toList_of_next_some {forest rest : Forest} {tree : Tree}
    (h : forest.next = (some tree, rest))
    : forest.toList = tree :: rest.toList := by
  unfold next at h
  unfold toList
  split at h
  · simp at h
  · rename_i hcons
    simp only [Prod.mk.injEq, Option.some.injEq] at h
    obtain ⟨rfl, rfl⟩ := h
    rw [hcons, LazySeq.toList_cons]

/-- A forest delivers the list of its trees, by induction on that list.  Asking for the next tree
takes one away from the list until it is empty. -/
theorem delivers_toList (forest : Forest)
    : forest.Delivers forest.toList := by
  generalize htrees : forest.toList = trees
  induction trees generalizing forest with
  | nil =>
      cases hnext : forest.next with
      | mk head rest =>
          cases head with
          | none => exact .done hnext
          | some tree => simp [toList_of_next_some hnext] at htrees
  | cons tree trees ih =>
      cases hnext : forest.next with
      | mk head rest =>
          cases head with
          | none => simp [toList_of_next_none hnext] at htrees
          | some first =>
              rw [toList_of_next_some hnext] at htrees
              obtain ⟨rfl, hrest⟩ := List.cons.inj htrees
              exact .step hnext (ih rest hrest)

/-- What a forest delivers one by one are its trees in order, by induction on the delivery. -/
theorem Delivers.eq_toList {forest : Forest} {trees : List Tree} (h : forest.Delivers trees)
    : trees = forest.toList := by
  induction h with
  | done hnext => rw [toList_of_next_none hnext]
  | step hnext _ ih => rw [toList_of_next_some hnext, ih]

/-- A forest delivers its trees, in order and nothing else. -/
theorem delivers_iff {forest : Forest} {trees : List Tree}
    : forest.Delivers trees ↔ trees = forest.toList :=
  ⟨Delivers.eq_toList, fun h => h ▸ forest.delivers_toList⟩

end Forest

namespace Parse

/-- A span inside the tokens is accepted. -/
theorem checkSpan_eq_ok {tokens : Array Token} {start stop : Nat} (hspan : start ≤ stop)
    (htokens : stop ≤ tokens.size)
    : checkSpan tokens start stop = .ok () := by
  have hrange : ¬ (start > stop || stop > tokens.size) = true := by simp; omega
  rw [checkSpan, if_neg hrange]

/-- A span that is turned around or ends behind the tokens is rejected, and both of its ends are
reported with the number of tokens. -/
theorem checkSpan_eq_error {tokens : Array Token} {start stop : Nat}
    (h : stop < start ∨ tokens.size < stop)
    : checkSpan tokens start stop = .error (.invalidSpan start stop tokens.size) := by
  have hrange : (start > stop || stop > tokens.size) = true := by simpa using h
  rw [checkSpan, if_pos hrange]

/-- A span within the tokens has a forest, which lists the plain enumeration. -/
theorem exists_forest (grammar : Grammar) (tokens : Array Token) {start stop : Nat}
    (hspan : start ≤ stop) (htokens : stop ≤ tokens.size) (label : Symbol Nat)
    : ∃ found,
        forest grammar tokens start stop label = .ok found
        ∧ found.toList = enumeration grammar (tokens.map Token.tag) start stop label := by
  refine ⟨_, by rw [forest, checkSpan_eq_ok hspan htokens]; rfl, ?_⟩
  exact toList_trees_eq_enumeration start stop label

/-- A forest that is opened holds the trees of the plain enumeration. -/
theorem toList_of_forest {grammar : Grammar} {tokens : Array Token} {start stop : Nat}
    {label : Symbol Nat} {found : Forest}
    (h : forest grammar tokens start stop label = .ok found)
    : found.toList = enumeration grammar (tokens.map Token.tag) start stop label := by
  rw [forest] at h
  cases hcheck : checkSpan tokens start stop with
  | error failure =>
      rw [hcheck] at h
      cases h
  | ok _ =>
      rw [hcheck] at h
      cases h
      exact toList_trees_eq_enumeration start stop label

/-- The first tree and all trees of a forest, or the same failure for both.  Both open the same
forest and look first at whether it has a tree. -/
theorem first_and_all {grammar : Grammar} {tokens : Array Token} {start stop : Nat}
    {label : Symbol Nat} {found : Forest}
    (h : forest grammar tokens start stop label = .ok found)
    : (found.toList = []
        ∧ first grammar tokens start stop label
          = .error (noParse grammar tokens start stop label)
        ∧ all grammar tokens start stop label
          = .error (noParse grammar tokens start stop label))
      ∨ ∃ tree trees,
          found.toList = tree :: trees
          ∧ first grammar tokens start stop label = .ok tree
          ∧ all grammar tokens start stop label = .ok (tree :: trees) := by
  rw [first, all, h]
  cases hnext : found.next with
  | mk head rest =>
      cases head with
      | none =>
          have htrees := Forest.toList_of_next_none hnext
          simp only [bind, Except.bind, hnext, htrees]
          exact .inl ⟨trivial, rfl, rfl⟩
      | some tree =>
          have htrees := Forest.toList_of_next_some hnext
          simp only [bind, Except.bind, hnext, htrees]
          exact .inr ⟨tree, rest.toList, rfl, rfl, rfl⟩

/-- All trees of a span are the plain enumeration, if there is any. -/
theorem all_eq_ok {grammar : Grammar} {tokens : Array Token} {label : Symbol Nat}
    {start stop : Nat} (hspan : start ≤ stop) (htokens : stop ≤ tokens.size)
    (hne : enumeration grammar (tokens.map Token.tag) start stop label ≠ [])
    : all grammar tokens start stop label
      = .ok (enumeration grammar (tokens.map Token.tag) start stop label) := by
  obtain ⟨found, hfound, htrees⟩ := exists_forest grammar tokens hspan htokens label
  rw [← htrees] at hne ⊢
  obtain ⟨tree, trees, heq⟩ := List.exists_cons_of_ne_nil hne
  simp only [all, hfound, bind, Except.bind, heq]
  rfl

/-- The first tree of a span is the head of the plain enumeration. -/
theorem first_eq_ok_iff {grammar : Grammar} {tokens : Array Token} {label : Symbol Nat}
    {start stop : Nat} (hspan : start ≤ stop) (htokens : stop ≤ tokens.size) {tree : Tree}
    : first grammar tokens start stop label = .ok tree
      ↔ (enumeration grammar (tokens.map Token.tag) start stop label).head? = some tree := by
  obtain ⟨found, hfound, htrees⟩ := exists_forest grammar tokens hspan htokens label
  rw [first, hfound, ← htrees]
  cases hnext : found.next with
  | mk head rest =>
      cases head with
      | none =>
          simp only [Forest.toList_of_next_none hnext, bind, Except.bind, hnext]
          exact ⟨nofun, nofun⟩
      | some found =>
          simp only [Forest.toList_of_next_some hnext, bind, Except.bind, hnext]
          simp [pure, Except.pure]

/-- The first tree is derived from the label over the span. -/
theorem derivation_of_first {grammar : Grammar} {tokens : Array Token} {label : Symbol Nat}
    {start stop : Nat} (hspan : start ≤ stop) (htokens : stop ≤ tokens.size) {tree : Tree}
    (h : first grammar tokens start stop label = .ok tree)
    : Derivation grammar (tokens.map Token.tag) label start stop tree :=
  mem_enumeration_iff.1 (List.mem_of_mem_head? ((first_eq_ok_iff hspan htokens).1 h))

/-- Every one of all trees is derived from the label over the span.  All trees are those of the
forest, which are those of the plain enumeration. -/
theorem derivation_of_mem_all {grammar : Grammar} {tokens : Array Token} {label : Symbol Nat}
    {start stop : Nat} {trees : List Tree} (h : all grammar tokens start stop label = .ok trees)
    {tree : Tree} (htree : tree ∈ trees)
    : Derivation grammar (tokens.map Token.tag) label start stop tree := by
  cases hfound : forest grammar tokens start stop label with
  | error failure =>
      rw [all, hfound] at h
      cases h
  | ok found =>
      have htrees : found.toList = trees := by
        obtain ⟨-, -, hall⟩ | ⟨first, others, heq, -, hall⟩ := first_and_all hfound
        · rw [hall] at h
          cases h
        · rw [hall] at h
          rw [heq, Except.ok.inj h]
      rw [← htrees, toList_of_forest hfound] at htree
      exact mem_enumeration_iff.1 htree

/-- Where there is any derivation tree, a first one is found. -/
theorem exists_first_of_derivation {grammar : Grammar} {tokens : Array Token}
    {label : Symbol Nat} {start stop : Nat} (hspan : start ≤ stop) (htokens : stop ≤ tokens.size)
    {tree : Tree} (h : Derivation grammar (tokens.map Token.tag) label start stop tree)
    : ∃ found, first grammar tokens start stop label = .ok found := by
  have hne := List.ne_nil_of_mem (mem_enumeration_iff.2 h)
  obtain ⟨found, _, heq⟩ := List.exists_cons_of_ne_nil hne
  exact ⟨found, (first_eq_ok_iff hspan htokens).2 (by rw [heq, List.head?_cons])⟩

/-- Where there is no derivation tree, none is found.  The error names the label and the span, with
the text of its tokens. -/
theorem first_eq_error_of_not_derivation {grammar : Grammar} {tokens : Array Token}
    {label : Symbol Nat} {start stop : Nat} (hspan : start ≤ stop) (htokens : stop ≤ tokens.size)
    (h : ∀ tree, ¬ Derivation grammar (tokens.map Token.tag) label start stop tree)
    : first grammar tokens start stop label
      = .error (noParse grammar tokens start stop label) := by
  obtain ⟨found, hfound, htrees⟩ := exists_forest grammar tokens hspan htokens label
  rw [first, hfound]
  cases hnext : found.next with
  | mk head rest =>
      cases head with
      | none =>
          simp only [bind, Except.bind, hnext]
          rfl
      | some tree =>
          have hmem : tree ∈ found.toList := by
            rw [Forest.toList_of_next_some hnext]
            exact List.mem_cons_self
          rw [htrees, mem_enumeration_iff] at hmem
          exact (h tree hmem).elim

/-- Passing over spans and splits by the categories at their edges, and over splits without a right
tree, changes nothing: the forest of a span delivers exactly the plain enumeration.  What is passed
over has no tree: a tree begins and ends with categories in the edge sets of its label. -/
theorem forest_delivers_enumeration (grammar : Grammar) (tokens : Array Token) (start stop : Nat)
    (label : Symbol Nat) (hspan : start ≤ stop) (htokens : stop ≤ tokens.size)
    : ∃ found,
        forest grammar tokens start stop label = .ok found
        ∧ ∀ trees,
            found.Delivers trees
            ↔ trees = enumeration grammar (tokens.map Token.tag) start stop label := by
  obtain ⟨found, hfound, htrees⟩ := exists_forest grammar tokens hspan htokens label
  refine ⟨found, hfound, fun trees => ?_⟩
  rw [Forest.delivers_iff, htrees]

/-- The sum of two names, read as a whole expression of the built-in grammar. -/
theorem forest_delivers_enumeration_sum
    : 0 ≤ 3
      ∧ 3 ≤ #[Token.mk .name "a", .mk .addOp "+", .mk .name "b"].size
      ∧ ∃ found,
          forest .arithmetic #[.mk .name "a", .mk .addOp "+", .mk .name "b"] 0 3 (.nonterminal 0)
            = .ok found
          ∧ ∀ trees,
              found.Delivers trees
              ↔ trees = enumeration .arithmetic #[.name, .addOp, .name] 0 3 (.nonterminal 0) :=
  ⟨by decide, by decide, by
    simpa using
      forest_delivers_enumeration .arithmetic #[.mk .name "a", .mk .addOp "+", .mk .name "b"] 0 3
        (.nonterminal 0) (by decide) (by decide)⟩

/-- A forest delivers the derivation trees of its label over its span and no other tree, and each
once if the grammar repeats no rule.  Both the rule and the place of a split can be read off a tree,
so different ways give different trees. -/
theorem forest_delivers_derivations (grammar : Grammar) (tokens : Array Token) (start stop : Nat)
    (label : Symbol Nat) (hspan : start ≤ stop) (htokens : stop ≤ tokens.size)
    : ∃ found trees,
        forest grammar tokens start stop label = .ok found
        ∧ found.Delivers trees
        ∧ (∀ tree,
            tree ∈ trees ↔ Derivation grammar (tokens.map Token.tag) label start stop tree)
        ∧ (grammar.rules.Nodup → trees.Nodup) := by
  obtain ⟨found, hfound, htrees⟩ := exists_forest grammar tokens hspan htokens label
  refine ⟨found, _, hfound, Forest.delivers_iff.2 htrees.symm, fun tree => ?_, fun hrules => ?_⟩
  · exact mem_enumeration_iff
  · exact nodup_enumeration hrules start stop label

/-- The rules of the expression grammar are all different, so the trees of `a + b` are listed
without repetition. -/
theorem forest_delivers_derivations_sum
    : 0 ≤ 3
      ∧ 3 ≤ #[Token.mk .name "a", .mk .addOp "+", .mk .name "b"].size
      ∧ Grammar.arithmetic.rules.Nodup
      ∧ ∃ found trees,
          forest .arithmetic #[.mk .name "a", .mk .addOp "+", .mk .name "b"] 0 3 (.nonterminal 0)
            = .ok found
          ∧ found.Delivers trees
          ∧ (∀ tree,
              tree ∈ trees
              ↔ Derivation .arithmetic #[.name, .addOp, .name] (.nonterminal 0) 0 3 tree)
          ∧ trees.Nodup := by
  have hrules : Grammar.arithmetic.rules.Nodup := by decide
  obtain ⟨found, trees, hfound, htrees, hmem, hnodup⟩ :=
    forest_delivers_derivations .arithmetic #[.mk .name "a", .mk .addOp "+", .mk .name "b"] 0 3
      (.nonterminal 0) (by decide) (by decide)
  exact ⟨by decide, by decide, hrules, found, trees, hfound, htrees, by simpa using hmem,
    hnodup hrules⟩

end Parse

end Formulary
