import Formulary.Language
import Formulary.Proofs.Parse.Lookups
import Formulary.Proofs.Tree.PostOrder
import Formulary.Proofs.Tree.Print

/-! The tables of a compiled grammar in use.
Printing a tree, naming its labels and synthesizing its value read the name of a label from the
tables, and so does parsing for its reports.  All of them are given symbols of the grammar only, and
then no read goes beyond a table and every outcome is that of the grammar itself.
-/

namespace Formulary

-----------------------------------------------------------------------------------------
-- The same steps in another monad
-----------------------------------------------------------------------------------------

namespace Tree

section Lift

variable {m n : Type u → Type u} [Monad m] [Monad n] [MonadLiftT m n] [LawfulMonadLiftT m n]
  {ρ : Type u}

/-- Trees side by side are folded in the larger monad as in the smaller one if each of them is, by
induction on the list. -/
theorem foldAllM_eq_monadLift {step : Tree → List ρ → m ρ} {other : Tree → List ρ → n ρ}
    {trees : List Tree} (h : ∀ tree ∈ trees, tree.foldM other = monadLift (tree.foldM step))
    : foldAllM other trees = monadLift (foldAllM step trees) := by
  induction trees with
  | nil => simp only [foldAllM, monadLift_pure]
  | cons tree trees ih =>
      obtain ⟨htree, htrees⟩ := List.forall_mem_cons.1 h
      simp only [foldAllM, htree, ih htrees, monadLift_bind, monadLift_pure]

/-- Where a step on the nodes of a tree does what another does before it is lifted, so does the
whole run, by induction on the tree. -/
theorem foldM_eq_monadLift {step : Tree → List ρ → m ρ} {other : Tree → List ρ → n ρ} {tree : Tree}
    (h : ∀ node ∈ tree.nodes, ∀ results, other node results = monadLift (step node results))
    : tree.foldM other = monadLift (tree.foldM step) := by
  induction tree using children_induction with
  | node label start stop children ih =>
      rw [nodes_node, List.forall_mem_cons, List.forall_mem_flatMap] at h
      obtain ⟨hroot, hbelow⟩ := h
      have hchildren :=
        foldAllM_eq_monadLift fun child hchild => ih child hchild (hbelow child hchild)
      simp only [foldM, hchildren, monadLift_bind, hroot]

end Lift

/-- Where a step on the nodes of a tree has no effect, neither has the whole run. -/
theorem foldM_eq_pure {m : Type u → Type u} [Monad m] [LawfulMonad m] {ρ : Type u}
    {combine : Tree → List ρ → ρ} {step : Tree → List ρ → m ρ} {tree : Tree}
    (h : ∀ node ∈ tree.nodes, ∀ results, step node results = pure (combine node results))
    : tree.foldM step = pure (tree.fold combine) := by
  have hrun
      : tree.foldM step
        = monadLift (tree.foldM fun node results => (pure (combine node results) : Id ρ)) :=
    foldM_eq_monadLift h
  rwa [foldM_pure] at hrun

end Tree

namespace Catalog

-----------------------------------------------------------------------------------------
-- Printing and synthesis over the tables
-----------------------------------------------------------------------------------------

section Readers

variable (catalog : Catalog) (reductions : Reductions) (tokens : Array Token) (tree : Tree)

/-- The printed form of a tree. -/
def print : Except OutOfRange String :=
  tree.printWith catalog.symbolName tokens

/-- The named form of a tree. -/
def named : Except OutOfRange NamedTree :=
  tree.namedWith catalog.symbolName tokens

/-- The name of a symbol for a run that can also fail for a reason of its own. -/
def nameOf {ε : Type} (symbol : Symbol Nat) : Checked ε String :=
  monadLift (catalog.symbolName symbol)

/-- The value of a parse tree. -/
def synthesize : Checked SynthesisError Value :=
  Synthesis.synthesizeWith catalog.nameOf reductions tokens tree

end Readers

-----------------------------------------------------------------------------------------
-- No read beyond a table
-----------------------------------------------------------------------------------------

section Known

variable {catalog : Catalog} {grammar : Grammar} (hdescribes : catalog.Describes grammar)
  (reductions : Reductions) (tokens : Array Token) {tree : Tree} (htree : tree.KnownTo grammar)

include hdescribes htree

/-- Printing a tree over the symbols of the grammar reads no entry that is not there, and prints the
tree. -/
theorem print_eq_ok
    : catalog.print tokens tree = .ok (tree.print grammar tokens) := by
  rw [Tree.print_eq_fold]
  refine Tree.foldM_eq_pure fun node hnode children => ?_
  rw [symbolName_eq hdescribes (htree node hnode)]
  rfl

/-- Naming the labels of a tree over the symbols of the grammar reads no entry that is not there. -/
theorem named_eq_ok
    : catalog.named tokens tree = .ok (tree.named grammar tokens) := by
  rw [Tree.named_eq_fold]
  refine Tree.foldM_eq_pure fun node hnode children => ?_
  rw [symbolName_eq hdescribes (htree node hnode)]
  rfl

omit htree in
/-- The name of a symbol of the grammar is read without fault, whatever else may fail. -/
theorem nameOf_eq {ε : Type} {symbol : Symbol Nat} (hsymbol : grammar.Knows symbol)
    : (catalog.nameOf symbol : Checked ε String) = pure (grammar.symbolName symbol) := by
  rw [nameOf, symbolName_eq hdescribes hsymbol]
  rfl

omit htree in
/-- An inner node over the symbols of the grammar is joined with checked reads as it is without:
only the name in an error is read. -/
theorem innerWith_eq_monadLift {a : Nat} (ha : grammar.Knows (.nonterminal a))
    (children : List Fragment)
    : (Synthesis.innerWith catalog.nameOf reductions a children : Checked SynthesisError Fragment)
      = monadLift (Synthesis.inner grammar reductions a children) := by
  rw [Synthesis.innerWith, Synthesis.inner_eq, nameOf_eq hdescribes ha]
  cases reductions.get? a with
  | none => rfl
  | some reduction =>
      dsimp only
      cases reduction.apply children <;> rfl

omit htree in
/-- A node over the symbols of the grammar is evaluated with checked reads as it is without.  A leaf
goes by its token alone, and an inner node reads the name of its symbol, which is there. -/
theorem combineWith_eq_monadLift {node : Tree} (hnode : grammar.Knows node.label)
    (results : List Fragment)
    : (Synthesis.combineWith catalog.nameOf reductions tokens node results
        : Checked SynthesisError Fragment)
      = monadLift (Synthesis.combine grammar reductions tokens node results) := by
  rw [Synthesis.combineWith, Synthesis.combine_eq]
  cases hlabel : node.label with
  | terminal tag =>
      simp only [monadLift_ite]
      cases tokens[node.start]? with
      | none => rfl
      | some token =>
          dsimp only
          cases Synthesis.leaf tag token <;> rfl
  | nonterminal a =>
      rw [hlabel] at hnode
      exact innerWith_eq_monadLift hdescribes reductions hnode _

/-- Evaluating a tree over the symbols of the grammar with checked reads gives what evaluating it
without gives, value or error, as every node is evaluated alike. -/
theorem synthesize_eq_monadLift
    : catalog.synthesize reductions tokens tree
      = monadLift (Formulary.synthesize grammar reductions tokens tree) := by
  have hfragment
      : (tree.foldM (Synthesis.combineWith catalog.nameOf reductions tokens)
          : Checked SynthesisError Fragment)
        = monadLift (Synthesis.fragment grammar reductions tokens tree) :=
    Tree.foldM_eq_monadLift fun node hnode =>
      combineWith_eq_monadLift hdescribes reductions tokens (htree node hnode)
  rw [synthesize, Synthesis.synthesizeWith, Formulary.synthesize_eq, hfragment,
    nameOf_eq hdescribes htree.label]
  cases Synthesis.fragment grammar reductions tokens tree with
  | error _ => rfl
  | ok result => cases result <;> rfl

end Known

-----------------------------------------------------------------------------------------
-- The tables of a compiled text
-----------------------------------------------------------------------------------------

/-- A name is found by the catalog as by the grammar: token categories go first, then the names that
are numbered. -/
theorem lookup?_eq {catalog : Catalog} {grammar : Grammar} (h : catalog.Describes grammar)
    (name : String)
    : catalog.lookup? name = grammar.lookup? name := by
  cases htag : Tag.ofName? name with
  | some tag => simp only [lookup?, Grammar.lookup?, htag]
  | none => simp only [lookup?, Grammar.lookup?, htag, h.numbers_eq]

/-- A symbol is found again by the name that is shown for it. -/
theorem lookup?_symbolName {text : String} {catalog : Catalog} {grammar : Grammar}
    (h : Grammar.compile text = .ok grammar) (hdescribes : catalog.Describes grammar)
    (hconsistent : catalog.Consistent) {symbol : Symbol Nat} (hsymbol : grammar.Knows symbol)
    : catalog.lookup? (grammar.symbolName symbol) = some symbol := by
  rw [lookup?, Grammar.ofName?_symbolName h hsymbol]
  cases symbol with
  | terminal tag => rfl
  | nonterminal a =>
      have hname := symbolName_eq hdescribes hsymbol
      rw [symbolName, read_eq_ok_iff] at hname
      simp only [(hconsistent.numbers_iff _ a).2 hname, Option.map_some]

/-- Whatever reads the tables for symbols of a grammar finds what it asks for, and does what it
does with the grammar itself. -/
structure Serves (catalog : Catalog) (grammar : Grammar) : Prop where
  all_eq
    : ∀ tokens start stop label,
        grammar.Knows label
        → ∀ depth > grammar.names.size * (stop - start + 1),
          (catalog.all tokens depth start stop label).run
          = .ok (.ok (Parse.all grammar tokens start stop label))
  print_eq
    : ∀ tokens (tree : Tree),
        tree.KnownTo grammar → catalog.print tokens tree = .ok (tree.print grammar tokens)
  named_eq
    : ∀ tokens (tree : Tree),
        tree.KnownTo grammar → catalog.named tokens tree = .ok (tree.named grammar tokens)
  synthesize_eq
    : ∀ reductions tokens (tree : Tree),
        tree.KnownTo grammar
        → (catalog.synthesize reductions tokens tree).run
          = .ok (Formulary.synthesize grammar reductions tokens tree)

/-- The tables that are built for a compiled text are consistent.  Symbols of the grammar have names
of their own and are found by them, and parsing for such a symbol, printing the trees and
synthesizing their values never read beyond a table. -/
theorem tables_of_compile {text : String} {grammar : Grammar}
    (h : Grammar.compile text = .ok grammar)
    : ∃ (source : List (Rule String)) (catalog : Catalog),
        Rule.readText text = .ok source
        ∧ (∀ other : Catalog, other.Built source ↔ other = catalog)
        ∧ catalog.Describes grammar
        ∧ catalog.Consistent
        ∧ (∀ symbol,
            grammar.Knows symbol
            → catalog.symbolName symbol = .ok (grammar.symbolName symbol)
              ∧ catalog.lookup? (grammar.symbolName symbol) = some symbol)
        ∧ (∀ symbol other,
            grammar.Knows symbol
            → grammar.Knows other
            → grammar.symbolName symbol = grammar.symbolName other
            → symbol = other)
        ∧ (∀ name, catalog.lookup? name = grammar.lookup? name)
        ∧ (∀ tokens start stop label trees,
            grammar.Knows label
            → Parse.all grammar tokens start stop label = .ok trees
            → ∀ tree ∈ trees, tree.KnownTo grammar)
        ∧ catalog.Serves grammar := by
  obtain ⟨source, hread, hrules⟩ := Grammar.exists_rules_of_compile h
  obtain ⟨catalog, hbuilt, hdescribes⟩ := exists_built hrules
  have hconsistent := consistent_of_compile h hbuilt hdescribes
  refine ⟨source, catalog, hread, fun other => ⟨hbuilt.unique, fun h => h ▸ hbuilt⟩, hdescribes,
    hconsistent, fun symbol hsymbol => ?_, fun symbol other => Grammar.symbolName_injOn h,
    lookup?_eq hdescribes, fun tokens start stop label trees hlabel hall tree htree => ?_, ?_⟩
  · exact ⟨symbolName_eq hdescribes hsymbol, lookup?_symbolName h hdescribes hconsistent hsymbol⟩
  · exact Tree.knownTo_of_derivation (Parse.derivation_of_mem_all hall htree) hlabel
  · constructor
    case all_eq =>
      exact fun tokens start stop label hlabel depth hdepth =>
        all_eq_ok hdescribes hconsistent tokens start stop hlabel hdepth
    case print_eq => exact fun tokens tree => print_eq_ok hdescribes tokens
    case named_eq => exact fun tokens tree => named_eq_ok hdescribes tokens
    case synthesize_eq =>
      exact fun reductions tokens tree => synthesize_eq_monadLift hdescribes reductions tokens

/-- The second name is met on the right side of the first rule, before it has a rule of its own. -/
theorem tables_of_compile_sum
    : let tokens := #[Token.mk .name "a", .mk .addOp "+", .mk .name "b"]
      ∃ (grammar : Grammar) (catalog : Catalog),
        Grammar.compile "sum = head name\nhead = name addop" = .ok grammar
        ∧ catalog.Consistent
        ∧ catalog.names = #["sum", "head"]
        ∧ catalog.numbers["head"]? = some 1
        ∧ catalog.lookup? "head" = some (.nonterminal 1)
        ∧ catalog.lookup? "Head" = none
        ∧ catalog.rulesFor 1 = .ok [⟨1, .pair (.terminal .name) (.terminal .addOp)⟩]
        ∧ (catalog.all tokens 9 0 3 (.nonterminal 0)).run
          = .ok (.ok (Parse.all grammar tokens 0 3 (.nonterminal 0))) := by
  intro tokens
  let text := "sum = head name\nhead = name addop"
  have hfacts
      : (Grammar.compile text).map
          (fun grammar =>
            (grammar.names, grammar.rules, grammar.lookup? "head", grammar.lookup? "Head"))
        = .ok
          (#["sum", "head"],
            [
              ⟨0, .pair (.nonterminal 1) (.terminal .name)⟩,
              ⟨1, .pair (.terminal .name) (.terminal .addOp)⟩
            ],
            some (.nonterminal 1), none) := by
    decide +kernel
  obtain ⟨grammar, hgrammar, hfacts⟩ := Grammar.exists_of_map_compile hfacts
  obtain ⟨hnames, hfacts⟩ := Prod.mk.inj hfacts
  obtain ⟨hrules, hfacts⟩ := Prod.mk.inj hfacts
  obtain ⟨hhead, hother⟩ := Prod.mk.inj hfacts
  obtain ⟨source, catalog, -, -, hdescribes, hconsistent, -, -, hlookup, -, hserves⟩ :=
    tables_of_compile hgrammar
  have hcatalog : catalog.names = #["sum", "head"] := hdescribes.names_eq.trans hnames
  refine ⟨grammar, catalog, hgrammar, hconsistent, hcatalog, ?_, (hlookup _).trans hhead,
    (hlookup _).trans hother, ?_, ?_⟩
  · rw [hconsistent.numbers_iff, hcatalog]
    rfl
  · rw [hconsistent.rulesFor_eq 1 (by rw [hcatalog]; decide), hdescribes.rules_eq, hrules]
    rfl
  · refine hserves.all_eq tokens 0 3 (.nonterminal 0) ?_ 9 ?_
    · rw [Grammar.Knows, hnames]
      decide
    · rw [hnames]
      decide

end Catalog

end Formulary
