import Formulary.Proofs.Tree.Outline
import Formulary.Tree
import Mathlib.Data.List.Perm.Basic

/-! Combining a tree as a run over the list of its nodes.
Every node comes behind its children, and these come from left to right.  Combining calls its step
on the nodes in this order, each time with what came of the children, until a call fails or none is
left.  So it is a left fold over the list, which keeps the results that no parent has taken yet on
a stack.
-/

namespace Formulary.Tree

-----------------------------------------------------------------------------------------
-- Post-order
-----------------------------------------------------------------------------------------

mutual
/-- The nodes of a tree, each behind those below it. -/
def postOrder : Tree → List Tree
  | node label start stop children => postOrderAll children ++ [node label start stop children]

/-- The nodes of trees that stand side by side. -/
def postOrderAll : List Tree → List Tree
  | [] => []
  | tree :: trees => tree.postOrder ++ postOrderAll trees
end

/-- Trees side by side are visited one after the other, by induction on the list. -/
theorem postOrderAll_eq_flatMap (trees : List Tree)
    : postOrderAll trees = trees.flatMap postOrder := by
  induction trees with
  | nil => rfl
  | cons tree trees ih => rw [postOrderAll, ih, List.flatMap_cons]

/-- A tree is visited behind its children. -/
theorem postOrder_eq (tree : Tree)
    : tree.postOrder = tree.children.flatMap postOrder ++ [tree] := by
  cases tree with
  | node label start stop children => rw [postOrder, postOrderAll_eq_flatMap, Tree.children]

/-- Post-order has the nodes of pre-order, each as often. -/
theorem postOrder_perm_nodes (tree : Tree)
    : tree.postOrder.Perm tree.nodes := by
  induction tree using children_induction with
  | node label start stop children ih =>
      rw [postOrder_eq, nodes_node]
      have hbelow : (children.flatMap postOrder).Perm (children.flatMap nodes) :=
        List.Perm.flatMap_left children ih
      exact (List.perm_append_singleton _ _).trans (hbelow.cons _)

-----------------------------------------------------------------------------------------
-- A fold with a stack of results
-----------------------------------------------------------------------------------------

section Stack

variable {m : Type u → Type v} [Monad m] {ρ : Type u}

/-- Combines a node with the results on top of a stack, as many as it has children and the last
child's first, and leaves its own result in their place. -/
def stackStep (step : Tree → List ρ → m ρ) (stack : List ρ) (tree : Tree) : m (List ρ) := do
  let result ← step tree (stack.take tree.children.length).reverse
  pure (result :: stack.drop tree.children.length)

variable [LawfulMonad m]

/-- What follows trees may count on one result for each. -/
theorem bind_foldAllM_congr {α : Type u} (step : Tree → List ρ → m ρ) (trees : List Tree)
    {next other : List ρ → m α}
    (h : ∀ results, results.length = trees.length → next results = other results)
    : foldAllM step trees >>= next = foldAllM step trees >>= other := by
  induction trees generalizing next other with
  | nil => simpa [foldAllM] using h [] rfl
  | cons tree trees ih =>
      simp only [foldAllM, bind_assoc, pure_bind]
      refine bind_congr fun result => ih fun results hlength => ?_
      exact h (result :: results) (by simpa using hlength)

mutual
/-- The nodes of a tree, taken in post-order, leave its result on the stack. -/
theorem foldlM_postOrder (step : Tree → List ρ → m ρ) (tree : Tree) (stack : List ρ)
    : tree.postOrder.foldlM (stackStep step) stack
      = tree.foldM step >>= fun result => pure (result :: stack) := by
  cases tree with
  | node label start stop children =>
      rw [postOrder, List.foldlM_append, foldlM_postOrderAll step children stack, foldM]
      simp only [bind_assoc, pure_bind, List.foldlM_cons, List.foldlM_nil, bind_pure]
      refine bind_foldAllM_congr step children fun results hlength => ?_
      have htake : (results.reverse ++ stack).take children.length = results.reverse := by
        simp [← hlength]
      have hdrop : (results.reverse ++ stack).drop children.length = stack := by
        simp [← hlength]
      rw [stackStep, Tree.children, htake, hdrop, List.reverse_reverse]
termination_by sizeOf tree

/-- A run along the nodes of trees side by side leaves their results on the stack, the last on
top. -/
theorem foldlM_postOrderAll (step : Tree → List ρ → m ρ) (trees : List Tree) (stack : List ρ)
    : (postOrderAll trees).foldlM (stackStep step) stack
      = foldAllM step trees >>= fun results => pure (results.reverse ++ stack) := by
  cases trees with
  | nil => simp [postOrderAll, foldAllM]
  | cons tree trees =>
      rw [postOrderAll, List.foldlM_append, foldlM_postOrder step tree stack, foldAllM]
      simp only [bind_assoc, pure_bind]
      refine bind_congr fun result => ?_
      rw [foldlM_postOrderAll step trees (result :: stack)]
      simp
termination_by sizeOf trees
end

end Stack

/-- A run over a list in a state is a left fold over pairs. -/
theorem run_foldlM {σ β : Type u} {α : Type v} (step : β → α → StateM σ β) (items : List α) (b : β)
    (state : σ)
    : (items.foldlM step b).run state
      = items.foldl (fun pair a => (step pair.1 a).run pair.2) (b, state) := by
  induction items generalizing b state with
  | nil => rfl
  | cons a items ih =>
      rw [List.foldlM_cons, List.foldl_cons, StateT.run_bind]
      exact ih _ _

-----------------------------------------------------------------------------------------
-- The calls of a step
-----------------------------------------------------------------------------------------

section Calls

variable {σ ε ρ α β : Type u}

/-- A failure ends the run and keeps the state that it left. -/
theorem run_bind_of_error {action : ExceptT ε (StateM σ) α} {next : α → ExceptT ε (StateM σ) β}
    {state after : σ} {error : ε} (h : action.run.run state = (.error error, after))
    : (action >>= next).run.run state = (.error error, after) := by
  rw [ExceptT.run_bind, StateT.run_bind, h]
  rfl

/-- A success goes on from the state that it left. -/
theorem run_bind_of_ok {action : ExceptT ε (StateM σ) α} {next : α → ExceptT ε (StateM σ) β}
    {state after : σ} {a : α} (h : action.run.run state = (.ok a, after))
    : (action >>= next).run.run state = (next a).run.run after := by
  rw [ExceptT.run_bind, StateT.run_bind, h]
  rfl

/-- One call of a step: the node, the results of its children and what came of it. -/
structure Call (ε ρ : Type u) where
  node : Tree
  results : List ρ
  outcome : Except ε ρ

/-- A step that also writes down its calls, in their order. -/
def recorded (step : Tree → List ρ → ExceptT ε (StateM σ) ρ) (tree : Tree) (results : List ρ)
    : ExceptT ε (StateM (σ × List (Call ε ρ))) ρ :=
  ExceptT.mk fun (state, calls) =>
    let (outcome, after) := (step tree results).run.run state
    pure (outcome, (after, calls ++ [⟨tree, results, outcome⟩]))

/-- A tree that has been combined, with the calls on its nodes and its result. -/
structure Combined (ε ρ : Type u) where
  tree : Tree
  calls : List (Call ε ρ)
  result : ρ

/-- How the calls on a tree follow each other.  Those on its children come first, child by child,
and one on the tree itself with their results comes last, unless a child has failed. -/
inductive Run : Tree → List (Call ε ρ) → Except ε ρ → Prop where
  | combined {tree : Tree} {below : List (Combined ε ρ)} {outcome : Except ε ρ}
    (hchildren : tree.children = below.map Combined.tree)
    (hbelow : ∀ part ∈ below, Run part.tree part.calls (.ok part.result))
    : Run tree
        (below.flatMap Combined.calls ++ [⟨tree, below.map Combined.result, outcome⟩]) outcome
  | failed {tree child : Tree} {below : List (Combined ε ρ)} {rest : List Tree}
    {calls : List (Call ε ρ)} {error : ε}
    (hchildren : tree.children = below.map Combined.tree ++ child :: rest)
    (hbelow : ∀ part ∈ below, Run part.tree part.calls (.ok part.result))
    (hchild : Run child calls (.error error))
    : Run tree (below.flatMap Combined.calls ++ calls) (.error error)

/-- How the calls on trees that stand side by side follow each other. -/
def RunAll (trees : List Tree) (calls : List (Call ε ρ)) : Except ε (List ρ) → Prop
  | .ok results =>
      ∃ below : List (Combined ε ρ),
        trees = below.map Combined.tree
        ∧ calls = below.flatMap Combined.calls
        ∧ results = below.map Combined.result
        ∧ ∀ part ∈ below, Run part.tree part.calls (.ok part.result)
  | .error error =>
      ∃ (below : List (Combined ε ρ)) (child : Tree) (rest : List Tree)
        (last : List (Call ε ρ)),
        trees = below.map Combined.tree ++ child :: rest
        ∧ calls = below.flatMap Combined.calls ++ last
        ∧ (∀ part ∈ below, Run part.tree part.calls (.ok part.result))
        ∧ Run child last (.error error)

/-- A run over trees side by side begins with that of the first, if it succeeds. -/
theorem RunAll.cons {tree : Tree} {trees : List Tree} {calls more : List (Call ε ρ)} {result : ρ}
    {outcome : Except ε (List ρ)} (hfirst : Run tree calls (.ok result))
    (hrest : RunAll trees more outcome)
    : RunAll (tree :: trees) (calls ++ more) (outcome.map (result :: ·)) := by
  cases outcome with
  | ok results =>
      obtain ⟨below, rfl, rfl, rfl, hbelow⟩ := hrest
      exact ⟨⟨tree, calls, result⟩ :: below, rfl, rfl, rfl,
        List.forall_mem_cons.2 ⟨hfirst, hbelow⟩⟩
  | error error =>
      obtain ⟨below, child, rest, last, rfl, rfl, hbelow, hchild⟩ := hrest
      exact ⟨⟨tree, calls, result⟩ :: below, child, rest, last, rfl, by simp,
        List.forall_mem_cons.2 ⟨hfirst, hbelow⟩, hchild⟩

mutual
/-- Recording shows the calls of a run and changes nothing else.  By induction on the tree: the
children come first, and the step on the root only if none of them failed. -/
theorem exists_run (step : Tree → List ρ → ExceptT ε (StateM σ) ρ) (tree : Tree) (state : σ)
    (before : List (Call ε ρ))
    : ∃ calls outcome after,
        (tree.foldM step).run.run state = (outcome, after)
        ∧ (tree.foldM (recorded step)).run.run (state, before)
          = (outcome, (after, before ++ calls))
        ∧ Run tree calls outcome := by
  cases tree with
  | node label start stop children =>
      obtain ⟨calls, outcome, middle, hplain, hrecorded, hbelow⟩ :=
        exists_runAll step children state before
      simp only [foldM]
      cases outcome with
      | error error =>
          obtain ⟨below, child, rest, last, hchildren, rfl, hbelow, hchild⟩ := hbelow
          exact ⟨_, .error error, middle, run_bind_of_error hplain, run_bind_of_error hrecorded,
            .failed hchildren hbelow hchild⟩
      | ok results =>
          obtain ⟨below, hchildren, rfl, rfl, hbelow⟩ := hbelow
          rw [run_bind_of_ok hplain, run_bind_of_ok hrecorded]
          refine ⟨_, _, _, rfl, ?_, .combined hchildren hbelow⟩
          rw [← List.append_assoc]
          rfl
termination_by sizeOf tree

/-- Every fold over trees side by side is a run: its calls are recorded in order, and it ends with
the first failure. -/
theorem exists_runAll (step : Tree → List ρ → ExceptT ε (StateM σ) ρ) (trees : List Tree)
    (state : σ) (before : List (Call ε ρ))
    : ∃ calls outcome after,
        (foldAllM step trees).run.run state = (outcome, after)
        ∧ (foldAllM (recorded step) trees).run.run (state, before)
          = (outcome, (after, before ++ calls))
        ∧ RunAll trees calls outcome := by
  cases trees with
  | nil =>
      refine ⟨[], .ok [], state, rfl, ?_, [], rfl, rfl, rfl, List.forall_mem_nil _⟩
      rw [List.append_nil]
      rfl
  | cons tree trees =>
      obtain ⟨calls, outcome, middle, hplain, hrecorded, hrun⟩ := exists_run step tree state before
      simp only [foldAllM]
      cases outcome with
      | error error =>
          exact ⟨calls, .error error, middle, run_bind_of_error hplain,
            run_bind_of_error hrecorded, [], tree, trees, calls, rfl, rfl, List.forall_mem_nil _,
            hrun⟩
      | ok result =>
          obtain ⟨more, outcome, after, hplainAll, hrecordedAll, hrunAll⟩ :=
            exists_runAll step trees middle (before ++ calls)
          rw [List.append_assoc] at hrecordedAll
          rw [run_bind_of_ok hplain, run_bind_of_ok hrecorded]
          refine ⟨calls ++ more, outcome.map (result :: ·), after, ?_, ?_, RunAll.cons hrun hrunAll⟩
          · cases outcome with
            | error _ => exact run_bind_of_error hplainAll
            | ok _ => exact run_bind_of_ok hplainAll
          · cases outcome with
            | error _ => exact run_bind_of_error hrecordedAll
            | ok _ => exact run_bind_of_ok hrecordedAll
termination_by sizeOf trees
end

-----------------------------------------------------------------------------------------
-- What the calls have in common
-----------------------------------------------------------------------------------------

/-- The calls go along the nodes in post-order, to the last one unless a child has failed.  By
induction on the run: the calls on a child that failed are the last ones. -/
theorem Run.visits {tree : Tree} {calls : List (Call ε ρ)} {outcome : Except ε ρ}
    (h : Run tree calls outcome)
    : calls.map Call.node <+: tree.postOrder
      ∧ ∀ result, outcome = .ok result → calls.map Call.node = tree.postOrder := by
  induction h with
  | @combined tree below outcome hchildren _ ih =>
      have hparts : ∀ part ∈ below, part.calls.map Call.node = part.tree.postOrder :=
        fun part hpart => (ih part hpart).2 _ rfl
      have hall
          : (below.flatMap Combined.calls).map Call.node = tree.children.flatMap postOrder := by
        rw [List.map_flatMap, hchildren, List.flatMap_map]
        exact List.flatMap_congr hparts
      rw [List.map_append, hall, postOrder_eq]
      exact ⟨List.prefix_rfl, fun _ _ => rfl⟩
  | @failed tree child below rest calls error hchildren _ _ ih ihChild =>
      have hparts : ∀ part ∈ below, part.calls.map Call.node = part.tree.postOrder :=
        fun part hpart => (ih part hpart).2 _ rfl
      have hall
          : (below.flatMap Combined.calls).map Call.node
            = (below.map Combined.tree).flatMap postOrder := by
        rw [List.map_flatMap, List.flatMap_map]
        exact List.flatMap_congr hparts
      refine ⟨?_, nofun⟩
      rw [List.map_append, hall, postOrder_eq, hchildren, List.flatMap_append, List.flatMap_cons,
        List.append_assoc, List.append_assoc, List.prefix_append_right_inj]
      exact ihChild.1.trans (List.prefix_append _ _)

/-- The last call decides, and all calls before it have succeeded.  By induction on the run: it is
the call on the root or the last one on the child that failed. -/
theorem Run.exists_last {tree : Tree} {calls : List (Call ε ρ)} {outcome : Except ε ρ}
    (h : Run tree calls outcome)
    : ∃ earlier last,
        calls = earlier ++ [last]
        ∧ last.outcome = outcome
        ∧ ∀ call ∈ earlier, ∃ result, call.outcome = .ok result := by
  have hpart : ∀ part : Combined ε ρ,
      (∃ earlier last,
        part.calls = earlier ++ [last]
        ∧ last.outcome = .ok part.result
        ∧ ∀ call ∈ earlier, ∃ result, call.outcome = .ok result)
      → ∀ call ∈ part.calls, ∃ result, call.outcome = .ok result := by
    rintro part ⟨earlier, last, hcalls, hlast, hearlier⟩
    rw [hcalls, List.forall_mem_append, List.forall_mem_singleton]
    exact ⟨hearlier, _, hlast⟩
  induction h with
  | combined _ _ ih =>
      exact ⟨_, _, rfl, rfl, List.forall_mem_flatMap.2 fun part hmem => hpart part (ih part hmem)⟩
  | failed _ _ _ ih ihChild =>
      obtain ⟨earlier, last, rfl, hlast, hearlier⟩ := ihChild
      refine ⟨_, last, (List.append_assoc ..).symm, hlast, ?_⟩
      rw [List.forall_mem_append, List.forall_mem_flatMap]
      exact ⟨fun part hmem => hpart part (ih part hmem), hearlier⟩

/-- The calls that end right before a call are those on the trees below its node, one tree after the
other, and the results that it is given are what came of their last calls. -/
def Call.IsSupplied (call : Call ε ρ) (before : List (Call ε ρ)) : Prop :=
  ∃ below : List (Combined ε ρ),
    below.flatMap Combined.calls <:+ before
    ∧ call.node.children = below.map Combined.tree
    ∧ call.results = below.map Combined.result
    ∧ ∀ part ∈ below,
      part.calls.map Call.node = part.tree.postOrder
      ∧ part.calls.getLast?.map Call.outcome = some (.ok part.result)

/-- Holds of calls that are all given the results of the children. -/
def Supplied (calls : List (Call ε ρ)) : Prop :=
  ∀ before call after, calls = before ++ call :: after → call.IsSupplied before

/-- A call stays supplied if there were further calls before. -/
theorem Call.IsSupplied.mono {call : Call ε ρ} {before : List (Call ε ρ)}
    (h : call.IsSupplied before) (earlier : List (Call ε ρ))
    : call.IsSupplied (earlier ++ before) := by
  obtain ⟨below, hsuffix, hbelow⟩ := h
  exact ⟨below, hsuffix.trans (List.suffix_append _ _), hbelow⟩

/-- Calls that are supplied stay so behind others that are. -/
theorem Supplied.append {first second : List (Call ε ρ)} (hfirst : Supplied first)
    (hsecond : Supplied second)
    : Supplied (first ++ second) := by
  intro before call after h
  rcases List.append_eq_append_iff.1 h with ⟨middle, rfl, hmiddle⟩ | ⟨middle, rfl, hmiddle⟩
  · exact (hsecond middle call after hmiddle).mono first
  · cases middle with
    | nil =>
        have hfront := (hsecond [] call after hmiddle.symm).mono before
        rwa [List.append_nil] at hfront
    | cons other middle =>
        obtain ⟨rfl, rfl⟩ := List.cons.inj hmiddle
        exact hfirst before call middle rfl

/-- One more call that is supplied by those before it leaves all supplied. -/
theorem Supplied.concat {calls : List (Call ε ρ)} (h : Supplied calls) {last : Call ε ρ}
    (hlast : last.IsSupplied calls)
    : Supplied (calls ++ [last]) := by
  intro before call after hcalls
  rcases List.eq_nil_or_concat after with rfl | ⟨after, other, rfl⟩
  · obtain ⟨rfl, heq⟩ := List.append_inj' hcalls rfl
    obtain rfl := List.singleton_inj.1 heq
    exact hlast
  · rw [List.concat_eq_append, ← List.cons_append, ← List.append_assoc] at hcalls
    exact h before call after (List.append_inj' hcalls rfl).1

/-- The calls of combined trees are supplied side by side if those of each are, by induction on the
list. -/
theorem Supplied.flatMap {below : List (Combined ε ρ)}
    (h : ∀ part ∈ below, Supplied part.calls)
    : Supplied (below.flatMap Combined.calls) := by
  induction below with
  | nil =>
      intro before call after hcalls
      simp at hcalls
  | cons part below ih =>
      obtain ⟨hpart, hbelow⟩ := List.forall_mem_cons.1 h
      exact hpart.append (ih hbelow)

/-- Every call of a run is given the results of the calls for the children of its node, by induction
on the run. -/
theorem Run.supplied {tree : Tree} {calls : List (Call ε ρ)} {outcome : Except ε ρ}
    (h : Run tree calls outcome)
    : Supplied calls := by
  induction h with
  | combined hchildren hbelow ih =>
      refine (Supplied.flatMap ih).concat
        ⟨_, List.suffix_rfl, hchildren, rfl, fun part hmem => ?_⟩
      obtain ⟨earlier, last, hcalls, hlast, -⟩ := (hbelow part hmem).exists_last
      exact ⟨(hbelow part hmem).visits.2 _ rfl, by simp [hcalls, hlast]⟩
  | failed _ _ _ ih ihChild => exact (Supplied.flatMap ih).append ihChild

end Calls

-----------------------------------------------------------------------------------------
-- The run over the list
-----------------------------------------------------------------------------------------

/-- Combining a tree calls the step on its nodes in post-order, each with what came of the calls on
its children, and ends with the first call that fails or else with the call on the root.  The state
and the outcome are those of a left fold over the nodes that keeps a stack of results, and without
failures this is so of every fold. -/
theorem foldM_calls_postOrder {σ ε ρ : Type u} (tree : Tree) (state : σ)
    : tree.postOrder.Perm tree.nodes
      ∧ (∀ step : Tree → List ρ → ExceptT ε (StateM σ) ρ,
          (∃ calls outcome after,
            (tree.foldM step).run.run state = (outcome, after)
            ∧ (tree.foldM (recorded step)).run.run (state, []) = (outcome, (after, calls))
            ∧ calls.map Call.node <+: tree.postOrder
            ∧ Supplied calls
            ∧ (∃ earlier last,
                calls = earlier ++ [last]
                ∧ last.outcome = outcome
                ∧ ∀ call ∈ earlier, ∃ result, call.outcome = .ok result)
            ∧ ∀ result, outcome = .ok result → calls.map Call.node = tree.postOrder)
          ∧ tree.postOrder.foldlM (stackStep step) []
            = tree.foldM step >>= fun result => pure [result])
      ∧ (∀ closure : Tree → List ρ → StateM σ ρ,
          tree.postOrder.foldl (fun pair node => (stackStep closure pair.1 node).run pair.2)
              ([], state)
            = ([((tree.foldM closure).run state).1], ((tree.foldM closure).run state).2))
      ∧ ∀ combine : Tree → List ρ → ρ,
          (tree.foldM fun node results => (pure (combine node results) : StateM σ ρ))
            = pure (tree.fold combine) := by
  refine ⟨tree.postOrder_perm_nodes, fun step => ⟨?_, foldlM_postOrder step tree []⟩,
    fun closure => ?_, fun combine => foldM_pure combine tree⟩
  · obtain ⟨calls, outcome, after, hplain, hrecorded, hrun⟩ := exists_run step tree state []
    exact ⟨calls, outcome, after, hplain, hrecorded, hrun.visits.1, hrun.supplied,
      hrun.exists_last, hrun.visits.2⟩
  · have hrun := run_foldlM (stackStep closure) tree.postOrder [] state
    rw [foldlM_postOrder, StateT.run_bind] at hrun
    exact hrun.symm

/-- Counting the leaves of `a*b` fails at the sign when signs are barred.  The two calls up to there
are all there are, so neither the leaf behind the sign nor the root is visited. -/
theorem foldM_calls_postOrder_barred
    : let first := leaf (.terminal .name) 0
      let sign := leaf (.terminal .mulOp) 1
      let tree := node (.nonterminal 0) 0 3 [first, sign, leaf (.terminal .name) 2]
      let step := countStep #[⟨.name, "a"⟩, ⟨.mulOp, "*"⟩, ⟨.name, "b"⟩] (some .mulOp)
      ∃ calls after,
        (tree.foldM (recorded step)).run.run (#[], []) = (.error 1, (after, calls))
        ∧ Supplied calls
        ∧ calls.map Call.node = [first, sign] := by
  intro first sign tree step
  obtain ⟨calls, outcome, after, -, hrecorded, -, hsupplied, -, -⟩ :=
    ((foldM_calls_postOrder tree #[]).2.1 step).1
  have houtcome : outcome = .error 1 := congrArg Prod.fst hrecorded.symm
  have hcalls : calls.map Call.node = [first, sign] :=
    congrArg (fun pair => pair.2.2.map Call.node) hrecorded.symm
  exact ⟨calls, after, houtcome ▸ hrecorded, hsupplied, hcalls⟩

end Formulary.Tree
