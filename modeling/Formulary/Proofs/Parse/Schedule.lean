import Formulary.Parse.Forest
import Formulary.Proofs.Parse.Forest

/-! Taking trees from several forests in any order.
Whatever is asked of the others in between, a forest delivers the trees of its own span from the
first one on, as many as it is asked for while there are any, and none once it has run out.
-/

namespace Formulary

-----------------------------------------------------------------------------------------
-- One forest
-----------------------------------------------------------------------------------------

namespace LazySeq

/-- Splitting a lazy sequence gives its first members and what is left of it, by induction on how
many are taken. -/
theorem splitAt_eq (count : Nat) (members : Thunk (LazySeq α))
    : (splitAt count members).1 = members.get.toList.take count
      ∧ (splitAt count members).2.get.toList = members.get.toList.drop count := by
  induction count generalizing members with
  | zero => simp [splitAt]
  | succ count ih =>
      rw [splitAt]
      cases members.get with
      | nil => simp [Thunk.get]
      | cons head tail => simpa using ih tail

end LazySeq

/-- A way to ask a forest for trees. -/
inductive Pull where
  | next
  | take (count : Nat)
  | drain

namespace Pull

/-- The trees that come and the forest that is left. -/
def apply : Pull → Forest → List Tree × Forest
  | next, forest => (forest.next.1.toList, forest.next.2)
  | take count, forest => forest.take count
  | drain, forest => forest.drain

/-- How many trees are asked for, where all of them are so many. -/
def amount (total : Nat) : Pull → Nat
  | next => 1
  | take count => count
  | drain => total

/-- A forest hands out its first trees and keeps the others.  Asking for the next tree or for a
number of them leaves the others, and asking for all leaves none. -/
theorem apply_eq (pull : Pull) {forest : Forest} {total : Nat} (h : forest.toList.length ≤ total)
    : (pull.apply forest).1 = forest.toList.take (pull.amount total)
      ∧ (pull.apply forest).2.toList = forest.toList.drop (pull.amount total) := by
  cases pull with
  | next =>
      rw [apply, amount]
      cases hnext : forest.next with
      | mk head rest =>
          cases head with
          | none =>
              have hrest : rest.toList = [] := by
                unfold Forest.next at hnext
                split at hnext
                · obtain rfl := (Prod.mk.inj hnext).2
                  simp [Forest.toList, Forest.empty, Thunk.get]
                · simp at hnext
              simp [Forest.toList_of_next_none hnext, hrest]
          | some tree => simp [Forest.toList_of_next_some hnext]
  | take count => exact LazySeq.splitAt_eq count forest.pending
  | drain =>
      rw [amount, List.take_of_length_le h, List.drop_of_length_le h]
      simp [apply, Forest.drain, Forest.toList, Forest.empty, Thunk.get]

end Pull

-----------------------------------------------------------------------------------------
-- Several forests
-----------------------------------------------------------------------------------------

namespace Pool

/-- A forest that was just put into the pool is found under its name. -/
@[simp]
theorem get_set_self (pool : Pool) (name : String) (forest : Forest)
    : (pool.set name forest).get name = forest := by
  simp [get, set]

/-- Putting a forest into the pool leaves those under other names. -/
@[simp]
theorem get_set_of_ne (pool : Pool) {name other : String} (h : name ≠ other) (forest : Forest)
    : (pool.set other forest).get name = pool.get name := by
  have hentry : (name == other) = false := by simpa using h
  simp only [get, set, List.lookup_cons, hentry]
  congr 1
  -- Only entries under the other name are removed.
  induction pool.entries with
  | nil => rfl
  | cons entry entries ih =>
      obtain ⟨key, kept⟩ := entry
      by_cases hkey : key = other
      · simpa [hkey, List.lookup_cons, hentry] using ih
      · simp [hkey, List.lookup_cons, ih]

/-- A step of a schedule: a forest is put under a name, or the one there is asked for trees. -/
inductive Step where
  | opens (name : String) (forest : Forest)
  | asks (name : String) (pull : Pull)

namespace Step

def name : Step → String
  | opens name _ => name
  | asks name _ => name

/-- How many trees the step asks of the forest under a name. -/
def amount (name : String) (total : Nat) : Step → Nat
  | opens _ _ => 0
  | asks other pull => if other = name then pull.amount total else 0

end Step

/-- The trees that a step brings, and the forests after it. -/
def perform (pool : Pool) : Step → List Tree × Pool
  | .opens name forest => ([], pool.set name forest)
  | .asks name pull => pool.step name pull.apply

/-- The operations of a pool are such steps; two of them only count the trees that come. -/
theorem operations_eq_perform (pool : Pool) (name : String) (count : Nat)
    : pool.perform (.asks name .next) = ((pool.next name).1.toList, (pool.next name).2)
      ∧ pool.skip name count
        = Prod.map List.length id (pool.perform (.asks name (.take count)))
      ∧ pool.count name = Prod.map List.length id (pool.perform (.asks name .drain)) :=
  ⟨rfl, rfl, rfl⟩

/-- What the steps of a schedule that go to a name bring, one after the other. -/
def answers (name : String) : Pool → List Step → List (List Tree)
  | _, [] => []
  | pool, step :: steps =>
      let rest := answers name (pool.perform step).2 steps
      if step.name = name then (pool.perform step).1 :: rest else rest

/-- How many trees a schedule asks of the forest under a name. -/
def asked (name : String) (total : Nat) : List Step → Nat
  | [] => 0
  | step :: steps => step.amount name total + asked name total steps

/-- A step changes no forest under another name. -/
theorem get_perform_of_ne (pool : Pool) {name : String} {step : Step} (h : step.name ≠ name)
    : (pool.perform step).2.get name = pool.get name := by
  cases step with
  | opens other forest => exact get_set_of_ne pool (Ne.symm h) forest
  | asks other pull => exact get_set_of_ne pool (Ne.symm h) _

/-- What a step brings and leaves under its name depends on the forest there alone. -/
theorem perform_congr {pool other : Pool} {step : Step}
    (h : pool.get step.name = other.get step.name)
    : (pool.perform step).1 = (other.perform step).1
      ∧ (pool.perform step).2.get step.name = (other.perform step).2.get step.name := by
  cases step with
  | opens name forest => simp [perform, Step.name]
  | asks name pull =>
      rw [Step.name] at h
      simp [perform, Pool.step, Step.name, h]

/-- The answers under a name depend on the forest there and the steps that go to it alone. -/
theorem answers_filter {name : String} {pool other : Pool} (h : pool.get name = other.get name)
    (steps : List Step)
    : pool.answers name steps = other.answers name (steps.filter fun step => step.name = name) := by
  induction steps generalizing pool other with
  | nil => rfl
  | cons step steps ih =>
      by_cases hname : step.name = name
      · subst hname
        obtain ⟨htrees, hrest⟩ := perform_congr h
        simp [answers, htrees, ih hrest]
      · have hrest := (pool.get_perform_of_ne hname).trans h
        simp [answers, hname, ih hrest]

/-- A forest that is asked hands out its first trees and keeps the others. -/
theorem perform_asks (pool : Pool) (name : String) (pull : Pull) {total : Nat}
    (h : (pool.get name).toList.length ≤ total)
    : (pool.perform (.asks name pull)).1 = (pool.get name).toList.take (pull.amount total)
      ∧ ((pool.perform (.asks name pull)).2.get name).toList
        = (pool.get name).toList.drop (pull.amount total) := by
  simpa [perform, step] using pull.apply_eq h

/-- The trees under a name come in their order, as many as were asked for.  What is asked of other
names plays no part, by induction on the steps. -/
theorem flatten_answers (pool : Pool) {name : String} {total : Nat} {steps : List Step}
    (hkept : ∀ forest, .opens name forest ∉ steps) (h : (pool.get name).toList.length ≤ total)
    : (pool.answers name steps).flatten
      = (pool.get name).toList.take (asked name total steps) := by
  -- The bound carries the induction: what is left is no longer than what was there.
  induction steps generalizing pool with
  | nil => simp [answers, asked]
  | cons step steps ih =>
      have hkeeps : ∀ forest, .opens name forest ∉ steps :=
        fun forest hmem => hkept forest (List.mem_cons_of_mem _ hmem)
      by_cases hname : step.name = name
      · cases step with
        | opens other forest =>
            have hopens : other = name := hname
            exact (hkept forest (hopens ▸ List.mem_cons_self)).elim
        | asks other pull =>
            obtain rfl : other = name := hname
            have hasks : (Step.asks other pull).name = other := rfl
            obtain ⟨hfirst, hrest⟩ := pool.perform_asks other pull h
            have hlength
                : ((pool.perform (.asks other pull)).2.get other).toList.length ≤ total := by
              rw [hrest, List.length_drop]
              omega
            rw [answers, if_pos hasks, List.flatten_cons, ih _ hkeeps hlength, hfirst, hrest,
              asked, Step.amount, if_pos rfl, List.take_add]
      · have hrest := pool.get_perform_of_ne hname
        have hnone : step.amount name total = 0 := by
          cases step with
          | opens other forest => rfl
          | asks other pull => exact if_neg hname
        rw [answers, if_neg hname, ih _ hkeeps (hrest ▸ h), hrest, asked, hnone, Nat.zero_add]

/-- Where a name has no tree now, it has none later. -/
theorem answers_eq_nil_of_next {name : String} {pool : Pool} (h : (pool.next name).1 = none)
    {steps : List Step} (hkept : ∀ forest, .opens name forest ∉ steps)
    : ∀ trees ∈ (pool.next name).2.answers name steps, trees = [] := by
  have hnone : ((pool.next name).2.get name).toList = [] := by
    have htrees : (pool.get name).toList = [] :=
      Forest.toList_of_next_none (Prod.ext h rfl)
    have hrest := (pool.perform_asks name .next (Nat.le_refl _)).2
    rwa [(pool.operations_eq_perform name 0).1, htrees, List.drop_nil] at hrest
  have hflatten := (pool.next name).2.flatten_answers hkept (Nat.le_refl _)
  rw [hnone, List.take_nil] at hflatten
  exact List.flatten_eq_nil_iff.1 hflatten

end Pool

-----------------------------------------------------------------------------------------
-- Forests of spans
-----------------------------------------------------------------------------------------

namespace Parse

open Pool

/-- Opening a forest fails for a span that is turned around or ends behind the tokens, with this
error, and for no other reason. -/
theorem forest_eq_error_iff {grammar : Grammar} {tokens : Array Token} {start stop : Nat}
    {label : Symbol Nat} {failure : ParseError}
    : forest grammar tokens start stop label = .error failure
      ↔ (stop < start ∨ tokens.size < stop)
        ∧ failure = .invalidSpan start stop tokens.size := by
  rw [forest]
  by_cases hspan : stop < start ∨ tokens.size < stop
  · rw [checkSpan_eq_error hspan]
    simp [hspan, eq_comm, bind, Except.bind]
  · have hwithin := not_or.1 hspan
    rw [checkSpan_eq_ok (Nat.le_of_not_lt hwithin.1) (Nat.le_of_not_lt hwithin.2)]
    simp [hspan, bind, Except.bind, pure, Except.pure]

/-- A forest put under a name at any time delivers a first part of the plain enumeration of its
span, whatever is asked of the others, and no tree after it had none; a span has a forest unless
it ends before it starts or after the tokens, and its first tree is the first of all. -/
theorem schedule_delivers_enumeration (grammar : Grammar) (tokens : Array Token)
    (start stop : Nat) (label : Symbol Nat)
    : (∀ failure,
        forest grammar tokens start stop label = .error failure
        ↔ (stop < start ∨ tokens.size < stop)
          ∧ failure = .invalidSpan start stop tokens.size)
      ∧ (start ≤ stop → stop ≤ tokens.size →
          let whole := enumeration grammar (tokens.map Token.tag) start stop label
          (∃ found,
            forest grammar tokens start stop label = .ok found
            ∧ ∀ (pool : Pool) (name : String) (steps : List Step),
                (∀ other, .opens name other ∉ steps) →
                ((pool.set name found).answers name steps).flatten
                  = whole.take (asked name whole.length steps))
          ∧ ((whole = []
              ∧ first grammar tokens start stop label
                = .error (noParse grammar tokens start stop label)
              ∧ all grammar tokens start stop label
                = .error (noParse grammar tokens start stop label))
            ∨ ∃ tree trees,
                whole = tree :: trees
                ∧ first grammar tokens start stop label = .ok tree
                ∧ all grammar tokens start stop label = .ok whole))
      ∧ (∀ (pool : Pool) (name : String) (steps : List Step),
          pool.answers name steps
          = pool.answers name (steps.filter fun step => step.name = name))
      ∧ (∀ (pool : Pool) (name : String) (steps : List Step),
          (pool.next name).1 = none →
          (∀ other, .opens name other ∉ steps) →
          ∀ trees ∈ (pool.next name).2.answers name steps, trees = []) := by
  refine ⟨fun _ => forest_eq_error_iff, fun hspan htokens => ?_,
    fun pool name steps => answers_filter rfl steps,
    fun pool name steps hnone hkept => answers_eq_nil_of_next hnone hkept⟩
  obtain ⟨found, hfound, htrees⟩ := exists_forest grammar tokens hspan htokens label
  rw [← htrees]
  refine ⟨⟨found, hfound, fun pool name steps hkept => ?_⟩, ?_⟩
  · have hget : ((pool.set name found).get name).toList = found.toList := by
      rw [get_set_self]
    rw [Pool.flatten_answers _ hkept (Nat.le_of_eq (congrArg _ hget)), hget]
  · obtain hempty | ⟨tree, trees, hcons, hfirst, hall⟩ := first_and_all hfound
    · exact .inl hempty
    · exact .inr ⟨tree, trees, hcons, hfirst, hcons ▸ hall⟩

/-- Two names take turns, one for the sum of two names and one that was never opened. -/
theorem schedule_delivers_enumeration_sum
    : 0 ≤ 3
      ∧ 3 ≤ #[Token.mk .name "a", .mk .addOp "+", .mk .name "b"].size
      ∧ (∀ other, .opens "left" other
          ∉ [Step.asks "right" .next, .asks "left" .next, .asks "right" .drain,
            .asks "left" (.take 2)])
      ∧ (∃ found,
          forest .arithmetic #[.mk .name "a", .mk .addOp "+", .mk .name "b"] 0 3 (.nonterminal 0)
            = .ok found
          ∧ (((Pool.empty.set "left" found).answers "left"
                [.asks "right" .next, .asks "left" .next, .asks "right" .drain,
                  .asks "left" (.take 2)]).flatten
              = (enumeration .arithmetic #[.name, .addOp, .name] 0 3 (.nonterminal 0)).take 3))
      ∧ (Pool.empty.next "left").1 = none
      ∧ ∀ trees ∈ (Pool.empty.next "left").2.answers "left"
          [.asks "right" .next, .asks "left" .next, .asks "right" .drain, .asks "left" (.take 2)],
          trees = [] := by
  have hkept
      : ∀ other, .opens "left" other
        ∉ [Step.asks "right" .next, .asks "left" .next, .asks "right" .drain,
          .asks "left" (.take 2)] := by simp
  obtain ⟨-, hspan, -, hnone⟩ :=
    schedule_delivers_enumeration .arithmetic #[.mk .name "a", .mk .addOp "+", .mk .name "b"] 0 3
      (.nonterminal 0)
  obtain ⟨⟨found, hfound, hdelivers⟩, -⟩ := hspan (by decide) (by decide)
  refine ⟨by decide, by decide, hkept, ⟨found, hfound, ?_⟩, rfl, hnone _ _ _ rfl hkept⟩
  simpa [asked, Step.amount, Pull.amount] using hdelivers .empty "left" _ hkept

end Parse

end Formulary
