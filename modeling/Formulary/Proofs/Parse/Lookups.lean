import Formulary.Proofs.Grammar.Catalog

/-! The search for trees over the tables of a grammar.
Each step reads the edge sets and the rules of its symbol from the tables, with an index that no
one has checked.  As long as the search begins with a symbol of the grammar, it comes to symbols of
the rules only, so it reads no entry that is not there and does the same as the search that knows
the rules.
-/

namespace Formulary.Catalog

open Formulary.Parse

variable {catalog : Catalog} {grammar : Grammar}

-----------------------------------------------------------------------------------------
-- What the search reads from the tables
-----------------------------------------------------------------------------------------

/-- What the tables say of a symbol, read with an index that no one has checked. -/
def lookups (catalog : Catalog) : Lookups (Checked SearchFault) where
  firstTags symbol := monadLift (catalog.firstTags symbol)
  lastTags symbol := monadLift (catalog.lastTags symbol)
  alternatives a := do
    let rules ← catalog.rulesFor a
    pure (rules.map Rule.body)

/-- The search over the tables. -/
def search (catalog : Catalog) (tags : Array Tag) (depth : Nat) : Search (Checked SearchFault) :=
  searchWith catalog.lookups tags depth

/-- Every tree of a label over a span of the tokens, or why there is none.  The name of the label
is read in both cases, as the number of trees is reported with it too. -/
def all (catalog : Catalog) (tokens : Array Token) (depth start stop : Nat) (label : Symbol Nat)
    : Checked SearchFault (Except ParseError (List Tree)) :=
  match checkSpan tokens start stop with
  | .error failure => pure (.error failure)
  | .ok _ => do
      let trees ← catalog.search (tokens.map Token.tag) depth start stop label
      let name ← catalog.symbolName label
      pure (someOf (noParseOf name tokens start stop) trees)

section Known

variable (hdescribes : catalog.Describes grammar) (hconsistent : catalog.Consistent)

include hdescribes hconsistent

/-- The catalog serves the first categories of a symbol of the grammar, without fault. -/
theorem firstTags_lookups {symbol : Symbol Nat} (hsymbol : grammar.Knows symbol)
    : catalog.lookups.firstTags symbol = pure (grammar.firstTags symbol) := by
  simp only [lookups, firstTags_eq hdescribes hconsistent hsymbol]
  rfl

/-- The catalog serves the last categories of a symbol of the grammar, without fault. -/
theorem lastTags_lookups {symbol : Symbol Nat} (hsymbol : grammar.Knows symbol)
    : catalog.lookups.lastTags symbol = pure (grammar.lastTags symbol) := by
  simp only [lookups, lastTags_eq hdescribes hconsistent hsymbol]
  rfl

/-- The catalog serves the right sides of a nonterminal of the grammar, without fault and in their
order. -/
theorem alternatives_lookups {a : Nat} (ha : grammar.Knows (.nonterminal a))
    : catalog.lookups.alternatives a = pure (grammar.alternatives a) := by
  obtain ⟨rules, hrules, hbodies⟩ := exists_rulesFor hdescribes hconsistent ha
  simp only [lookups, hrules, ← hbodies]
  rfl

end Known

-----------------------------------------------------------------------------------------
-- The search over the tables is the search that knows the rules
-----------------------------------------------------------------------------------------

variable {tags : Array Tag} {below : Search (Checked SearchFault)}
  {plain : Search (Except SearchFault)}

/-- On symbols of the grammar the search over the tables does what the other search does. -/
def Follows (grammar : Grammar) (below : Search (Checked SearchFault))
    (plain : Search (Except SearchFault)) : Prop :=
  ∀ start stop label,
    grammar.Knows label → below start stop label = monadLift (plain start stop label)

/-- Asking for a token reads no table. -/
theorem readTag_eq_monadLift (tags : Array Tag) (position : Nat)
    : (readTag tags position : Checked SearchFault Tag)
      = monadLift (readTag tags position : Except SearchFault Tag) := by
  rw [readTag, readTag]
  cases tags[position]? <;> rfl

/-- A choice that does not depend on the tables can be made before the result is lifted or after. -/
theorem monadLift_ite {ε α : Type} (p : Prop) [Decidable p] (yes no : Except ε α)
    : (monadLift (if p then yes else no) : Checked ε α)
      = if p then monadLift yes else monadLift no :=
  apply_ite _ p yes no

/-- Steps that read no table on any item read none one after the other. -/
theorem mapM_eq_monadLift {ε α β : Type} {f : α → Checked ε β} {g : α → Except ε β}
    {items : List α} (h : ∀ a ∈ items, f a = monadLift (g a))
    : items.mapM f = monadLift (items.mapM g) := by
  induction items with
  | nil => rfl
  | cons a items ih =>
      obtain ⟨ha, hitems⟩ := List.forall_mem_cons.1 h
      simp only [List.mapM_cons, ha, ih hitems, monadLift_bind, monadLift_pure]

section Steps

variable (hdescribes : catalog.Describes grammar) (hconsistent : catalog.Consistent)
  (hbelow : Follows grammar below plain)

include hdescribes hconsistent hbelow

/-- A split at one place is searched over the catalog as over the grammar, if the searches below
are. -/
theorem searchSplit_eq {left right : Symbol Nat} (hleft : grammar.Knows left)
    (hright : grammar.Knows right) (start stop : Nat) (label : Symbol Nat) (middle : Nat)
    : searchSplit catalog.lookups tags below start stop label left right middle
      = monadLift
        (searchSplit (lookupsOf grammar) tags plain start stop label left right middle) := by
  simp only [searchSplit, lastTags_lookups hdescribes hconsistent hleft,
    firstTags_lookups hdescribes hconsistent hright, hbelow _ _ _ hleft, hbelow _ _ _ hright,
    lastTags_lookupsOf, firstTags_lookupsOf, readTag_eq_monadLift, monadLift_bind, pure_bind,
    monadLift_ite, monadLift_pure]

/-- A right side of symbols of the grammar is searched over the catalog as over the grammar, if the
searches below are: one place of the split after the other for a pair. -/
theorem searchBody_eq {body : Body Nat} (hbody : ∀ symbol ∈ body.symbols, grammar.Knows symbol)
    (start stop : Nat) (label : Symbol Nat)
    : searchBody catalog.lookups tags below start stop label body
      = monadLift (searchBody (lookupsOf grammar) tags plain start stop label body) := by
  cases body with
  | unit child =>
      have hchild := hbody child (by simp [Body.symbols])
      simp only [searchBody, hbelow _ _ _ hchild, monadLift_bind, monadLift_pure]
  | pair left right =>
      have hleft := hbody left (by simp [Body.symbols])
      have hright := hbody right (by simp [Body.symbols])
      have hsplits
          : (inside start stop).mapM
              (searchSplit catalog.lookups tags below start stop label left right)
            = monadLift ((inside start stop).mapM
              (searchSplit (lookupsOf grammar) tags plain start stop label left right)) :=
        mapM_eq_monadLift fun middle _ =>
          searchSplit_eq hdescribes hconsistent hbelow hleft hright start stop label middle
      simp only [searchBody, hsplits, monadLift_bind, monadLift_pure]

/-- A label of the grammar is searched over the catalog as over the grammar, if the searches below
are, as the catalog serves the same right sides. -/
theorem searchSpan_follows
    : Follows grammar (searchSpan catalog.lookups tags below)
        (searchSpan (lookupsOf grammar) tags plain) := by
  intro start stop label hlabel
  cases label with
  | terminal tag =>
      simp only [searchSpan, readTag_eq_monadLift, monadLift_bind, monadLift_ite, monadLift_pure]
  | nonterminal a =>
      have hfound
          : (grammar.alternatives a).mapM
              (searchBody catalog.lookups tags below start stop (.nonterminal a))
            = monadLift ((grammar.alternatives a).mapM
              (searchBody (lookupsOf grammar) tags plain start stop (.nonterminal a))) :=
        mapM_eq_monadLift fun body hbody =>
          searchBody_eq hdescribes hconsistent hbelow
            (fun symbol => Grammar.knows_of_rule (Grammar.mem_alternatives.1 hbody)) start stop _
      simp only [searchSpan, alternatives_lookups hdescribes hconsistent hlabel,
        firstTags_lookups hdescribes hconsistent hlabel,
        lastTags_lookups hdescribes hconsistent hlabel, lastTags_lookupsOf, firstTags_lookupsOf,
        alternatives_lookupsOf, hfound, readTag_eq_monadLift, monadLift_bind, pure_bind,
        monadLift_ite, monadLift_pure]

end Steps

/-- At every depth the search over the tables does what the other search does, by induction on the
depth. -/
theorem search_follows (hdescribes : catalog.Describes grammar) (hconsistent : catalog.Consistent)
    (tags : Array Tag) (depth : Nat)
    : Follows grammar (catalog.search tags depth) (Parse.search grammar tags depth) := by
  induction depth with
  | zero => exact fun _ _ _ _ => rfl
  | succ depth ih => exact searchSpan_follows hdescribes hconsistent ih

/-- The search over the tables reads no entry that is not there, and finds all trees. -/
theorem search_eq_ok (hdescribes : catalog.Describes grammar) (hconsistent : catalog.Consistent)
    {tags : Array Tag} {start stop : Nat} {label : Symbol Nat} (hlabel : grammar.Knows label)
    (htags : stop ≤ tags.size) {depth : Nat}
    (hdepth : grammar.names.size * (stop - start + 1) < depth)
    : catalog.search tags depth start stop label
      = pure (trees grammar tags start stop label).toList := by
  have hlevel := grammar.level_le label
  have hlength : grammar.names.size * (stop - start - 1) ≤ grammar.names.size * (stop - start) :=
    Nat.mul_le_mul_left _ (Nat.sub_le _ _)
  rw [Nat.mul_add_one] at hdepth
  rw [search_follows hdescribes hconsistent tags depth start stop label hlabel,
    search_finds start stop label htags (by omega)]
  rfl

/-- What comes of parsing over the tables is what comes of it over the rules.  The check of the span
comes first in both, and the search reads only what is there. -/
theorem all_eq_ok (hdescribes : catalog.Describes grammar) (hconsistent : catalog.Consistent)
    (tokens : Array Token) (start stop : Nat) {label : Symbol Nat} (hlabel : grammar.Knows label)
    {depth : Nat} (hdepth : grammar.names.size * (stop - start + 1) < depth)
    : catalog.all tokens depth start stop label
      = pure (Parse.all grammar tokens start stop label) := by
  rw [all, Parse.all, forest]
  by_cases hspan : stop < start ∨ tokens.size < stop
  · rw [checkSpan_eq_error hspan]
    rfl
  · have hwithin := not_or.1 hspan
    have htags : stop ≤ (tokens.map Token.tag).size := by
      rw [Array.size_map]
      exact Nat.le_of_not_lt hwithin.2
    rw [checkSpan_eq_ok (Nat.le_of_not_lt hwithin.1) (Nat.le_of_not_lt hwithin.2),
      symbolName_eq hdescribes hlabel]
    simp only [search_eq_ok hdescribes hconsistent hlabel htags hdepth, pure_bind]
    rfl

end Formulary.Catalog
