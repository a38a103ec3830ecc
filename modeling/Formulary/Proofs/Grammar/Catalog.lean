import Formulary.Proofs.Grammar.Interning
import Formulary.Proofs.Grammar.Lines
import Formulary.Proofs.Grammar.Names
import Formulary.Proofs.Grammar.Sweeps
import Formulary.Proofs.Parse.Search

/-! The tables of a compiled grammar, side by side.
The names and the map that finds them come from numbering the rules one by one, the places of each
nonterminal's rules from a pass over the rules in numbers, and the edge sets from sweeps over them.
All tables are indexed by the same numbers without any check, so what they hold for each other is
what keeps every index in range.
-/

namespace Formulary

/-- The tables of a grammar. -/
structure Catalog where
  names : Array String
  numbers : Std.HashMap String Nat
  rules : Array (Rule Nat)
  /-- The places of the rules of each nonterminal. -/
  places : Array (List Nat)
  edges : Boundary.Tables

namespace Catalog

-----------------------------------------------------------------------------------------
-- Filing the rules under their left sides
-----------------------------------------------------------------------------------------

/-- Puts the place of a rule behind those that its left side has already. -/
def fileRule (places : Array (List Nat)) (entry : Rule Nat × Nat) : Array (List Nat) :=
  places.modify entry.1.head (· ++ [entry.2])

/-- The places of the rules of so many nonterminals, in one pass over the rules. -/
def file (count : Nat) (rules : List (Rule Nat)) : Array (List Nat) :=
  rules.zipIdx.foldl fileRule (.replicate count [])

/-- The rules with some left side, each with its place. -/
def entriesFor (a : Nat) (entries : List (Rule Nat × Nat)) : List (Rule Nat × Nat) :=
  entries.filter fun entry => entry.1.head = a

/-- Filing a rule adds its place to those of its left side and to no others. -/
theorem getElem?_fileRule (places : Array (List Nat)) (entry : Rule Nat × Nat) (a : Nat)
    : (fileRule places entry)[a]? = places[a]?.map (· ++ (entriesFor a [entry]).map Prod.snd) := by
  rw [fileRule, Array.getElem?_modify]
  by_cases h : entry.1.head = a
  · simp [entriesFor, h]
  · simp [entriesFor, h]

/-- Every rule goes to its left side and to no other, by induction on the rules still to file. -/
theorem getElem?_foldl_fileRule (entries : List (Rule Nat × Nat)) (places : Array (List Nat))
    (a : Nat)
    : (entries.foldl fileRule places)[a]?
      = places[a]?.map (· ++ (entriesFor a entries).map Prod.snd) := by
  induction entries generalizing places with
  | nil => simp [entriesFor]
  | cons entry entries ih =>
      have hsplit
          : entriesFor a (entry :: entries) = entriesFor a [entry] ++ entriesFor a entries :=
        List.filter_append [entry] entries
      rw [List.foldl_cons, ih, getElem?_fileRule, hsplit]
      cases places[a]? <;> simp

/-- What is filed for a nonterminal are the places of the rules with it on the left. -/
theorem getElem?_file {count a : Nat} (ha : a < count) (rules : List (Rule Nat))
    : (file count rules)[a]? = some ((entriesFor a rules.zipIdx).map Prod.snd) := by
  rw [file, getElem?_foldl_fileRule]
  simp [ha]

/-- Filing rules makes no new entries, by induction on the rules. -/
theorem size_foldl_fileRule (entries : List (Rule Nat × Nat)) (places : Array (List Nat))
    : (entries.foldl fileRule places).size = places.size := by
  induction entries generalizing places with
  | nil => rfl
  | cons entry entries ih => rw [List.foldl_cons, ih, fileRule, Array.size_modify]

/-- There is an entry for every nonterminal, whether it has rules or not. -/
theorem size_file (count : Nat) (rules : List (Rule Nat))
    : (file count rules).size = count := by
  rw [file, size_foldl_fileRule, Array.size_replicate]

/-- Places are filed in ascending order, so each at most once. -/
theorem pairwise_entriesFor (a : Nat) (rules : List (Rule Nat))
    : ((entriesFor a rules.zipIdx).map Prod.snd).Pairwise (· < ·) := by
  have hsublist := (List.filter_sublist (l := rules.zipIdx)
    (p := fun entry => decide (entry.1.head = a))).map Prod.snd
  rw [List.zipIdx_map_snd] at hsublist
  exact List.Pairwise.sublist hsublist List.pairwise_lt_range'

/-- A place is filed for a nonterminal exactly if there is a rule at it with the nonterminal on the
left. -/
theorem mem_entriesFor_iff {a place : Nat} {rules : List (Rule Nat)}
    : place ∈ (entriesFor a rules.zipIdx).map Prod.snd
      ↔ ∃ rule, rules[place]? = some rule ∧ rule.head = a := by
  simp only [entriesFor, List.mem_map, List.mem_filter, List.mem_zipIdx_iff_getElem?,
    decide_eq_true_eq]
  constructor
  · rintro ⟨⟨rule, _⟩, ⟨hplace, hhead⟩, rfl⟩
    exact ⟨rule, hplace, hhead⟩
  · rintro ⟨rule, hplace, hhead⟩
    exact ⟨(rule, place), ⟨hplace, hhead⟩, rfl⟩

/-- The rules at the places of a nonterminal are those with it on the left, in order. -/
theorem map_fst_entriesFor (a : Nat) (rules : List (Rule Nat))
    : (entriesFor a rules.zipIdx).map Prod.fst = rules.filter fun rule => rule.head = a := by
  have hrules := List.zipIdx_map_fst 0 rules
  conv_rhs => rw [← hrules]
  rw [List.filter_map]
  rfl

-----------------------------------------------------------------------------------------
-- Reading the tables
-----------------------------------------------------------------------------------------

/-- An index beyond the end of a table. -/
structure OutOfRange where
  size : Nat
  index : Nat
deriving DecidableEq, Repr

/-- The entry of a table, which must be there. -/
def read {α : Type} (table : Array α) (index : Nat) : Except OutOfRange α :=
  match table[index]? with
  | some entry => .ok entry
  | none => .error ⟨table.size, index⟩

/-- A run over tables that can also fail for a reason of its own. -/
abbrev Checked (ε : Type) :=
  ExceptT ε (Except OutOfRange)

/-- A read succeeds exactly if the entry is there. -/
theorem read_eq_ok_iff {α : Type} {table : Array α} {index : Nat} {entry : α}
    : read table index = .ok entry ↔ table[index]? = some entry := by
  rw [read]
  cases table[index]? <;> simp

variable (catalog : Catalog)

/-- The rules of a nonterminal, in the order of their places. -/
def rulesFor (a : Nat) : Except OutOfRange (List (Rule Nat)) := do
  let places ← read catalog.places a
  places.mapM (read catalog.rules)

def symbolName : Symbol Nat → Except OutOfRange String
  | .terminal tag => .ok tag.label
  | .nonterminal a => read catalog.names a

/-- The symbol with a name: categories first, then the names in the map. -/
def lookup? (name : String) : Option (Symbol Nat) :=
  match Tag.ofName? name with
  | some tag => some (.terminal tag)
  | none => catalog.numbers[name]?.map .nonterminal

/-- The terminals at an edge of a symbol. -/
def edgeTags (sets : Array TagSet) : Symbol Nat → Except OutOfRange TagSet
  | .terminal tag => .ok (.single tag)
  | .nonterminal a => read sets a

def firstTags (symbol : Symbol Nat) : Except OutOfRange TagSet :=
  edgeTags catalog.edges.firsts symbol

def lastTags (symbol : Symbol Nat) : Except OutOfRange TagSet :=
  edgeTags catalog.edges.lasts symbol

-----------------------------------------------------------------------------------------
-- The catalog of compiled rules
-----------------------------------------------------------------------------------------

/-- The passes over some rules lead to these tables. -/
structure Built (source : List (Rule String)) (catalog : Catalog) : Prop where
  interned
    : source.mapM Rule.intern Interner.empty
      = (catalog.rules.toList, ⟨catalog.names, catalog.numbers⟩)
  filed : catalog.places = file catalog.names.size catalog.rules.toList
  swept
    : ∃ sweeps,
        Boundary.Tables.Settles catalog.rules.toList (.blank catalog.names.size) sweeps
          catalog.edges

/-- The tables hold what a grammar holds, and the map finds its names. -/
structure Describes (catalog : Catalog) (grammar : Grammar) : Prop where
  names_eq : catalog.names = grammar.names
  rules_eq : catalog.rules.toList = grammar.rules
  edges_eq : catalog.edges = ⟨grammar.firsts, grammar.lasts⟩
  numbers_eq : ∀ name : String, catalog.numbers[name]? = grammar.nonterminal? name

/-- What the tables hold for each other. -/
structure Consistent (catalog : Catalog) : Prop where
  names_nodup : catalog.names.toList.Nodup
  /-- No name holds a blank, and none names a category in whatever letter case. -/
  isWord_name
    : ∀ name ∈ catalog.names,
        Text.IsWord name.toList ∧ ∀ tag : Tag, ¬ tag.Names name.toList
  numbers_iff
    : ∀ (name : String) (a : Nat),
        catalog.numbers[name]? = some a ↔ catalog.names[a]? = some name
  size_places : catalog.places.size = catalog.names.size
  size_firsts : catalog.edges.firsts.size = catalog.names.size
  size_lasts : catalog.edges.lasts.size = catalog.names.size
  bounded : ∀ rule ∈ catalog.rules, ∀ a ∈ rule.names, a < catalog.names.size
  places_ascend : ∀ places ∈ catalog.places, places.Pairwise (· < ·)
  mem_places_iff
    : ∀ (a : Nat) places,
        catalog.places[a]? = some places
        → ∀ place : Nat,
          place ∈ places ↔ ∃ rule, catalog.rules[place]? = some rule ∧ rule.head = a
  rulesFor_eq
    : ∀ a < catalog.names.size,
        catalog.rulesFor a = .ok (catalog.rules.toList.filter fun rule => rule.head = a)

variable {catalog : Catalog} {source : List (Rule String)} {grammar : Grammar}

/-- The passes over the rules of a compiled grammar lead to its own tables.  The names are met in
order, the rules are filed one by one, and the sweeps come to an end. -/
theorem exists_built (h : Grammar.ofRules source = .ok grammar)
    : ∃ catalog : Catalog, catalog.Built source ∧ catalog.Describes grammar := by
  obtain ⟨hnames, hrules⟩ := Grammar.parts_of_ofRules h
  obtain ⟨interner, hinterned, hmet⟩ := Interner.intern_rules source
  obtain ⟨sweeps, -, hsettles⟩ := grammar.exists_settles
  have hinterner : interner.names = grammar.names := by
    rw [hnames, ← Array.toList_inj, List.toList_toArray]
    exact hmet.toList_names
  refine
    ⟨⟨grammar.names, interner.numbers, grammar.rules.toArray,
      file grammar.names.size grammar.rules, ⟨grammar.firsts, grammar.lasts⟩⟩,
      ⟨?_, rfl, ⟨sweeps, hsettles⟩⟩, ⟨rfl, rfl, rfl, fun name => ?_⟩⟩
  · simp only [hinterned, hrules, ← hinterner]
  · rw [Grammar.nonterminal?_of_ofRules h, hmet.numbers_eq, hinterner, hnames]

/-- The passes lead to no other tables. -/
theorem Built.unique (h : catalog.Built source) {other : Catalog} (hother : other.Built source)
    : other = catalog := by
  obtain ⟨names, numbers, rules, places, edges⟩ := catalog
  obtain ⟨otherNames, otherNumbers, otherRules, otherPlaces, otherEdges⟩ := other
  obtain ⟨hrules, hinterner⟩ := Prod.mk.inj (hother.interned.symm.trans h.interned)
  obtain ⟨rfl, rfl⟩ := Interner.mk.inj hinterner
  obtain rfl := Array.toList_inj.1 hrules
  obtain rfl : otherPlaces = places := hother.filed.trans h.filed.symm
  obtain ⟨sweeps, hsettles⟩ := h.swept
  obtain ⟨others, hothers⟩ := hother.swept
  obtain rfl : otherEdges = edges := hothers.unique hsettles
  rfl

/-- Every entry of the places is what is filed for its nonterminal. -/
theorem Built.places_eq (h : catalog.Built source) {a : Nat} {places : List Nat}
    (hplaces : catalog.places[a]? = some places)
    : places = (entriesFor a catalog.rules.toList.zipIdx).map Prod.snd := by
  have ha : a < catalog.names.size := by
    rw [← size_file catalog.names.size catalog.rules.toList, ← h.filed]
    exact (Array.getElem?_eq_some_iff.1 hplaces).1
  rw [h.filed, getElem?_file ha] at hplaces
  exact (Option.some.inj hplaces).symm

/-- The places of a nonterminal lead to its rules. -/
theorem Built.rulesFor_eq (h : catalog.Built source) {a : Nat} (ha : a < catalog.names.size)
    : catalog.rulesFor a = .ok (catalog.rules.toList.filter fun rule => rule.head = a) := by
  have hplaces : read catalog.places a
      = .ok ((entriesFor a catalog.rules.toList.zipIdx).map Prod.snd) := by
    rw [read_eq_ok_iff, h.filed, getElem?_file ha]
  have hread : ∀ entry ∈ entriesFor a catalog.rules.toList.zipIdx,
      read catalog.rules entry.2 = .ok entry.1 := by
    intro entry hentry
    have hmem := List.mem_zipIdx_iff_getElem?.1 (List.mem_filter.1 hentry).1
    rw [read_eq_ok_iff, ← Array.getElem?_toList, hmem]
  rw [rulesFor, hplaces, ← map_fst_entriesFor, ← Parse.mapM_eq_ok hread]
  exact List.mapM_map

/-- Among different names each is found at its only place. -/
theorem idxOf?_eq_some_iff_of_nodup {names : List String} (h : names.Nodup) {name : String}
    {a : Nat}
    : names.idxOf? name = some a ↔ names[a]? = some name := by
  rw [List.idxOf?_eq_some_iff, List.getElem?_eq_some_iff]
  refine exists_congr fun ha => and_iff_left_of_imp ?_
  rintro rfl b hb heq
  exact absurd (h.getElem_inj_iff.1 heq) (Nat.ne_of_lt hb)

/-- The tables of a compiled text are consistent.  The names are different words that name no
category, the numbers are their places, every set has its place, and the rules of a nonterminal are
filed in their order. -/
theorem consistent_of_compile {text : String} (h : Grammar.compile text = .ok grammar)
    (hbuilt : catalog.Built source) (hdescribes : catalog.Describes grammar)
    : catalog.Consistent := by
  obtain ⟨rules, -, hrules⟩ := Grammar.exists_rules_of_compile h
  obtain ⟨sweeps, hsettles⟩ := hbuilt.swept
  obtain ⟨hsound, -⟩ := hsettles.final (Boundary.Tables.Sound.blank _ _)
  have hnodup : catalog.names.toList.Nodup := by
    rw [hdescribes.names_eq, (Grammar.parts_of_ofRules hrules).1]
    exact Numbering.nodup_names rules
  constructor
  case names_nodup => exact hnodup
  case isWord_name =>
    intro name hname
    rw [hdescribes.names_eq] at hname
    obtain ⟨a, ha, rfl⟩ := Array.mem_iff_getElem.1 hname
    obtain ⟨hword, hfree⟩ := Grammar.name_of_compile h (a := a) ha
    simp only [Grammar.nonterminalName, Array.getD_eq_getD_getElem?, Array.getElem?_eq_getElem ha,
      Option.getD_some] at hword hfree
    refine ⟨hword, Tag.ofName?_eq_none_iff.1 ?_⟩
    rwa [String.ofList_toList]
  case numbers_iff =>
    intro name a
    rw [hdescribes.numbers_eq, Grammar.nonterminal?, ← hdescribes.names_eq, ← Array.getElem?_toList,
      ← idxOf?_eq_some_iff_of_nodup hnodup, ← List.idxOf?_toArray, Array.toArray_toList]
  case size_places => rw [hbuilt.filed, size_file]
  case size_firsts => exact hsound.size_firsts
  case size_lasts => exact hsound.size_lasts
  case bounded =>
    intro rule hrule
    rw [← Array.mem_toList_iff, hdescribes.rules_eq] at hrule
    rw [hdescribes.names_eq]
    exact grammar.bounded rule hrule
  case places_ascend =>
    intro places hplaces
    obtain ⟨a, ha⟩ := Array.mem_iff_getElem?.1 hplaces
    rw [hbuilt.places_eq ha]
    exact pairwise_entriesFor a _
  case mem_places_iff =>
    intro a places hplaces place
    rw [hbuilt.places_eq hplaces, mem_entriesFor_iff]
    simp only [Array.getElem?_toList]
  case rulesFor_eq => exact fun a => hbuilt.rulesFor_eq

-----------------------------------------------------------------------------------------
-- Reads for the symbols of the grammar
-----------------------------------------------------------------------------------------

/-- The edge set of a symbol is read without fault if the table reaches to its number. -/
theorem edgeTags_eq {sets : Array TagSet} {symbol : Symbol Nat}
    (h : ∀ a, symbol = .nonterminal a → a < sets.size)
    : edgeTags sets symbol = .ok (Boundary.edgeSet sets symbol) := by
  cases symbol with
  | terminal tag => rfl
  | nonterminal a =>
      have ha := h a rfl
      rw [edgeTags, read_eq_ok_iff, Boundary.edgeSet, Array.getD_eq_getD_getElem?,
        Array.getElem?_eq_getElem ha, Option.getD_some]

section Known

variable (hdescribes : catalog.Describes grammar) (hconsistent : catalog.Consistent)
  {symbol : Symbol Nat} (hsymbol : grammar.Knows symbol)

include hdescribes hsymbol

/-- The name of a symbol of the grammar is read without fault. -/
theorem symbolName_eq
    : catalog.symbolName symbol = .ok (grammar.symbolName symbol) := by
  cases symbol with
  | terminal tag => rfl
  | nonterminal a =>
      have ha : a < grammar.names.size := hsymbol
      rw [symbolName, read_eq_ok_iff, hdescribes.names_eq, Grammar.symbolName,
        Grammar.nonterminalName, Array.getD_eq_getD_getElem?, Array.getElem?_eq_getElem ha,
        Option.getD_some]

include hconsistent

/-- The terminals in front of a symbol of the grammar are read without fault, as there are as many
sets as names. -/
theorem firstTags_eq
    : catalog.firstTags symbol = .ok (grammar.firstTags symbol) := by
  have hsize := hconsistent.size_firsts
  rw [hdescribes.edges_eq, hdescribes.names_eq] at hsize
  rw [firstTags, hdescribes.edges_eq, edgeTags_eq, Grammar.firstTags]
  rintro a rfl
  rwa [hsize]

/-- The terminals behind a symbol of the grammar are read without fault, as there are as many sets
as names. -/
theorem lastTags_eq
    : catalog.lastTags symbol = .ok (grammar.lastTags symbol) := by
  have hsize := hconsistent.size_lasts
  rw [hdescribes.edges_eq, hdescribes.names_eq] at hsize
  rw [lastTags, hdescribes.edges_eq, edgeTags_eq, Grammar.lastTags]
  rintro a rfl
  rwa [hsize]

end Known

/-- The rules that are read for a nonterminal have its alternatives as their right sides. -/
theorem exists_rulesFor (hdescribes : catalog.Describes grammar) (hconsistent : catalog.Consistent)
    {a : Nat} (ha : grammar.Knows (.nonterminal a))
    : ∃ rules,
        catalog.rulesFor a = .ok rules ∧ rules.map Rule.body = grammar.alternatives a := by
  have hlt : a < catalog.names.size := by
    rw [hdescribes.names_eq]
    exact ha
  refine ⟨_, hconsistent.rulesFor_eq a hlt, ?_⟩
  rw [Grammar.alternatives_eq, hdescribes.rules_eq, ← List.filterMap_eq_map, List.filterMap_filter]
  simp

end Catalog

end Formulary
