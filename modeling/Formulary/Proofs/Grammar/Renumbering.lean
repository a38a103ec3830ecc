import Formulary.Proofs.Grammar.Numbering
import Mathlib.Data.List.Nodup

/-! The same nonterminals under two numberings.
Rules that follow others leave the numbers of those others as they are.  Rules in another order
mention the same nonterminals under other numbers, and translating number by number turns the one
grammar into the other, up to the order of its rules.
-/

namespace Formulary

namespace Numbering

-----------------------------------------------------------------------------------------
-- Names and their numbers
-----------------------------------------------------------------------------------------

/-- Dropping repeated items leaves each once, by induction on the items still to look at. -/
theorem nodup_eraseDups : ∀ items : List String, items.eraseDups.Nodup
  | [] => List.nodup_nil
  | item :: items => by
      rw [List.eraseDups_cons, List.nodup_cons, List.mem_eraseDups, List.mem_filter]
      exact ⟨by simp, nodup_eraseDups _⟩
termination_by items => items.length
decreasing_by exact Nat.lt_succ_of_le (List.length_filter_le _ _)

/-- No name is numbered twice. -/
theorem nodup_names (rules : List (Rule String))
    : (names rules).Nodup :=
  nodup_eraseDups _

/-- A name of the list is found at its first place. -/
theorem idxOf?_of_mem {names : List String} {name : String} (h : name ∈ names)
    : names.idxOf? name = some (names.idxOf name) := by
  cases hfound : names.idxOf? name with
  | none => exact (List.idxOf?_eq_none_iff.1 hfound h).elim
  | some a => rw [List.idxOf_eq_getD_idxOf?, hfound, Option.getD_some]

/-- The nonterminals that only later rules mention come behind the others. -/
theorem names_isPrefix (rules extra : List (Rule String))
    : names rules <+: names (rules ++ extra) := by
  rw [names, names, List.flatMap_append, List.eraseDups_append]
  exact List.prefix_append _ _

/-- Rules that follow others change none of their numbers. -/
theorem number_append (rules extra : List (Rule String))
    : number (names (rules ++ extra)) (rules ++ extra)
      = number (names rules) rules ++ number (names (rules ++ extra)) extra := by
  rw [number, List.map_append]
  refine congrArg (· ++ _) (List.map_congr_left fun rule hrule => ?_)
  refine Rule.map_congr fun name hname => ?_
  exact ((names_isPrefix rules extra).idxOf_eq_of_mem (mem_names hrule hname)).symm

/-- The order of the rules does not decide which names are numbered, only in which order. -/
theorem mem_names_iff_of_perm {rules others : List (Rule String)} (h : rules.Perm others)
    {name : String}
    : name ∈ names rules ↔ name ∈ names others := by
  rw [names, names, List.mem_eraseDups, List.mem_eraseDups]
  exact (h.flatMap_right _).mem_iff

-----------------------------------------------------------------------------------------
-- From one numbering to another
-----------------------------------------------------------------------------------------

variable {source target : List String}

/-- The number among the target names of the nonterminal with a number among the source names.
Numbers that are not in use all go to one that is not in use. -/
def translate (source target : List String) (a : Nat) : Nat :=
  match source[a]? with
  | some name => target.idxOf name
  | none => target.length

/-- A number of the source is translated to that of its name in the target. -/
theorem translate_of_lt {a : Nat} (h : a < source.length)
    : translate source target a = target.idxOf source[a] := by
  rw [translate, List.getElem?_eq_getElem h]

/-- A number that is none of the source is translated to one that is none of the target. -/
theorem translate_of_le {a : Nat} (h : source.length ≤ a)
    : translate source target a = target.length := by
  rw [translate, List.getElem?_eq_none h]

/-- Translation goes by the names: the number of a name becomes its number in the target. -/
theorem translate_idxOf {name : String} (h : name ∈ source)
    : translate source target (source.idxOf name) = target.idxOf name := by
  rw [translate_of_lt (List.idxOf_lt_length_of_mem h), List.getElem_idxOf]

/-- Translated numbers keep their names. -/
theorem getD_translate (hsubset : source ⊆ target) (a : Nat)
    : target.getD (translate source target a) "" = source.getD a "" := by
  by_cases ha : a < source.length
  · rw [translate_of_lt ha, getD_idxOf (hsubset (List.getElem_mem ha))]
    simp [ha]
  · rw [translate_of_le (Nat.le_of_not_lt ha)]
    simp [ha]

/-- A number in use shares its translation with no other number. -/
theorem translate_eq_iff (hnodup : source.Nodup) (hsubset : source ⊆ target) {a b : Nat}
    (ha : a < source.length)
    : translate source target a = translate source target b ↔ a = b := by
  have hmem := hsubset (List.getElem_mem ha)
  rw [translate_of_lt ha]
  by_cases hb : b < source.length
  · rw [translate_of_lt hb, List.idxOf_inj hmem, hnodup.getElem_inj_iff]
  · have hlt := List.idxOf_lt_length_of_mem hmem
    rw [translate_of_le (Nat.le_of_not_lt hb)]
    omega

/-- Rules in numbers become those of another numbering. -/
theorem map_translate_number (rules : List (Rule String)) (target : List String)
    : (number (names rules) rules).map (Rule.map (translate (names rules) target))
      = number target rules := by
  rw [number, List.map_map]
  refine List.map_congr_left fun rule hrule => ?_
  rw [Function.comp_apply, Rule.map_map]
  exact Rule.map_congr fun name hname => translate_idxOf (mem_names hrule hname)

/-- From the numbers that some rules give their nonterminals to the numbers that others do. -/
def renumber (rules others : List (Rule String)) : Nat → Nat :=
  translate (names rules) (names others)

end Numbering

-----------------------------------------------------------------------------------------
-- Compiled grammars
-----------------------------------------------------------------------------------------

namespace Grammar

variable {rules others extra : List (Rule String)} {grammar other : Grammar}

/-- A nonterminal of a compiled grammar is found at the place of its name in the numbering. -/
theorem nonterminal?_of_ofRules (h : ofRules rules = .ok grammar) (name : String)
    : grammar.nonterminal? name = (Numbering.names rules).idxOf? name := by
  rw [nonterminal?, (parts_of_ofRules h).1, List.idxOf?_toArray]

/-- A name that denotes a symbol denotes the same one when more rules follow. -/
theorem lookup?_of_append (h : ofRules rules = .ok grammar)
    (hmore : ofRules (rules ++ extra) = .ok other) {name : String} {label : Symbol Nat}
    (hlabel : grammar.lookup? name = some label)
    : other.lookup? name = some label := by
  have hfront := Numbering.names_isPrefix rules extra
  rw [lookup?] at hlabel ⊢
  split at hlabel
  · exact hlabel
  · rw [nonterminal?_of_ofRules h] at hlabel
    rw [nonterminal?_of_ofRules hmore]
    by_cases hname : name ∈ Numbering.names rules
    · rw [Numbering.idxOf?_of_mem (hfront.subset hname), ← hfront.idxOf_eq_of_mem hname,
        ← Numbering.idxOf?_of_mem hname, hlabel]
    · rw [List.idxOf?_eq_none_iff.2 hname] at hlabel
      cases hlabel

/-- More rules add alternatives and leave those that are there in their order. -/
theorem alternatives_sublist_of_append (h : ofRules rules = .ok grammar)
    (hmore : ofRules (rules ++ extra) = .ok other) (a : Nat)
    : (grammar.alternatives a).Sublist (other.alternatives a) := by
  rw [alternatives_eq, alternatives_eq, (parts_of_ofRules h).2, (parts_of_ofRules hmore).2,
    Numbering.number_append]
  exact (List.sublist_append_left _ _).filterMap _

/-- The same rules in another order give the same alternatives in another order, once numbers are
translated. -/
theorem alternatives_perm (hperm : rules.Perm others) (h : ofRules rules = .ok grammar)
    (hother : ofRules others = .ok other) (a : Nat)
    : ((grammar.alternatives a).map (Body.map (Numbering.renumber rules others))).Perm
        (other.alternatives (Numbering.renumber rules others a)) := by
  have hrules
      : (grammar.rules.map (Rule.map (Numbering.renumber rules others))).Perm other.rules := by
    rw [(parts_of_ofRules h).2, (parts_of_ofRules hother).2, Numbering.renumber,
      Numbering.map_translate_number]
    exact hperm.map _
  have hheads : ∀ rule ∈ grammar.rules,
      Numbering.renumber rules others rule.head = Numbering.renumber rules others a
      ↔ rule.head = a := by
    intro rule hrule
    have hlt := grammar.bounded rule hrule rule.head List.mem_cons_self
    rw [(parts_of_ofRules h).1, List.size_toArray] at hlt
    exact Numbering.translate_eq_iff (Numbering.nodup_names rules)
      (fun _ => (Numbering.mem_names_iff_of_perm hperm).1) hlt
  rw [alternatives_eq, alternatives_eq, List.map_filterMap]
  refine .trans (.of_eq ?_) (hrules.filterMap _)
  rw [List.filterMap_map]
  refine List.filterMap_congr fun rule hrule => ?_
  simp only [Function.comp_apply, Rule.map, hheads rule hrule]
  split <;> rfl

/-- A name denotes the same symbol when the rules come in another order, or again none.  Categories
go first in both, and the names that are numbered are the same. -/
theorem lookup?_of_perm (hperm : rules.Perm others) (h : ofRules rules = .ok grammar)
    (hother : ofRules others = .ok other) (name : String)
    : other.lookup? name
      = (grammar.lookup? name).map (Symbol.map (Numbering.renumber rules others)) := by
  rw [lookup?, lookup?, nonterminal?_of_ofRules h, nonterminal?_of_ofRules hother]
  cases Tag.ofName? name with
  | some tag => rfl
  | none =>
      have hiff
          : name ∈ Numbering.names rules ↔ name ∈ Numbering.names others :=
        Numbering.mem_names_iff_of_perm hperm
      by_cases hname : name ∈ Numbering.names rules
      · rw [Numbering.idxOf?_of_mem hname, Numbering.idxOf?_of_mem (hiff.1 hname),
          ← Numbering.translate_idxOf hname]
        rfl
      · rw [List.idxOf?_eq_none_iff.2 hname, List.idxOf?_eq_none_iff.2 (mt hiff.2 hname)]
        rfl

/-- A nonterminal keeps its name when the lines of the text change places. -/
theorem nonterminalName_renumber (hperm : rules.Perm others) (h : ofRules rules = .ok grammar)
    (hother : ofRules others = .ok other) (a : Nat)
    : other.nonterminalName (Numbering.renumber rules others a) = grammar.nonterminalName a := by
  rw [nonterminalName_of_ofRules h, nonterminalName_of_ofRules hother]
  exact Numbering.getD_translate (fun _ => (Numbering.mem_names_iff_of_perm hperm).1) a

end Grammar

end Formulary
