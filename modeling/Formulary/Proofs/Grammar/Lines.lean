import Formulary.Proofs.Grammar.RoundTrip
import Formulary.Proofs.Grammar.UnitCycle
import Mathlib.Data.List.Forall2
import Mathlib.Data.List.Perm.Basic

/-! What the lines of a grammar text say.
A line in use holds one rule, or it is at fault in the first check that it fails.  A text compiles
to the rules on its lines, in their order, unless a line is at fault or unit rules form a cycle, and
of a line nothing counts but its left name and its symbols.
-/

namespace Formulary

open Text

-----------------------------------------------------------------------------------------
-- Words and the symbols that they denote
-----------------------------------------------------------------------------------------

/-- A word names a category in some ASCII letter case. -/
def Tag.Names (tag : Tag) (word : List Char) : Prop :=
  word.map Char.toLower = tag.keyword.toList

/-- A word is looked up as a category exactly if it names the category in whatever letter case. -/
theorem Tag.ofName?_eq_some_iff {tag : Tag} {word : List Char}
    : ofName? (String.ofList word) = some tag ↔ tag.Names word := by
  constructor
  · intro h
    have hfound := List.find?_some h
    rw [beq_iff_eq, String.toList_ofList] at hfound
    exact hfound.symm
  · intro h
    rw [ofName?, String.toList_ofList, h]
    cases tag <;> decide

/-- A word is no category exactly if it names none of them. -/
theorem Tag.ofName?_eq_none_iff {word : List Char}
    : ofName? (String.ofList word) = none ↔ ∀ tag : Tag, ¬ tag.Names word := by
  rw [Option.eq_none_iff_forall_ne_some]
  exact forall_congr' fun tag => not_congr ofName?_eq_some_iff

/-- What a word on the right side of a line stands for. -/
inductive Symbol.Denoted : List Char → Symbol String → Prop where
  | terminal {word : List Char} {tag : Tag} (hname : tag.Names word)
    : Denoted word (.terminal tag)
  | nonterminal {word : List Char} (hfree : ∀ tag : Tag, ¬ tag.Names word)
    : Denoted word (.nonterminal (String.ofList word))

/-- What a word denotes is what it is read as.  The names of the categories go first, in any letter
case. -/
theorem Symbol.denoted_iff {word : List Char} {symbol : Symbol String}
    : Denoted word symbol ↔ ofWord (String.ofList word) = symbol := by
  rw [ofWord]
  cases hword : Tag.ofName? (String.ofList word) with
  | some tag =>
      have hname := Tag.ofName?_eq_some_iff.1 hword
      constructor
      · rintro (⟨hother⟩ | hfree)
        · rw [← Tag.ofName?_eq_some_iff, hword] at hother
          rw [Option.some.inj hother]
        · exact (hfree tag hname).elim
      · rintro rfl
        exact .terminal hname
  | none =>
      have hfree := Tag.ofName?_eq_none_iff.1 hword
      constructor
      · rintro (⟨hname⟩ | _)
        · exact (hfree _ hname).elim
        · rfl
      · rintro rfl
        exact .nonterminal hfree

/-- What one or two words stand for. -/
inductive Body.Denoted : List (List Char) → Body String → Prop where
  | unit {word : List Char} {symbol : Symbol String} (hword : symbol.Denoted word)
    : Denoted [word] (.unit symbol)
  | pair {first second : List Char} {left right : Symbol String} (hleft : left.Denoted first)
    (hright : right.Denoted second)
    : Denoted [first, second] (.pair left right)

/-- Words that denote a right side are read as it. -/
theorem Body.Denoted.readBody_eq {words : List (List Char)} {body : Body String}
    (h : body.Denoted words)
    : Rule.readBody (words.map String.ofList) = .ok body := by
  cases h with
  | unit hword => simp [Rule.readBody, Symbol.denoted_iff.1 hword]
  | pair hleft hright =>
      simp [Rule.readBody, Symbol.denoted_iff.1 hleft, Symbol.denoted_iff.1 hright]

/-- Any number of words but one and two is reported. -/
theorem Body.readBody_of_length {words : List (List Char)}
    (h : ¬ (words.length = 1 ∨ words.length = 2))
    : Rule.readBody (words.map String.ofList) = .error (.symbolCount words.length) := by
  match words, h with
  | [], _ => rfl
  | [_], h => simp at h
  | [_, _], h => simp at h
  | _ :: _ :: _ :: _, _ => simp [Rule.readBody]

/-- Words that are one or two stand for a body, by what each of them denotes. -/
theorem Body.exists_denoted {words : List (List Char)} (h : words.length = 1 ∨ words.length = 2)
    : ∃ body : Body String, body.Denoted words := by
  match words, h with
  | [word], _ => exact ⟨_, .unit (Symbol.denoted_iff.2 rfl)⟩
  | [first, second], _ =>
      exact ⟨_, .pair (Symbol.denoted_iff.2 rfl) (Symbol.denoted_iff.2 rfl)⟩

namespace Rule

-----------------------------------------------------------------------------------------
-- What a line holds and what is wrong with it
-----------------------------------------------------------------------------------------

/-- A trimmed line that is neither empty nor marked as a comment. -/
def InUse (line : List Char) : Prop :=
  line ≠ [] ∧ ¬ ['#'] <+: line ∧ ¬ ['/', '/'] <+: line

instance (line : List Char) : Decidable (InUse line) :=
  inferInstanceAs (Decidable (_ ∧ _))

/-- The lines of a text that are in use, without the blanks at their ends. -/
def linesInUse (text : String) : List (List Char) :=
  ((lineChars text.toList).map trimChars).filter fun line => InUse line

/-- The two sides of the first equals sign of a line. -/
def Sides (line left right : List Char) : Prop :=
  line = left ++ '=' :: right ∧ '=' ∉ left

/-- A line holds a rule: one word on the left that names no category, and one or two words on the
right. -/
inductive Holds : List Char → Rule String → Prop where
  | rule {line left right : List Char} {body : Body String} (hsides : Sides line left right)
    (hname : IsWord (trimChars left)) (hfree : ∀ tag : Tag, ¬ tag.Names (trimChars left))
    (hbody : body.Denoted (wordChars right))
    : Holds line ⟨String.ofList (trimChars left), body⟩

/-- The first check that a line fails, with one constructor for each in the order in which they are
made. -/
inductive Faulty : List Char → RuleFault → Prop where
  | missingEquals {line : List Char} (h : '=' ∉ line)
    : Faulty line .missingEquals
  | leftName {line left right : List Char} (hsides : Sides line left right)
    (h : ¬ IsWord (trimChars left))
    : Faulty line .leftName
  | terminalOnLeft {line left right : List Char} {tag : Tag} (hsides : Sides line left right)
    (hname : IsWord (trimChars left)) (h : tag.Names (trimChars left))
    : Faulty line (.terminalOnLeft (String.ofList (trimChars left)))
  | symbolCount {line left right : List Char} (hsides : Sides line left right)
    (hname : IsWord (trimChars left)) (hfree : ∀ tag : Tag, ¬ tag.Names (trimChars left))
    (h : ¬ ((wordChars right).length = 1 ∨ (wordChars right).length = 2))
    : Faulty line (.symbolCount (wordChars right).length)

variable {line left right : List Char} {rule : Rule String} {fault : RuleFault}

/-- A line is in use exactly if it is not passed over. -/
theorem isPassedOver_eq_false_iff
    : isPassedOver line = false ↔ InUse line := by
  rw [← Bool.not_eq_true, isPassedOver_iff, InUse, not_or, not_or]

/-- Every line holds a rule or fails some check.  The checks are made one after another, and a line
that passes all of them holds a rule. -/
theorem holds_or_faulty (line : List Char)
    : (∃ rule, Holds line rule) ∨ ∃ fault, Faulty line fault := by
  by_cases hequals : '=' ∈ line
  · obtain ⟨left, right, hsides⟩ := List.eq_append_cons_of_mem hequals
    by_cases hname : IsWord (trimChars left)
    · by_cases hfree : ∀ tag : Tag, ¬ tag.Names (trimChars left)
      · by_cases hcount : (wordChars right).length = 1 ∨ (wordChars right).length = 2
        · obtain ⟨body, hbody⟩ := Body.exists_denoted hcount
          exact .inl ⟨_, .rule hsides hname hfree hbody⟩
        · exact .inr ⟨_, .symbolCount hsides hname hfree hcount⟩
      · simp only [not_forall, not_not] at hfree
        obtain ⟨tag, htag⟩ := hfree
        exact .inr ⟨_, .terminalOnLeft hsides hname htag⟩
    · exact .inr ⟨_, .leftName hsides hname⟩
  · exact .inr ⟨_, .missingEquals hequals⟩

/-- A line is read side by side, the left one first. -/
theorem Sides.read_eq (h : Sides line left right)
    : read line
      = (do
        let head ← readHead left
        let body ← readBody ((wordChars right).map String.ofList)
        pure ⟨head, body⟩) := by
  obtain ⟨rfl, hleft⟩ := h
  have hbefore : ∀ c ∈ left, (c != '=') = true := by
    intro c hc
    rw [bne_iff_ne]
    exact fun heq => hleft (heq ▸ hc)
  rw [read, List.dropWhile_append_of_pos hbefore, List.takeWhile_append_of_pos hbefore]
  simp

/-- A line that holds a rule is read as it: its left side is a word that names no category, and its
right side denotes the body. -/
theorem Holds.read_eq (h : Holds line rule)
    : read line = .ok rule := by
  obtain ⟨hsides, hname, hfree, hbody⟩ := h
  have hhead := readHead_eq_ok_iff.2 ⟨hname, Tag.ofName?_eq_none_iff.2 hfree, rfl⟩
  rw [hsides.read_eq, hhead, hbody.readBody_eq]
  rfl

/-- A faulty line is reported by its first failing check.  The checks before it pass, so reading
gets to the one that fails. -/
theorem Faulty.read_eq (h : Faulty line fault)
    : read line = .error fault := by
  cases h with
  | missingEquals h =>
      have hall : ∀ c ∈ line, (c != '=') = true := by
        intro c hc
        rw [bne_iff_ne]
        exact fun heq => h (heq ▸ hc)
      rw [read, List.dropWhile_eq_nil_iff.2 hall]
  | leftName hsides h =>
      rw [hsides.read_eq, readHead, if_pos (not_isWord_iff.1 h)]
      rfl
  | terminalOnLeft hsides hname h =>
      rw [hsides.read_eq, readHead, if_neg (by rwa [← not_isWord_iff, not_not]),
        if_pos (by rw [Tag.ofName?_eq_some_iff.2 h]; rfl)]
      rfl
  | symbolCount hsides hname hfree h =>
      have hhead := readHead_eq_ok_iff.2 ⟨hname, Tag.ofName?_eq_none_iff.2 hfree, rfl⟩
      rw [hsides.read_eq, hhead, Body.readBody_of_length h]
      rfl

/-- A line is read as a rule exactly if it holds it, since every line holds a rule or is faulty. -/
theorem read_eq_ok_iff_holds
    : read line = .ok rule ↔ Holds line rule := by
  refine ⟨fun h => ?_, Holds.read_eq⟩
  rcases holds_or_faulty line with ⟨other, hother⟩ | ⟨fault, hfault⟩
  · rw [hother.read_eq] at h
    exact Except.ok.inj h ▸ hother
  · cases hfault.read_eq.symm.trans h

-----------------------------------------------------------------------------------------
-- Lines one after the other
-----------------------------------------------------------------------------------------

/-- The first line in use that holds no rule, by its number among all lines counted from one, and
the first check that it fails. -/
def FirstFault (lines : List (List Char)) (number : Nat) (fault : RuleFault) : Prop :=
  ∃ before line after,
    lines = before ++ line :: after
    ∧ number = before.length + 1
    ∧ (∀ earlier ∈ before,
        InUse (trimChars earlier) → ∃ rule, Holds (trimChars earlier) rule)
    ∧ InUse (trimChars line)
    ∧ Faulty (trimChars line) fault

/-- A line that is not in use is counted and otherwise passed over. -/
theorem readLines_of_not_inUse (h : ¬ InUse (trimChars line)) (number : Nat)
    (lines : List (List Char))
    : readLines number (line :: lines) = readLines (number + 1) lines := by
  have hpassed : isPassedOver (trimChars line) = true := by
    rwa [← isPassedOver_eq_false_iff, Bool.not_eq_false] at h
  rw [readLines, hpassed]
  rfl

/-- A line that holds a rule puts it in front of those of the lines behind. -/
theorem readLines_of_holds (hused : InUse (trimChars line)) (h : Holds (trimChars line) rule)
    (number : Nat) (lines : List (List Char))
    : readLines number (line :: lines) = (readLines (number + 1) lines).map (rule :: ·) := by
  rw [readLines, isPassedOver_eq_false_iff.2 hused, h.read_eq]
  rfl

/-- A faulty line is reported with its number, whatever the lines behind it hold. -/
theorem readLines_of_faulty (hused : InUse (trimChars line)) (h : Faulty (trimChars line) fault)
    (number : Nat) (lines : List (List Char))
    : readLines number (line :: lines) = .error (number, fault) := by
  rw [readLines, isPassedOver_eq_false_iff.2 hused, h.read_eq]
  rfl

/-- Lines that are in order give their rules, and reading goes on behind them.  Every line counts,
whether it is in use or not. -/
theorem readLines_append {before : List (List Char)}
    (h : ∀ line ∈ before, InUse (trimChars line) → ∃ rule, Holds (trimChars line) rule)
    : ∃ rules,
        List.Forall₂ Holds ((before.map trimChars).filter fun line => InUse line) rules
        ∧ ∀ number rest,
            readLines number (before ++ rest)
            = (readLines (number + before.length) rest).map (rules ++ ·) := by
  induction before with
  | nil =>
      refine ⟨[], .nil, fun number rest => ?_⟩
      rw [List.nil_append, List.length_nil, Nat.add_zero]
      cases readLines number rest <;> rfl
  | cons line before ih =>
      obtain ⟨hline, hbefore⟩ := List.forall_mem_cons.1 h
      obtain ⟨rules, hholds, hread⟩ := ih hbefore
      by_cases hused : InUse (trimChars line)
      · obtain ⟨rule, hrule⟩ := hline hused
        refine ⟨rule :: rules, by simpa [hused] using ⟨hrule, hholds⟩, fun number rest => ?_⟩
        rw [List.cons_append, readLines_of_holds hused hrule, hread, List.length_cons,
          ← Nat.add_assoc, Nat.add_right_comm]
        cases readLines (number + before.length + 1) rest <;> rfl
      · refine ⟨rules, by simpa [hused] using hholds, fun number rest => ?_⟩
        rw [List.cons_append, readLines_of_not_inUse hused, hread, List.length_cons,
          ← Nat.add_assoc, Nat.add_right_comm]

/-- Lines that are not all in order have a first one that is not. -/
theorem exists_firstFault {lines : List (List Char)}
    (h : ¬ ∀ line ∈ lines, InUse (trimChars line) → ∃ rule, Holds (trimChars line) rule)
    : ∃ number fault, FirstFault lines number fault := by
  induction lines with
  | nil => exact (h (List.forall_mem_nil _)).elim
  | cons line lines ih =>
      by_cases hline : InUse (trimChars line) → ∃ rule, Holds (trimChars line) rule
      · obtain ⟨number, fault, before, bad, after, rfl, rfl, hbefore, hbad⟩ :=
          ih fun hlines => h (List.forall_mem_cons.2 ⟨hline, hlines⟩)
        exact ⟨_, fault, line :: before, bad, after, rfl, rfl,
          List.forall_mem_cons.2 ⟨hline, hbefore⟩, hbad⟩
      · obtain ⟨hused, hnone⟩ := Classical.not_imp.1 hline
        obtain ⟨fault, hfault⟩ := (holds_or_faulty (trimChars line)).resolve_left hnone
        exact ⟨1, fault, [], line, lines, rfl, rfl, List.forall_mem_nil _, hused, hfault⟩

/-- Each line holds the rule that is read from it. -/
theorem forall₂_holds_iff {lines : List (List Char)} {rules : List (Rule String)}
    : List.Forall₂ Holds lines rules ↔ lines.map read = rules.map .ok := by
  rw [← List.forall₂_eq_eq_eq, List.forall₂_map_left_iff, List.forall₂_map_right_iff]
  simp only [read_eq_ok_iff_holds]

/-- If lines hold rules one by one, each of them holds one. -/
theorem exists_rule_of_forall₂ {lines : List (List Char)} {rules : List (Rule String)}
    (h : List.Forall₂ Holds lines rules)
    : ∀ line ∈ lines, ∃ rule, Holds line rule := by
  intro line hline
  have hread := List.mem_map_of_mem (f := read) hline
  rw [forall₂_holds_iff.1 h] at hread
  obtain ⟨rule, -, hrule⟩ := List.mem_map.1 hread
  exact ⟨rule, read_eq_ok_iff_holds.1 hrule.symm⟩

/-- Lines that hold rules hold no others. -/
theorem eq_of_forall₂_holds {lines : List (List Char)} {rules others : List (Rule String)}
    (h : List.Forall₂ Holds lines rules) (k : List.Forall₂ Holds lines others)
    : rules = others := by
  rw [forall₂_holds_iff] at h k
  exact List.map_injective_iff.2 (fun _ _ => Except.ok.inj) (h.symm.trans k)

/-- More lines that hold rules hold these behind those of the others. -/
theorem exists_append_of_forall₂_holds {lines more : List (List Char)}
    {rules others : List (Rule String)} (h : List.Forall₂ Holds lines rules)
    (k : List.Forall₂ Holds (lines ++ more) others)
    : ∃ extra, others = rules ++ extra := by
  rw [forall₂_holds_iff, List.map_append, eq_comm, List.map_eq_append_iff] at k
  obtain ⟨front, extra, rfl, hfront, -⟩ := k
  exact ⟨extra, by rw [eq_of_forall₂_holds h (forall₂_holds_iff.2 hfront.symm)]⟩

/-- The same lines in another order hold the same rules in another order. -/
theorem perm_of_forall₂_holds {lines others : List (List Char)} {rules more : List (Rule String)}
    (hperm : lines.Perm others) (h : List.Forall₂ Holds lines rules)
    (k : List.Forall₂ Holds others more)
    : rules.Perm more := by
  rw [forall₂_holds_iff] at h k
  have hread := hperm.map read
  rw [h, k] at hread
  exact (List.map_perm_map_iff fun _ _ => Except.ok.inj).1 hread

-----------------------------------------------------------------------------------------
-- Whole texts
-----------------------------------------------------------------------------------------

variable {text : String}

/-- The lines in use are those of the text that are not passed over, trimmed. -/
theorem forall_mem_linesInUse {p : List Char → Prop}
    : (∀ line ∈ linesInUse text, p line)
      ↔ ∀ line ∈ lineChars text.toList, InUse (trimChars line) → p (trimChars line) := by
  simp [linesInUse, and_imp]

/-- Lines that stand behind a text, after a line feed, come behind the lines of the text. -/
theorem linesInUse_append_lineFeed (text more : String)
    : linesInUse (text ++ "\n" ++ more) = linesInUse text ++ linesInUse more := by
  have hchars : (text ++ "\n" ++ more).toList = text.toList ++ '\n' :: more.toList := by simp
  obtain ⟨front, last, happend, hlast⟩ := lineChars_append_lineFeed text.toList more.toList
  rw [linesInUse, hchars, happend, List.map_append, List.map_cons, List.append_cons,
    List.filter_append, linesInUse, linesInUse]
  congr 1
  rcases hlast with ⟨rfl, rfl⟩ | ⟨tail, rfl | rfl, hlines⟩
  · simp [InUse, trimChars, trimEndChars, trimStartChars]
  · rw [hlines, List.append_nil, List.map_append, List.map_singleton]
  · rw [hlines, List.map_append, List.map_singleton, trimChars_concat_blank last (by decide)]

/-- A text whose lines are in order gives one rule for each line in use. -/
theorem exists_readText (h : ∀ line ∈ linesInUse text, ∃ rule, Holds line rule)
    : ∃ rules, List.Forall₂ Holds (linesInUse text) rules ∧ readText text = .ok rules := by
  obtain ⟨rules, hholds, hread⟩ := readLines_append (forall_mem_linesInUse.1 h)
  refine ⟨rules, hholds, ?_⟩
  have hall := hread 1 []
  rwa [List.append_nil, readLines, Except.map, List.append_nil] at hall

/-- The first faulty line of a text is reported, as the lines before it are read. -/
theorem readText_of_firstFault {number : Nat}
    (h : FirstFault (lineChars text.toList) number fault)
    : readText text = .error (number, fault) := by
  obtain ⟨before, line, after, hlines, rfl, hbefore, hused, hfault⟩ := h
  obtain ⟨rules, -, hread⟩ := readLines_append hbefore
  rw [readText, hlines, hread, readLines_of_faulty hused hfault, Nat.add_comm]
  rfl

/-- A text is in order or has a first line that is not. -/
theorem readText_cases (text : String)
    : (∃ rules, List.Forall₂ Holds (linesInUse text) rules ∧ readText text = .ok rules)
      ∨ ∃ number fault,
          FirstFault (lineChars text.toList) number fault
          ∧ readText text = .error (number, fault) := by
  by_cases hall : ∀ line ∈ linesInUse text, ∃ rule, Holds line rule
  · exact .inl (exists_readText hall)
  · rw [forall_mem_linesInUse] at hall
    obtain ⟨number, fault, hfault⟩ := exists_firstFault hall
    exact .inr ⟨number, fault, hfault, readText_of_firstFault hfault⟩

/-- A text is read as rules exactly if its lines in use hold them one by one. -/
theorem readText_eq_ok_iff {rules : List (Rule String)}
    : readText text = .ok rules ↔ List.Forall₂ Holds (linesInUse text) rules := by
  constructor
  · intro h
    rcases readText_cases text with ⟨others, hholds, hread⟩ | ⟨number, fault, -, hread⟩
    · exact Except.ok.inj (hread.symm.trans h) ▸ hholds
    · cases h.symm.trans hread
  · intro h
    obtain ⟨others, hholds, hread⟩ := exists_readText (exists_rule_of_forall₂ h)
    rw [eq_of_forall₂_holds h hholds, hread]

/-- A text is reported exactly if the reported line is its first faulty one. -/
theorem readText_eq_error_iff {number : Nat}
    : readText text = .error (number, fault)
      ↔ FirstFault (lineChars text.toList) number fault := by
  refine ⟨fun h => ?_, readText_of_firstFault⟩
  rcases readText_cases text with ⟨rules, -, hread⟩ | ⟨other, found, hfound, hread⟩
  · cases hread.symm.trans h
  · cases hread.symm.trans h
    exact hfound

/-- Some line is at fault exactly when a line in use holds no rule.  The first such line is the one
at fault, as those in use before it hold rules. -/
theorem exists_firstFault_iff
    : (∃ number fault, FirstFault (lineChars text.toList) number fault)
      ↔ ∃ line ∈ linesInUse text, ∀ rule, ¬ Holds line rule := by
  rcases readText_cases text with ⟨rules, hholds, hread⟩ | ⟨number, fault, hfault, hread⟩
  · refine iff_of_false ?_ ?_
    · rintro ⟨number, fault, hfault⟩
      cases hread.symm.trans (readText_of_firstFault hfault)
    · rintro ⟨line, hline, hnone⟩
      obtain ⟨rule, hrule⟩ := exists_rule_of_forall₂ hholds line hline
      exact hnone rule hrule
  · refine iff_of_true ⟨number, fault, hfault⟩ ?_
    by_contra hall
    simp only [not_exists, not_and, not_forall, not_not] at hall
    obtain ⟨rules, -, hrules⟩ := exists_readText hall
    cases hread.symm.trans hrules

-----------------------------------------------------------------------------------------
-- Lines that say the same
-----------------------------------------------------------------------------------------

/-- Two words are the same, or they name one category. -/
def SameWord (word other : List Char) : Prop :=
  word = other ∨ ∃ tag : Tag, tag.Names word ∧ tag.Names other

/-- Two lines have the same name on the left and the same symbols on the right. -/
def SameRule (line other : List Char) : Prop :=
  ∃ left right left' right',
    Sides line left right
    ∧ Sides other left' right'
    ∧ trimChars left = trimChars left'
    ∧ List.Forall₂ SameWord (wordChars right) (wordChars right')

/-- The same word denotes the same symbol, whatever the letter case of a category. -/
theorem SameWord.ofWord_eq {word other : List Char} (h : SameWord word other)
    : Symbol.ofWord (String.ofList word) = Symbol.ofWord (String.ofList other) := by
  rcases h with rfl | ⟨tag, hword, hother⟩
  · rfl
  · exact (Symbol.denoted_iff.1 (.terminal hword)).trans
      (Symbol.denoted_iff.1 (.terminal hother)).symm

/-- The same words are read as the same right side. -/
theorem readBody_congr {words others : List (List Char)} (h : List.Forall₂ SameWord words others)
    : readBody (words.map String.ofList) = readBody (others.map String.ofList) := by
  match h with
  | .nil => rfl
  | .cons hword .nil => simp [readBody, hword.ofWord_eq]
  | .cons hfirst (.cons hsecond .nil) => simp [readBody, hfirst.ofWord_eq, hsecond.ofWord_eq]
  | .cons _ (.cons _ (.cons _ hrest)) => simp [readBody, hrest.length_eq]

/-- The same rule is read alike whatever stands between its words. -/
theorem SameRule.read_eq {other : List Char} (h : SameRule line other)
    : read line = read other := by
  obtain ⟨left, right, left', right', hsides, hsides', hname, hwords⟩ := h
  rw [hsides.read_eq, hsides'.read_eq, readBody_congr hwords]
  simp only [readHead, hname]

/-- Where the lines in use say the same, so do the texts. -/
theorem readText_congr {other : String} {rules : List (Rule String)}
    (h : List.Forall₂ SameRule (linesInUse text) (linesInUse other))
    (hread : readText text = .ok rules)
    : readText other = .ok rules := by
  have hlines : (linesInUse text).map read = (linesInUse other).map read := by
    rw [← List.forall₂_eq_eq_eq, List.forall₂_map_left_iff, List.forall₂_map_right_iff]
    exact h.imp fun _ _ => SameRule.read_eq
  rw [readText_eq_ok_iff, forall₂_holds_iff] at hread ⊢
  rw [← hlines, hread]

end Rule

namespace Grammar

open Rule

/-- Only a line that is at fault makes a text malformed.  A cycle of unit rules is reported
otherwise, and only after all lines are read. -/
theorem compile_malformed_iff {text : String} {number : Nat} {fault : RuleFault}
    : compile text = .error (.malformed number fault)
      ↔ FirstFault (lineChars text.toList) number fault := by
  rw [← readText_eq_error_iff]
  constructor
  · intro h
    rw [compile] at h
    split at h
    · rename_i line found hread
      cases h
      exact hread
    · obtain ⟨name, heq, -⟩ := onUnitCycle_of_ofRules_error h
      cases heq
  · intro h
    rw [compile, h]

/-- Rules compile to themselves unless some of them form a cycle. -/
theorem ofRules_decides (rules : List (Rule String))
    : ((∃ name, OnUnitCycle rules name) ∧ ∃ name, ofRules rules = .error (.unitCycle name))
      ∨ (∀ name, ¬ OnUnitCycle rules name)
        ∧ ∃ grammar,
          ofRules rules = .ok grammar
          ∧ grammar.rules.map (Rule.map grammar.nonterminalName) = rules := by
  cases hrules : ofRules rules with
  | ok grammar =>
      exact .inr ⟨not_onUnitCycle_of_ofRules hrules, grammar, rfl,
        map_nonterminalName_of_ofRules hrules⟩
  | error error =>
      obtain ⟨name, rfl, hcycle⟩ := onUnitCycle_of_ofRules_error hrules
      exact .inl ⟨⟨name, hcycle⟩, name, rfl⟩

/-- A line at fault is reported with its number, the first one before all others and before any
cycle of unit rules, and only a category on the left has a code of its own.  Lines in order compile
to their rules, one for each line in use, and nothing else in the text shows in the grammar. -/
theorem compile_reads_lines (text : String)
    : (∀ number fault,
        compile text = .error (.malformed number fault)
        ↔ FirstFault (lineChars text.toList) number fault)
      ∧ (∀ number fault,
        (GrammarError.malformed number fault).diagnostic
          = ⟨.grammar, fault.code, none,
              some ("line " ++ toString number ++ ": " ++ fault.message)⟩
        ∧ (fault.code = .terminalOnLeft ↔ ∃ name, fault = .terminalOnLeft name)
        ∧ (fault.code = .malformedRule ↔ ∀ name, fault ≠ .terminalOnLeft name))
      ∧ ((∃ number fault, compile text = .error (.malformed number fault))
        ↔ ∃ line ∈ linesInUse text, ∀ rule, ¬ Holds line rule)
      ∧ ((∀ line ∈ linesInUse text, ∃ rule, Holds line rule)
        → ∃ rules,
          List.Forall₂ Holds (linesInUse text) rules
          ∧ (((∃ name, OnUnitCycle rules name) ∧ ∃ name, compile text = .error (.unitCycle name))
            ∨ (∀ name, ¬ OnUnitCycle rules name)
              ∧ ∃ grammar,
                compile text = .ok grammar
                ∧ grammar.rules.map (Rule.map grammar.nonterminalName) = rules))
      ∧ ∀ other grammar,
        List.Forall₂ SameRule (linesInUse text) (linesInUse other)
        → compile text = .ok grammar
        → compile other = .ok grammar := by
  refine ⟨fun number fault => compile_malformed_iff, fun number fault => ⟨rfl, ?_, ?_⟩, ?_,
    fun hall => ?_, fun other grammar hsame hgrammar => ?_⟩
  · cases fault <;> simp [RuleFault.code]
  · cases fault <;> simp [RuleFault.code]
  · simp only [compile_malformed_iff]
    exact exists_firstFault_iff
  · obtain ⟨rules, hholds, hread⟩ := exists_readText hall
    refine ⟨rules, hholds, ?_⟩
    rw [compile_of_readText hread]
    exact ofRules_decides rules
  · obtain ⟨rules, hread, hrules⟩ := exists_rules_of_compile hgrammar
    rw [compile_of_readText (readText_congr hsame hread), hrules]

-- The cycle is passed over for the later line, and the count of symbols for the name before it.
example
    : (compile "# x\r\na = a\n\nNumber = b c d").map render
      = .error (.malformed 4 (.terminalOnLeft "Number")) := by
  decide +kernel

end Grammar

end Formulary
