import Formulary.Proofs.Text.Lines
import Mathlib.Data.List.Forall2
import Mathlib.Data.List.ModifyLast

/-! The lines of a text that are not blank.
They are those of its parts where a line feed stands between two parts.  A line that is indented and
ended by a line feed is read back without one carriage return at its end.  Trimming a text trims the
start of the first of these lines and the end of the last one, and changes no other.
-/

namespace Formulary.Text

-----------------------------------------------------------------------------------------
-- Parts of a text
-----------------------------------------------------------------------------------------

/-- The lines that are not blank. -/
def nonBlankLineChars (chars : List Char) : List (List Char) :=
  (lineChars chars).filter (!·.all isBlank)

def nonBlankLines (text : String) : List String :=
  (lines text).filter (!isBlankText ·)

/-- The lines with something on them are those of the characters. -/
theorem nonBlankLines_eq_map (text : String)
    : nonBlankLines text = (nonBlankLineChars text.toList).map String.ofList := by
  rw [nonBlankLines, lines, List.filter_map, nonBlankLineChars]
  congr 2
  funext line
  simp [isBlankText]

/-- A line feed separates the lines on its two sides.  By induction along the lines of the first
part: a carriage return at its end goes with the line feed. -/
theorem lineChars_append_cons_newline (first rest : List Char)
    : lineChars (first ++ '\n' :: rest) = lineChars (first ++ ['\n']) ++ lineChars rest := by
  induction first using lineChars.induct with
  | case1 => simp [lineChars]
  | case2 first ih => simpa [lineChars] using ih
  | case3 first ih => simpa [lineChars] using ih
  | case4 c first _ hfeed hnil =>
      obtain rfl := lineChars_eq_nil_iff.1 hnil
      by_cases hc : c = '\r'
      · simp [lineChars, hc]
      · simp [lineChars, hc]
  | case5 c first hreturn hfeed line lines hlines ih =>
      -- Something stands between the character and the line feed, so they end no line together.
      have hbreak := append_ne_newline_cons (by simp [hlines]) hreturn
      have hne : lineChars (first ++ ['\n']) ≠ [] := by simp [lineChars_eq_nil_iff]
      obtain ⟨next, others, hnext⟩ := List.exists_cons_of_ne_nil hne
      rw [List.cons_append, List.cons_append, lineChars_cons hfeed (hbreak _), ih, hnext,
        lineChars_cons hfeed (hbreak _), hnext]
      rfl

/-- No line has a line feed on it, by induction along the lines. -/
theorem newline_not_mem_lineChars (chars : List Char)
    : ∀ line ∈ lineChars chars, '\n' ∉ line := by
  induction chars using lineChars.induct with
  | case1 => simp [lineChars]
  | case2 chars ih => simpa [lineChars] using ih
  | case3 chars ih => simpa [lineChars] using ih
  | case4 c chars hreturn hfeed hnil =>
      rw [lineChars_cons hfeed hreturn, hnil]
      simpa [eq_comm] using hfeed
  | case5 c chars hreturn hfeed line lines hlines ih =>
      rw [hlines, List.forall_mem_cons] at ih
      rw [lineChars_cons hfeed hreturn, hlines, List.forall_mem_cons]
      refine ⟨fun hmem => ?_, ih.2⟩
      rcases List.mem_cons.1 hmem with rfl | hmem
      · exact hfeed rfl
      · exact ih.1 hmem

/-- A line without the carriage return at its end, if it has one there. -/
def dropReturnChars : List Char → List Char
  | [] => []
  | ['\r'] => []
  | c :: chars => c :: dropReturnChars chars

/-- Only a carriage return at the very end is dropped. -/
theorem dropReturnChars_cons {c : Char} {chars : List Char} (h : c = '\r' → chars ≠ [])
    : dropReturnChars (c :: chars) = c :: dropReturnChars chars := by
  cases chars with
  | nil => simp [dropReturnChars]
  | cons d chars => simp [dropReturnChars]

/-- Characters that are no carriage returns stay. -/
theorem dropReturnChars_append {first : List Char} (h : '\r' ∉ first) (second : List Char)
    : dropReturnChars (first ++ second) = first ++ dropReturnChars second := by
  induction first with
  | nil => rfl
  | cons c first ih =>
      obtain ⟨hc, hfirst⟩ := not_or.1 (mt List.mem_cons.2 h)
      rw [List.cons_append, dropReturnChars_cons fun heq => (hc heq.symm).elim, ih hfirst,
        List.cons_append]

/-- A line feed takes away the carriage return in front of it.  By induction on the line, which has
no other line feed. -/
theorem lineChars_append_of_not_mem {line : List Char} (h : '\n' ∉ line) (rest : List Char)
    : lineChars (line ++ '\n' :: rest) = dropReturnChars line :: lineChars rest := by
  induction line with
  | nil => simp [lineChars, dropReturnChars]
  | cons c line ih =>
      obtain ⟨hfeed, hline⟩ := not_or.1 (mt List.mem_cons.2 h)
      by_cases hbreak : c = '\r' ∧ line = []
      · obtain ⟨rfl, rfl⟩ := hbreak
        simp [lineChars, dropReturnChars]
      · have hreturn : ∀ more, c = '\r' → line ++ '\n' :: rest ≠ '\n' :: more := by
          rintro more hc heq
          cases line with
          | nil => exact hbreak ⟨hc, rfl⟩
          | cons d line =>
              obtain ⟨rfl, -⟩ := List.cons.inj heq
              exact hline List.mem_cons_self
        rw [List.cons_append, lineChars_cons (Ne.symm hfeed) hreturn, ih hline,
          dropReturnChars_cons fun hc hnil => hbreak ⟨hc, hnil⟩]

/-- Dropping a carriage return adds no characters. -/
theorem dropReturnChars_sublist (chars : List Char)
    : (dropReturnChars chars).Sublist chars := by
  induction chars using dropReturnChars.induct with
  | case1 => exact List.nil_sublist _
  | case2 => exact List.nil_sublist _
  | case3 c chars h ih =>
      rw [dropReturnChars_cons h]
      exact ih.cons_cons c

/-- A line without so many carriage returns at its end, as far as they are there. -/
def dropReturnsChars : Nat → List Char → List Char
  | 0, chars => chars
  | count + 1, chars => dropReturnChars (dropReturnsChars count chars)

/-- Dropping carriage returns adds no characters, by induction on their number. -/
theorem dropReturnsChars_sublist (count : Nat) (chars : List Char)
    : (dropReturnsChars count chars).Sublist chars := by
  induction count with
  | zero => exact List.Sublist.refl _
  | succ count ih => exact (dropReturnChars_sublist _).trans ih

/-- A carriage return that is there goes the first time one is dropped.  None comes back later,
since dropping adds no characters. -/
theorem dropReturnsChars_eq_self_iff {count : Nat} {chars : List Char}
    : dropReturnsChars count chars = chars ↔ count = 0 ∨ dropReturnChars chars = chars := by
  induction count with
  | zero => simp [dropReturnsChars]
  | succ count ih =>
      rw [dropReturnsChars]
      simp only [Nat.succ_ne_zero, false_or]
      constructor
      · intro h
        have hsublist : chars.Sublist (dropReturnsChars count chars) := by
          conv => lhs; rw [← h]
          exact dropReturnChars_sublist _
        have heq := hsublist.antisymm (dropReturnsChars_sublist count chars)
        rwa [← heq] at h
      · intro h
        rw [ih.2 (.inr h), h]

/-- A carriage return is a blank, so dropping it leaves a blank line blank and no other. -/
theorem all_isBlank_dropReturnChars (chars : List Char)
    : (dropReturnChars chars).all isBlank = chars.all isBlank := by
  induction chars using dropReturnChars.induct with
  | case1 => rfl
  | case2 => rfl
  | case3 c chars h ih => rw [dropReturnChars_cons h, List.all_cons, ih, List.all_cons]

/-- A line feed inside a text splits its lines in two parts. -/
theorem nonBlankLineChars_append_cons_newline (first rest : List Char)
    : nonBlankLineChars (first ++ '\n' :: rest)
      = nonBlankLineChars (first ++ ['\n']) ++ nonBlankLineChars rest := by
  rw [nonBlankLineChars, lineChars_append_cons_newline, List.filter_append, nonBlankLineChars,
    nonBlankLineChars]

/-- A character that ends no line joins the last line in front of it, if that is not ended.  By
induction along the lines of the text in front of it. -/
theorem lineChars_concat {c : Char} (hc : c ≠ '\n') (chars : List Char)
    : ∃ front last,
        lineChars (chars ++ [c]) = front ++ [last ++ [c]]
        ∧ (lineChars chars = front ∧ last = [] ∨ lineChars chars = front ++ [last]) := by
  have hsingle : lineChars [c] = [[c]] := by
    rw [lineChars_cons hc fun _ _ h => List.cons_ne_nil _ _ h.symm]
    rfl
  induction chars using lineChars.induct with
  | case1 => exact ⟨[], [], hsingle, .inl ⟨rfl, rfl⟩⟩
  | case2 chars ih =>
      obtain ⟨front, last, happend, hlast⟩ := ih
      exact ⟨[] :: front, last, by simp [lineChars, happend], by simpa [lineChars] using hlast⟩
  | case3 chars ih =>
      obtain ⟨front, last, happend, hlast⟩ := ih
      exact ⟨[] :: front, last, by simp [lineChars, happend], by simpa [lineChars] using hlast⟩
  | case4 d chars hreturn hfeed hnil =>
      obtain rfl := lineChars_eq_nil_iff.1 hnil
      refine ⟨[], [d], ?_, .inr (by rw [lineChars_cons hfeed hreturn, hnil]; rfl)⟩
      rw [List.singleton_append, lineChars_cons hfeed fun _ _ heq => hc (List.cons.inj heq).1,
        hsingle]
      rfl
  | case5 d chars hreturn hfeed line lines hlines ih =>
      obtain ⟨front, last, happend, hlast⟩ := ih
      have hbreak := append_ne_newline_cons (by simp [hlines]) hreturn [c]
      rw [List.cons_append, lineChars_cons hfeed hbreak, lineChars_cons hfeed hreturn, happend,
        hlines]
      rw [hlines] at hlast
      rcases hlast with ⟨rfl, rfl⟩ | hlast
      · exact ⟨(d :: line) :: lines, [], rfl, .inl ⟨rfl, rfl⟩⟩
      · cases front with
        | nil =>
            obtain ⟨rfl, rfl⟩ := List.cons.inj hlast
            exact ⟨[], d :: line, rfl, .inr rfl⟩
        | cons first front =>
            obtain ⟨rfl, rfl⟩ := List.cons.inj hlast
            exact ⟨(d :: line) :: front, last, rfl, .inr rfl⟩

/-- A line feed at the end changes no line but one that ends in a carriage return.  If the last line
was ended already, another line feed makes a blank one. -/
theorem nonBlankLineChars_concat_newline {chars : List Char} (h : chars.getLast? ≠ some '\r')
    : nonBlankLineChars (chars ++ ['\n']) = nonBlankLineChars chars := by
  rcases List.eq_nil_or_concat' chars with rfl | ⟨init, c, rfl⟩
  · rfl
  rw [List.getLast?_concat, ne_eq, Option.some_inj] at h
  by_cases hc : c = '\n'
  · have hsplit := nonBlankLineChars_append_cons_newline init ['\n']
    simpa [hc, nonBlankLineChars, lineChars] using hsplit
  · obtain ⟨front, last, hlines, -⟩ := lineChars_concat hc init
    obtain ⟨others, line, happend, hline⟩ := lineChars_append_lineFeed (init ++ [c]) []
    rw [nonBlankLineChars, nonBlankLineChars, happend]
    rcases hline with ⟨hfront, rfl⟩ | ⟨tail, rfl | rfl, hfront⟩
    · simp [hfront, lineChars]
    · simp [hfront, lineChars]
    · -- The last line ends in the last character, which is no carriage return.
      rw [hlines] at hfront
      have hend := (List.append_inj' hfront rfl).2
      simp only [List.cons.injEq, and_true] at hend
      exact (h (List.singleton_inj.1 (List.append_inj' hend rfl).2)).elim

-----------------------------------------------------------------------------------------
-- Trimming
-----------------------------------------------------------------------------------------

/-- A blank at the front is trimmed. -/
theorem trimStartChars_cons_of_blank {c : Char} (hc : isBlank c = true) (chars : List Char)
    : trimStartChars (c :: chars) = trimStartChars chars :=
  List.dropWhile_cons_of_pos hc

/-- Nothing is trimmed in front of another character. -/
theorem trimStartChars_cons_of_not_blank {c : Char} (hc : isBlank c = false) (chars : List Char)
    : trimStartChars (c :: chars) = c :: chars :=
  List.dropWhile_cons_of_neg (by simp [hc])

/-- A blank at the end is trimmed. -/
theorem trimEndChars_concat_of_blank {c : Char} (hc : isBlank c = true) (chars : List Char)
    : trimEndChars (chars ++ [c]) = trimEndChars chars := by
  simp [trimEndChars, hc]

/-- Nothing is trimmed behind another character. -/
theorem trimEndChars_concat_of_not_blank {c : Char} (hc : isBlank c = false) (chars : List Char)
    : trimEndChars (chars ++ [c]) = chars ++ [c] := by
  simp [trimEndChars, hc]

/-- The first line is kept if there is something on it, and then the others that have something on
them. -/
theorem nonBlankLineChars_eq_filter_cons {chars line : List Char} {lines : List (List Char)}
    (h : lineChars chars = line :: lines)
    : nonBlankLineChars chars
      = (if line.all isBlank then [] else [line]) ++ lines.filter (!·.all isBlank) := by
  rw [nonBlankLineChars, h, List.filter_cons]
  cases line.all isBlank <;> rfl

/-- Trimming the start trims the start of the first line that is not blank.  Blank lines in front of
it are trimmed away, and do not count among those that are not blank. -/
theorem nonBlankLineChars_trimStartChars (chars : List Char)
    : nonBlankLineChars (trimStartChars chars)
      = (nonBlankLineChars chars).modifyHead trimStartChars := by
  induction chars using lineChars.induct with
  | case1 => rfl
  | case2 chars ih =>
      rw [trimStartChars_cons_of_blank rfl, trimStartChars_cons_of_blank rfl, ih]
      rfl
  | case3 chars ih =>
      rw [trimStartChars_cons_of_blank rfl, ih]
      simp [nonBlankLineChars, lineChars]
  | case4 c chars hreturn hfeed hnil =>
      obtain rfl := lineChars_eq_nil_iff.1 hnil
      have hlines : lineChars [c] = [[c]] := by
        rw [lineChars_cons hfeed hreturn]
        rfl
      cases hc : isBlank c with
      | true =>
          rw [trimStartChars_cons_of_blank hc, nonBlankLineChars_eq_filter_cons hlines]
          simp [hc, nonBlankLineChars, trimStartChars, lineChars]
      | false =>
          rw [trimStartChars_cons_of_not_blank hc, nonBlankLineChars_eq_filter_cons hlines]
          simp [hc, trimStartChars]
  | case5 c chars hreturn hfeed line lines hlines ih =>
      have hcons : lineChars (c :: chars) = (c :: line) :: lines := by
        rw [lineChars_cons hfeed hreturn, hlines]
      cases hc : isBlank c with
      | true =>
          rw [trimStartChars_cons_of_blank hc, ih, nonBlankLineChars_eq_filter_cons hlines,
            nonBlankLineChars_eq_filter_cons hcons, List.all_cons, hc, Bool.true_and]
          cases line.all isBlank with
          | true => rfl
          | false => simp [trimStartChars_cons_of_blank hc]
      | false =>
          rw [trimStartChars_cons_of_not_blank hc, nonBlankLineChars_eq_filter_cons hcons,
            List.all_cons, hc]
          simp [trimStartChars_cons_of_not_blank hc]

/-- Blanks at the end of the last line take no part in what trimming its end leaves. -/
theorem modifyLast_trimEndChars_filter {line other : List Char}
    (h : trimEndChars line = trimEndChars other) (front : List (List Char))
    : ((front ++ [line]).filter (!·.all isBlank)).modifyLast trimEndChars
      = ((front ++ [other]).filter (!·.all isBlank)).modifyLast trimEndChars := by
  have hblank : line.all isBlank = other.all isBlank := by
    rw [Bool.eq_iff_iff, ← trimEndChars_eq_nil_iff, ← trimEndChars_eq_nil_iff, h]
  rw [List.filter_append, List.filter_append]
  cases hother : other.all isBlank with
  | true => simp [hblank.trans hother, hother]
  | false =>
      rw [List.filter_cons_of_pos (by simp [hblank.trans hother]),
        List.filter_cons_of_pos (by simp [hother]), List.filter_nil, List.modifyLast_concat,
        List.modifyLast_concat, h]

/-- A blank behind a text only shows at the end of its last line, if that has something on it.  It
may also be a line feed, which starts no line, or the first character of a line, which is then
blank. -/
theorem modifyLast_nonBlankLineChars_concat {c : Char} (hc : isBlank c = true)
    (chars : List Char)
    : (nonBlankLineChars (chars ++ [c])).modifyLast trimEndChars
      = (nonBlankLineChars chars).modifyLast trimEndChars := by
  by_cases hfeed : c = '\n'
  · obtain ⟨front, last, happend, hlast⟩ := lineChars_append_lineFeed chars []
    rw [hfeed, nonBlankLineChars, nonBlankLineChars, happend]
    rcases hlast with ⟨hlines, rfl⟩ | ⟨tail, rfl | rfl, hlines⟩
    · simp [hlines, lineChars]
    · simp [hlines, lineChars]
    · rw [hlines]
      exact modifyLast_trimEndChars_filter (trimEndChars_concat_of_blank rfl last).symm front
  · obtain ⟨front, last, happend, hlast⟩ := lineChars_concat hfeed chars
    rw [nonBlankLineChars, nonBlankLineChars, happend]
    rcases hlast with ⟨hlines, rfl⟩ | hlines
    · simp [hlines, hc]
    · rw [hlines]
      exact modifyLast_trimEndChars_filter (trimEndChars_concat_of_blank hc last) front

/-- Trimming the end trims the end of the last line that is not blank, by induction on the text from
its end. -/
theorem nonBlankLineChars_trimEndChars (chars : List Char)
    : nonBlankLineChars (trimEndChars chars)
      = (nonBlankLineChars chars).modifyLast trimEndChars := by
  induction chars using List.reverseRecOn with
  | nil => rfl
  | append_singleton chars c ih =>
      cases hc : isBlank c with
      | true =>
          rw [trimEndChars_concat_of_blank hc, ih, modifyLast_nonBlankLineChars_concat hc]
      | false =>
          have hfeed : c ≠ '\n' := by
            rintro rfl
            exact Bool.noConfusion hc
          obtain ⟨front, last, happend, -⟩ := lineChars_concat hfeed chars
          rw [trimEndChars_concat_of_not_blank hc, nonBlankLineChars, happend, List.filter_append,
            List.filter_cons_of_pos (by simp [hc]), List.filter_nil, List.modifyLast_concat,
            trimEndChars_concat_of_not_blank hc]

-----------------------------------------------------------------------------------------
-- Lines that stay as they are
-----------------------------------------------------------------------------------------

/-- Holds of lines that are parts of others, one by one. -/
def AreParts (lines others : List (List Char)) : Prop :=
  List.Forall₂ List.Sublist lines others

/-- Parts of parts are parts, line by line. -/
theorem AreParts.trans {first second third : List (List Char)} (h : AreParts first second)
    (hthird : AreParts second third)
    : AreParts first third := by
  induction h generalizing third with
  | nil => exact hthird
  | cons hline _ ih =>
      cases hthird with
      | cons hnext hothers => exact .cons (hline.trans hnext) (ih hothers)

/-- Lines that are parts of each other are the same, as neither can be shorter. -/
theorem AreParts.antisymm {lines others : List (List Char)} (h : AreParts lines others)
    (hothers : AreParts others lines)
    : lines = others := by
  induction h with
  | nil => rfl
  | cons hline _ ih =>
      cases hothers with
      | cons hother hothers => rw [hline.antisymm hother, ih hothers]

/-- Lines that each lose characters are parts of what they were. -/
theorem areParts_map {f : List Char → List Char} (h : ∀ line, (f line).Sublist line)
    (lines : List (List Char))
    : AreParts (lines.map f) lines :=
  List.forall₂_map_left_iff.2 (List.forall₂_same.2 fun line _ => h line)

/-- If the first line loses characters, the lines are parts of what they were. -/
theorem areParts_modifyHead {f : List Char → List Char} (h : ∀ line, (f line).Sublist line)
    (lines : List (List Char))
    : AreParts (lines.modifyHead f) lines := by
  cases lines with
  | nil => exact .nil
  | cons line lines =>
      have hlines := List.forall₂_same.2 fun line (_ : line ∈ lines) => List.Sublist.refl line
      exact .cons (h line) hlines

/-- If the last line loses characters, the lines are parts of what they were. -/
theorem areParts_modifyLast {f : List Char → List Char} (h : ∀ line, (f line).Sublist line)
    (lines : List (List Char))
    : AreParts (lines.modifyLast f) lines := by
  rcases List.eq_nil_or_concat' lines with rfl | ⟨front, last, rfl⟩
  · exact .nil
  · rw [List.modifyLast_concat]
    have hfront := List.forall₂_same.2 fun line (_ : line ∈ front) => List.Sublist.refl line
    exact List.rel_append hfront (.cons (h last) .nil)

/-- Changing the first item leaves the list exactly if it leaves that item. -/
theorem modifyHead_eq_self_iff {f : α → α} {items : List α}
    : items.modifyHead f = items ↔ ∀ a ∈ items.head?, f a = a := by
  cases items <;> simp

/-- Changing the last item leaves the list exactly if it leaves that item. -/
theorem modifyLast_eq_self_iff {f : α → α} {items : List α}
    : items.modifyLast f = items ↔ ∀ a ∈ items.getLast?, f a = a := by
  rcases List.eq_nil_or_concat' items with rfl | ⟨front, last, rfl⟩
  · exact ⟨fun _ _ h => (Option.not_mem_none _ h).elim, fun _ => rfl⟩
  · simp [List.modifyLast_concat]

/-- Trimmed lines without carriage returns at their ends are the lines there were exactly if there
was nothing to trim and nothing to drop. -/
theorem map_modifyLast_modifyHead_eq_iff {lines : List (List Char)} {count : Nat}
    : ((lines.modifyHead trimStartChars).modifyLast trimEndChars).map (dropReturnsChars count)
          = lines
      ↔ (∀ line ∈ lines.head?, trimStartChars line = line)
        ∧ (∀ line ∈ lines.getLast?, trimEndChars line = line)
        ∧ ∀ line ∈ lines, count = 0 ∨ dropReturnChars line = line := by
  rw [← modifyHead_eq_self_iff, ← modifyLast_eq_self_iff]
  have hhead := areParts_modifyHead (f := trimStartChars) (fun _ => List.dropWhile_sublist _) lines
  have hlast :=
    areParts_modifyLast (f := trimEndChars) (fun line => ( trimEndChars_prefix line).sublist)
      (lines.modifyHead trimStartChars)
  have hreturns :=
    areParts_map (dropReturnsChars_sublist count)
      ((lines.modifyHead trimStartChars).modifyLast trimEndChars)
  constructor
  · intro h
    rw [h] at hreturns
    -- Each step only shortens lines, and all together shorten none.
    have hstart : lines.modifyHead trimStartChars = lines :=
      hhead.antisymm (hreturns.trans hlast)
    rw [hstart] at h hlast hreturns
    have hend : lines.modifyLast trimEndChars = lines := hlast.antisymm hreturns
    rw [hend] at h
    refine ⟨hstart, hend, fun line hline => dropReturnsChars_eq_self_iff.1 ?_⟩
    exact List.map_inj_left.1 (h.trans (List.map_id lines).symm) line hline
  · rintro ⟨hstart, hend, hlines⟩
    rw [hstart, hend]
    have hkept : ∀ line ∈ lines, dropReturnsChars count line = id line := fun line hline =>
      dropReturnsChars_eq_self_iff.2 (hlines line hline)
    rw [List.map_congr_left hkept, List.map_id]

-----------------------------------------------------------------------------------------
-- Texts
-----------------------------------------------------------------------------------------

/-- A line without the carriage return at its end, if it has one there. -/
def dropReturn (line : String) : String :=
  String.ofList (dropReturnChars line.toList)

/-- A line without so many carriage returns at its end, as far as they are there. -/
def dropReturns (count : Nat) (line : String) : String :=
  String.ofList (dropReturnsChars count line.toList)

/-- Carriage returns are dropped one after another. -/
theorem dropReturns_succ (count : Nat) (line : String)
    : dropReturns (count + 1) line = dropReturn (dropReturns count line) := by
  rw [dropReturns, dropReturnsChars, dropReturn, dropReturns, String.toList_ofList]

/-- Only the end of a text can lose a carriage return, if there is none in front. -/
theorem dropReturn_append {first : String} (h : '\r' ∉ first.toList) (second : String)
    : dropReturn (first ++ second) = first ++ dropReturn second := by
  rw [dropReturn, String.toList_append, dropReturnChars_append h, String.ofList_append,
    String.ofList_toList, dropReturn]

/-- A line feed separates the lines on its two sides. -/
theorem nonBlankLines_append_newline (first rest : String)
    : nonBlankLines (first ++ "\n" ++ rest)
      = nonBlankLines (first ++ "\n") ++ nonBlankLines rest := by
  have hfirst : (first ++ "\n").toList = first.toList ++ ['\n'] := by simp
  have hrest : (first ++ "\n" ++ rest).toList = first.toList ++ '\n' :: rest.toList := by simp
  rw [nonBlankLines_eq_map, nonBlankLines_eq_map, nonBlankLines_eq_map, hrest, hfirst,
    nonBlankLineChars_append_cons_newline, List.map_append]

/-- A line feed at the end starts no line, and ends the last one as it was unless that ends in a
carriage return. -/
theorem nonBlankLines_newline {text : String} (h : text.toList.getLast? ≠ some '\r')
    : nonBlankLines (text ++ "\n") = nonBlankLines text := by
  have htext : (text ++ "\n").toList = text.toList ++ ['\n'] := by simp
  rw [nonBlankLines_eq_map, nonBlankLines_eq_map, htext, nonBlankLineChars_concat_newline h]

/-- No line has a line feed on it. -/
theorem newline_not_mem_of_mem_nonBlankLines {text line : String} (h : line ∈ nonBlankLines text)
    : '\n' ∉ line.toList := by
  rw [nonBlankLines_eq_map] at h
  obtain ⟨chars, hchars, rfl⟩ := List.mem_map.1 h
  rw [String.toList_ofList]
  exact newline_not_mem_lineChars _ chars (List.mem_of_mem_filter hchars)

/-- An indented line with something on it is one line, without a carriage return at its end. -/
theorem nonBlankLines_indented {line : String} (hblank : isBlankText line = false)
    (hfeed : '\n' ∉ line.toList)
    : nonBlankLines ("  " ++ line ++ "\n") = ["  " ++ dropReturn line] := by
  have hchars : ("  " ++ line ++ "\n").toList = ' ' :: ' ' :: line.toList ++ ['\n'] := by simp
  have hindented : '\n' ∉ ' ' :: ' ' :: line.toList := by simpa using hfeed
  have hreturn : (dropReturnChars line.toList).all isBlank = false := by
    rw [all_isBlank_dropReturnChars]
    exact hblank
  rw [nonBlankLines_eq_map, hchars, nonBlankLineChars, lineChars_append_of_not_mem hindented,
    dropReturnChars_cons (by simp), dropReturnChars_cons (by simp),
    List.filter_cons_of_pos (by simp [hreturn])]
  simp [lineChars, dropReturn, ← String.toList_inj]

/-- Lines that are indented are read back, each without one carriage return at its end. -/
theorem nonBlankLines_join_indentLine {indented : List String}
    (h : ∀ line ∈ indented, isBlankText line = false ∧ '\n' ∉ line.toList) (rest : String)
    : nonBlankLines (String.join (indented.map indentLine) ++ rest)
      = indented.map (fun line => "  " ++ dropReturn line) ++ nonBlankLines rest := by
  induction indented with
  | nil => simp
  | cons line indented ih =>
      obtain ⟨⟨hblank, hfeed⟩, hothers⟩ := List.forall_mem_cons.1 h
      have hline := nonBlankLines_indented hblank hfeed
      rw [List.map_cons, String.join_cons, indentLine, String.append_assoc,
        nonBlankLines_append_newline, hline, ih hothers]
      rfl

/-- What is left of the lines that are not blank when a text is trimmed and carriage returns are
dropped are those lines exactly if the first begins with no blank, the last ends with none, and no
line ends with a carriage return that is dropped. -/
theorem map_dropReturns_nonBlankLines_trim_eq_iff {text : String} {count : Nat}
    : (nonBlankLines (trim text)).map (dropReturns count) = nonBlankLines text
      ↔ (∀ line ∈ (nonBlankLines text).head?, trimStart line = line)
        ∧ (∀ line ∈ (nonBlankLines text).getLast?, trimEnd line = line)
        ∧ ∀ line ∈ nonBlankLines text, count = 0 ∨ dropReturn line = line := by
  have htrim
      : nonBlankLineChars (trim text).toList
        = ((nonBlankLineChars text.toList).modifyHead trimStartChars).modifyLast
            trimEndChars := by
    rw [trim, String.toList_ofList, trimChars, nonBlankLineChars_trimEndChars,
      nonBlankLineChars_trimStartChars]
  have hreturns : dropReturns count ∘ String.ofList = String.ofList ∘ dropReturnsChars count := by
    funext line
    simp [dropReturns]
  have hinjective : Function.Injective String.ofList := fun _ _ h => String.ofList_inj.1 h
  rw [nonBlankLines_eq_map, nonBlankLines_eq_map, htrim, List.map_map, hreturns, ← List.map_map,
    hinjective.list_map.eq_iff, map_modifyLast_modifyHead_eq_iff]
  simp [trimStart, trimEnd, dropReturn, String.ofList_inj]

end Formulary.Text
