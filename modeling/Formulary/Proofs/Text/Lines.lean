import Formulary.Proofs.Text.Blank
import Formulary.Text

/-! Taking a text apart into the lines it was put together from.
A character run without line ends is one line, whether a line feed ends it or the text does.  Taken
apart at its line feeds alone, a text that ends in one has an empty part behind it, and texts with
line feeds between them have the parts of all of them.
-/

namespace Formulary.Text

-----------------------------------------------------------------------------------------
-- Characters
-----------------------------------------------------------------------------------------

/-- Holds of characters that lie on one line. -/
def IsLine (chars : List Char) : Prop :=
  ∀ c ∈ chars, c ≠ '\n' ∧ c ≠ '\r'

/-- The empty text has no line break. -/
@[simp]
theorem isLine_nil
    : IsLine [] :=
  List.forall_mem_nil _

/-- A text has no line break if its first character is none and the others have none. -/
@[simp]
theorem isLine_cons {c : Char} {chars : List Char}
    : IsLine (c :: chars) ↔ (c ≠ '\n' ∧ c ≠ '\r') ∧ IsLine chars :=
  List.forall_mem_cons

/-- Texts side by side have no line break if neither of them has one. -/
@[simp]
theorem isLine_append {first second : List Char}
    : IsLine (first ++ second) ↔ IsLine first ∧ IsLine second :=
  List.forall_mem_append

/-- Every part of a line lies on one line. -/
theorem IsLine.subset {chars part : List Char} (h : IsLine chars) (hpart : part ⊆ chars)
    : IsLine part :=
  fun c hc => h c (hpart hc)

/-- Characters that end lines are blanks, so a word lies on one line. -/
theorem IsWord.isLine {word : List Char} (h : IsWord word)
    : IsLine word := by
  intro c hc
  have hblank := h.2 c hc
  constructor
  · rintro rfl
    exact Bool.noConfusion hblank
  · rintro rfl
    exact Bool.noConfusion hblank

/-- A character that ends no line joins the first line behind it. -/
theorem lineChars_cons {c : Char} {chars : List Char} (hfeed : c ≠ '\n')
    (hreturn : ∀ rest, c = '\r' → chars ≠ '\n' :: rest)
    : lineChars (c :: chars)
      = match lineChars chars with
        | [] => [[c]]
        | line :: lines => (c :: line) :: lines := by
  cases hlines : lineChars chars <;> simp [lineChars, hlines]

/-- Only the empty text has no lines. -/
theorem lineChars_eq_nil_iff {chars : List Char}
    : lineChars chars = [] ↔ chars = [] := by
  constructor
  · intro h
    unfold lineChars at h
    split at h
    · rfl
    · cases h
    · cases h
    · split at h <;> cases h
  · rintro rfl
    rfl

/-- What stands before a line feed is the first line. -/
theorem lineChars_append_newline {line : List Char} (h : IsLine line) (rest : List Char)
    : lineChars (line ++ '\n' :: rest) = line :: lineChars rest := by
  induction line with
  | nil => simp [lineChars]
  | cons c line ih =>
      obtain ⟨⟨hfeed, hreturn⟩, hline⟩ := isLine_cons.1 h
      rw [List.cons_append, lineChars_cons hfeed fun _ hc => (hreturn hc).elim, ih hline]

/-- What no line feed ends is a line of its own, if there is anything. -/
theorem lineChars_of_isLine {line : List Char} (h : IsLine line)
    : lineChars line = if line = [] then [] else [line] := by
  induction line with
  | nil => rfl
  | cons c line ih =>
      obtain ⟨⟨hfeed, hreturn⟩, hline⟩ := isLine_cons.1 h
      rw [lineChars_cons hfeed fun _ hc => (hreturn hc).elim, ih hline]
      cases line with
      | nil => rfl
      | cons d line => rfl

/-- A carriage return in front of a text ends no line with it, whatever is put behind the text. -/
theorem append_ne_newline_cons {c : Char} {chars : List Char} (hne : lineChars chars ≠ [])
    (h : ∀ rest, c = '\r' → chars ≠ '\n' :: rest) (others : List Char)
    : ∀ rest, c = '\r' → chars ++ others ≠ '\n' :: rest := by
  rintro rest hc heq
  cases chars with
  | nil => exact hne rfl
  | cons d chars =>
      obtain ⟨rfl, -⟩ := List.cons.inj heq
      exact h chars hc rfl

/-- A line feed ends the line that stands before it.  That line was there already, but for a
carriage return at its end, or else it is empty. -/
theorem lineChars_append_lineFeed (first rest : List Char)
    : ∃ front last,
        lineChars (first ++ '\n' :: rest) = front ++ last :: lineChars rest
        ∧ (lineChars first = front ∧ last = []
          ∨ ∃ tail,
              (tail = [] ∨ tail = ['\r']) ∧ lineChars first = front ++ [last ++ tail]) := by
  induction first using lineChars.induct with
  | case1 => exact ⟨[], [], by simp [lineChars], .inl ⟨rfl, rfl⟩⟩
  | case2 first ih =>
      obtain ⟨front, last, happend, hlast⟩ := ih
      exact ⟨[] :: front, last, by simp [lineChars, happend], by simpa [lineChars] using hlast⟩
  | case3 first ih =>
      obtain ⟨front, last, happend, hlast⟩ := ih
      exact ⟨[] :: front, last, by simp [lineChars, happend], by simpa [lineChars] using hlast⟩
  | case4 c first _ hfeed hnil =>
      -- The last character of an unended line is all that the line feed can see.
      obtain rfl := lineChars_eq_nil_iff.1 hnil
      by_cases hc : c = '\r'
      · exact ⟨[], [], by simp [lineChars, hc], .inr ⟨['\r'], .inr rfl, by simp [hc, lineChars]⟩⟩
      · exact ⟨[], [c], by simp [lineChars, hc], .inr ⟨[], .inl rfl, by simp [lineChars]⟩⟩
  | case5 c first hreturn hfeed line lines hlines ih =>
      obtain ⟨front, last, happend, hlast⟩ := ih
      have hbreak := append_ne_newline_cons (by simp [hlines]) hreturn ('\n' :: rest)
      rw [List.cons_append, lineChars_cons hfeed hbreak, lineChars_cons hfeed hreturn, happend,
        hlines]
      rw [hlines] at hlast
      rcases hlast with ⟨rfl, rfl⟩ | ⟨tail, htail, hlast⟩
      · exact ⟨(c :: line) :: lines, [], rfl, .inl ⟨rfl, rfl⟩⟩
      · cases front with
        | nil =>
            obtain ⟨rfl, rfl⟩ := List.cons.inj hlast
            exact ⟨[], c :: last, rfl, .inr ⟨tail, htail, rfl⟩⟩
        | cons line front =>
            obtain ⟨rfl, rfl⟩ := List.cons.inj hlast
            exact ⟨(c :: line) :: front, last, rfl, .inr ⟨tail, htail, rfl⟩⟩

-----------------------------------------------------------------------------------------
-- Texts
-----------------------------------------------------------------------------------------

/-- Holds of texts that lie on one line. -/
def OneLine (text : String) : Prop :=
  IsLine text.toList

instance (text : String) : Decidable (OneLine text) :=
  List.decidableBAll (fun c => c ≠ '\n' ∧ c ≠ '\r') text.toList

/-- Texts side by side are on one line if both of them are. -/
@[simp]
theorem oneLine_append {first second : String}
    : OneLine (first ++ second) ↔ OneLine first ∧ OneLine second := by
  simp [OneLine]

/-- Texts with separators between are on one line if all of them are, by induction on the texts. -/
theorem oneLine_intercalate {separator : String} (hseparator : OneLine separator)
    {texts : List String} (h : ∀ text ∈ texts, OneLine text)
    : OneLine (separator.intercalate texts) := by
  induction texts with
  | nil => simp [OneLine]
  | cons text texts ih =>
      obtain ⟨htext, htexts⟩ := List.forall_mem_cons.1 h
      cases texts with
      | nil => simpa using htext
      | cons next texts =>
          rw [String.intercalate_cons_cons, oneLine_append, oneLine_append]
          exact ⟨⟨htext, hseparator⟩, ih htexts⟩

/-- A text on one line stays so when it is trimmed. -/
theorem oneLine_trim {text : String} (h : OneLine text)
    : OneLine (trim text) := by
  rw [trim, OneLine, String.toList_ofList]
  exact h.subset (trimChars_subset _)

/-- A text on one line stays so when its front is trimmed. -/
theorem oneLine_trimStart {text : String} (h : OneLine text)
    : OneLine (trimStart text) := by
  rw [trimStart, OneLine, String.toList_ofList]
  exact h.subset (List.dropWhile_suffix _).subset

/-- Each text in front of another one brings the separator behind it. -/
theorem intercalate_append_cons (separator : String) (first : List String) (text : String)
    (others : List String)
    : separator.intercalate (first ++ text :: others)
      = String.join (first.map (· ++ separator)) ++ separator.intercalate (text :: others) := by
  induction first with
  | nil => simp
  | cons front first ih =>
      rw [List.cons_append, String.intercalate_cons_of_ne_nil (by simp), ih, List.map_cons,
        String.join_cons, ← String.append_assoc]

/-- Texts joined group by group are joined as a whole if no group is empty. -/
theorem intercalate_flatMap (separator : String) {items : List α} {f : α → List String}
    (h : ∀ a ∈ items, f a ≠ [])
    : separator.intercalate (items.flatMap f)
      = separator.intercalate (items.map fun a => separator.intercalate (f a)) := by
  induction items with
  | nil => rfl
  | cons a items ih =>
      obtain ⟨hfirst, hothers⟩ := List.forall_mem_cons.1 h
      cases items with
      | nil => simp
      | cons b items =>
          have hnext : (b :: items).flatMap f ≠ [] := by
            simp [hothers b List.mem_cons_self]
          rw [List.flatMap_cons, String.intercalate_append_of_ne_nil hfirst hnext, ih hothers,
            List.map_cons (a := a), String.intercalate_cons_of_ne_nil (by simp)]

/-- A line feed behind each text comes to one behind all of them, with one between any two. -/
theorem join_map_append_separator (separator : String) {texts : List String} (h : texts ≠ [])
    : String.join (texts.map (· ++ separator)) = separator.intercalate texts ++ separator := by
  obtain ⟨text, texts, rfl⟩ := List.exists_cons_of_ne_nil h
  induction texts generalizing text with
  | nil => simp
  | cons next texts ih =>
      rw [List.map_cons, String.join_cons, ih next (List.cons_ne_nil _ _),
        String.intercalate_cons_cons]
      simp only [String.append_assoc]

/-- What stands before a line feed is the first line. -/
theorem lines_append_newline {line : String} (h : OneLine line) (rest : String)
    : lines (line ++ "\n" ++ rest) = line :: lines rest := by
  have hchars : (line ++ "\n" ++ rest).toList = line.toList ++ '\n' :: rest.toList := by simp
  rw [lines, hchars, lineChars_append_newline h, List.map_cons, String.ofList_toList, lines]

/-- Texts on one line each are the lines of what line feeds join them to, if none is empty.  Only at
the end an empty text would make no line. -/
theorem lines_intercalate {texts : List String} (h : ∀ text ∈ texts, OneLine text)
    (hne : ∀ text ∈ texts, text ≠ "")
    : lines ("\n".intercalate texts) = texts := by
  induction texts with
  | nil => rfl
  | cons text texts ih =>
      obtain ⟨htext, htexts⟩ := List.forall_mem_cons.1 h
      obtain ⟨hfirst, hothers⟩ := List.forall_mem_cons.1 hne
      cases texts with
      | nil =>
          have hchars : text.toList ≠ [] := by simpa using hfirst
          rw [String.intercalate_singleton, lines, lineChars_of_isLine htext, if_neg hchars]
          simp
      | cons next texts =>
          rw [String.intercalate_cons_cons, lines_append_newline htext, ih htexts hothers]

/-- Joining lines by line feeds keeps those that are not blank.  An empty text at the end makes no
line, and is blank. -/
theorem filter_lines_intercalate {texts : List String} (h : ∀ text ∈ texts, OneLine text)
    : (lines ("\n".intercalate texts)).filter (!isBlankText ·)
      = texts.filter (!isBlankText ·) := by
  induction texts with
  | nil => rfl
  | cons text texts ih =>
      obtain ⟨htext, htexts⟩ := List.forall_mem_cons.1 h
      cases texts with
      | nil =>
          -- An empty text has no line, but it is blank.
          rw [String.intercalate_singleton, lines, lineChars_of_isLine htext]
          split
          · rename_i hnil
            simp [isBlankText, hnil]
          · simp
      | cons next texts =>
          rw [String.intercalate_cons_cons, lines_append_newline htext, List.filter_cons,
            ih htexts, List.filter_cons (x := text)]

-----------------------------------------------------------------------------------------
-- The parts between line feeds
-----------------------------------------------------------------------------------------

/-- The parts of a text between its line feeds. -/
def splitLines (text : String) : List String :=
  (text.toList.splitOn '\n').map String.ofList

/-- A line feed between two texts ends the last line of the first. -/
theorem splitLines_append_newline (first rest : String)
    : splitLines (first ++ "\n" ++ rest) = splitLines first ++ splitLines rest := by
  have hchars : (first ++ "\n" ++ rest).toList = first.toList ++ '\n' :: rest.toList := by simp
  rw [splitLines, hchars, List.splitOn_eq_splitOnP, List.splitOnP_append_cons _ _ (by simp),
    List.map_append, splitLines, splitLines, List.splitOn_eq_splitOnP, List.splitOn_eq_splitOnP]

/-- A text without a line feed is its own only line. -/
theorem splitLines_of_not_mem {text : String} (h : '\n' ∉ text.toList)
    : splitLines text = [text] := by
  have hfeed : ∀ c ∈ text.toList, (c == '\n') = false := by
    rintro c hc
    simpa using ne_of_mem_of_not_mem hc h
  rw [splitLines, List.splitOn_eq_splitOnP, List.splitOnP_eq_singleton hfeed]
  simp

/-- Joined texts have the lines of all of them. -/
theorem splitLines_intercalate {texts : List String} (h : texts ≠ [])
    : splitLines ("\n".intercalate texts) = texts.flatMap splitLines := by
  obtain ⟨text, texts, rfl⟩ := List.exists_cons_of_ne_nil h
  induction texts generalizing text with
  | nil => simp
  | cons next texts ih =>
      rw [String.intercalate_cons_cons, splitLines_append_newline, ih next (List.cons_ne_nil _ _),
        List.flatMap_cons (x := text)]

/-- Lines that line feeds end are what the text is split into, with nothing behind the last. -/
theorem splitLines_join {lines : List String} (h : ∀ line ∈ lines, '\n' ∉ line.toList)
    : splitLines (String.join (lines.map (· ++ "\n"))) = lines ++ [""] := by
  induction lines with
  | nil => rfl
  | cons line lines ih =>
      obtain ⟨hline, hlines⟩ := List.forall_mem_cons.1 h
      rw [List.map_cons, String.join_cons, splitLines_append_newline, ih hlines,
        splitLines_of_not_mem hline]
      rfl

/-- Lines can be told from what they are joined to. -/
theorem join_newline_inj {lines others : List String} (h : ∀ line ∈ lines, '\n' ∉ line.toList)
    (hothers : ∀ line ∈ others, '\n' ∉ line.toList)
    : String.join (lines.map (· ++ "\n")) = String.join (others.map (· ++ "\n"))
      ↔ lines = others := by
  refine ⟨fun heq => ?_, fun heq => by rw [heq]⟩
  have hsplit := congrArg splitLines heq
  rw [splitLines_join h, splitLines_join hothers] at hsplit
  exact List.append_cancel_right hsplit

end Formulary.Text
