import Formulary.Text
import Mathlib.Data.List.DropRight

/-! Blanks at the ends of texts and between words.
Trimming stops at the first and the last character that is no blank, and words are what blanks do
not separate.
-/

namespace Formulary.Text

-----------------------------------------------------------------------------------------
-- Trimming
-----------------------------------------------------------------------------------------

/-- Nothing is trimmed at the front where there is no blank. -/
theorem trimStartChars_eq_self {chars : List Char} (h : ∀ c ∈ chars, isBlank c = false)
    : trimStartChars chars = chars := by
  cases chars with
  | nil => rfl
  | cons c chars => exact List.dropWhile_cons_of_neg (by simp [h c List.mem_cons_self])

/-- Nothing is trimmed at the end where there is no blank. -/
theorem trimEndChars_eq_self {chars : List Char} (h : ∀ c ∈ chars, isBlank c = false)
    : trimEndChars chars = chars := by
  have hreverse : trimStartChars chars.reverse = chars.reverse :=
    trimStartChars_eq_self fun c hc => h c (List.mem_reverse.1 hc)
  rw [trimEndChars, ← trimStartChars, hreverse, List.reverse_reverse]

/-- Trimming the start reaches no further than the first character that is no blank. -/
theorem trimStartChars_append {first : List Char} (h : trimStartChars first ≠ [])
    (second : List Char)
    : trimStartChars (first ++ second) = trimStartChars first ++ second := by
  rw [trimStartChars, List.dropWhile_append, if_neg (by simpa [trimStartChars] using h),
    trimStartChars]

/-- Trimming the end reaches no further than the last character that is no blank. -/
theorem trimEndChars_append (first : List Char) {second : List Char}
    (h : trimEndChars second ≠ [])
    : trimEndChars (first ++ second) = first ++ trimEndChars second := by
  have hstart : trimStartChars second.reverse ≠ [] := by
    simpa [trimEndChars, trimStartChars] using h
  rw [trimEndChars, List.reverse_append, ← trimStartChars, trimStartChars_append hstart,
    List.reverse_append, List.reverse_reverse, trimEndChars, trimStartChars]

/-- Trimming the end leaves what stands in front. -/
theorem trimEndChars_prefix (chars : List Char)
    : trimEndChars chars <+: chars :=
  List.rdropWhile_prefix _ _

/-- What trimming the start leaves begins with no blank. -/
theorem isBlank_eq_false_of_trimStartChars {chars rest : List Char} {c : Char}
    (h : trimStartChars chars = c :: rest)
    : isBlank c = false := by
  have hhead := List.head?_dropWhile_not isBlank chars
  rw [trimStartChars] at h
  simpa [h] using hhead

/-- Trimming leaves a character that is no blank in front. -/
theorem isBlank_eq_false_of_trimChars {chars rest : List Char} {c : Char}
    (h : trimChars chars = c :: rest)
    : isBlank c = false := by
  obtain ⟨tail, htail⟩ := trimEndChars_prefix (trimStartChars chars)
  rw [← trimChars, h, List.cons_append] at htail
  exact isBlank_eq_false_of_trimStartChars htail.symm

/-- A text that begins with no blank is trimmed to one that it begins with. -/
theorem trimChars_prefix {c : Char} (h : isBlank c = false) (chars : List Char)
    : trimChars (c :: chars) <+: c :: chars := by
  rw [trimChars, trimStartChars, List.dropWhile_cons_of_neg (by simp [h])]
  exact trimEndChars_prefix _

/-- Trimming adds no characters. -/
theorem trimChars_subset (chars : List Char)
    : trimChars chars ⊆ chars :=
  fun _ hc =>
    (List.dropWhile_suffix _).subset (List.IsPrefix.subset ( trimEndChars_prefix _) hc)

/-- Removes the blanks at the start. -/
def trimStart (text : String) : String :=
  String.ofList (trimStartChars text.toList)

/-- Texts side by side are blank if both of them are. -/
@[simp]
theorem isBlankText_append (first second : String)
    : isBlankText (first ++ second) = (isBlankText first && isBlankText second) := by
  simp [isBlankText]

/-- Trimming the front leaves nothing exactly of blanks. -/
theorem trimStartChars_eq_nil_iff {chars : List Char}
    : trimStartChars chars = [] ↔ chars.all isBlank := by
  rw [trimStartChars, List.dropWhile_eq_nil_iff, List.all_eq_true]

/-- Trimming the end leaves nothing exactly of blanks. -/
theorem trimEndChars_eq_nil_iff {chars : List Char}
    : trimEndChars chars = [] ↔ chars.all isBlank := by
  rw [trimEndChars, List.reverse_eq_nil_iff, ← trimStartChars, trimStartChars_eq_nil_iff,
    List.all_reverse]

/-- Nothing is left of blanks alone. -/
theorem trimChars_eq_nil_iff {chars : List Char}
    : trimChars chars = [] ↔ chars.all isBlank := by
  rw [trimChars, trimEndChars_eq_nil_iff]
  cases hstart : trimStartChars chars with
  | nil => simpa using trimStartChars_eq_nil_iff.1 hstart
  | cons c rest =>
      have hc := isBlank_eq_false_of_trimStartChars hstart
      have hchars : ¬ chars.all isBlank := by
        rw [← trimStartChars_eq_nil_iff, hstart]
        exact List.cons_ne_nil _ _
      simp only [List.all_cons, hc, Bool.false_and, Bool.false_eq_true, hchars]

/-- Trimming leaves nothing exactly of a blank text. -/
theorem trim_eq_empty_iff {text : String}
    : trim text = "" ↔ isBlankText text := by
  rw [← String.toList_inj, trim, String.toList_ofList, isBlankText]
  exact trimChars_eq_nil_iff

/-- Trimming keeps a character that is no blank. -/
@[simp]
theorem isBlankText_trim (text : String)
    : isBlankText (trim text) = isBlankText text := by
  rw [isBlankText, trim, String.toList_ofList]
  cases hchars : trimChars text.toList with
  | nil => exact (trimChars_eq_nil_iff.1 hchars).symm
  | cons c rest =>
      have hc := isBlank_eq_false_of_trimChars hchars
      have htext : isBlankText text = false := by
        rw [← Bool.not_eq_true, isBlankText, ← trimChars_eq_nil_iff, hchars]
        exact List.cons_ne_nil _ _
      rw [List.all_cons, hc, Bool.false_and, htext]

/-- Trimming reaches no further than the parts at both ends. -/
theorem trimChars_append {first last : List Char} (hfirst : trimStartChars first ≠ [])
    (middle : List Char) (hlast : trimEndChars last ≠ [])
    : trimChars (first ++ (middle ++ last))
      = trimStartChars first ++ (middle ++ trimEndChars last) := by
  rw [trimChars, trimStartChars_append hfirst, ← List.append_assoc,
    trimEndChars_append _ hlast, List.append_assoc]

/-- A blank at the end is trimmed. -/
theorem trimChars_concat_blank (chars : List Char) {c : Char} (hc : isBlank c = true)
    : trimChars (chars ++ [c]) = trimChars chars := by
  by_cases hstart : trimStartChars chars = []
  · have hchars := trimStartChars_eq_nil_iff.1 hstart
    rw [trimChars_eq_nil_iff.2 hchars, trimChars_eq_nil_iff]
    simp [hchars, hc]
  · rw [trimChars, trimStartChars_append hstart, trimChars]
    simp [trimEndChars, hc]

-----------------------------------------------------------------------------------------
-- Words
-----------------------------------------------------------------------------------------

/-- Holds of characters that make up a single word. -/
def IsWord (chars : List Char) : Prop :=
  chars ≠ [] ∧ ∀ c ∈ chars, isBlank c = false

/-- The check for a word asks for a character and for no blank. -/
theorem not_isWord_iff {chars : List Char}
    : ¬ IsWord chars ↔ (chars.isEmpty || chars.any isBlank) = true := by
  rw [IsWord, not_and_or]
  simp

/-- A single character that is no blank is a word. -/
theorem isWord_singleton {c : Char} (h : isBlank c = false)
    : IsWord [c] :=
  ⟨List.cons_ne_nil _ _, List.forall_mem_singleton.2 h⟩

/-- A text that begins and ends with a word is not trimmed. -/
theorem trimChars_of_words {first last : List Char} (hfirst : IsWord first) (middle : List Char)
    (hlast : IsWord last)
    : trimChars (first ++ (middle ++ last)) = first ++ (middle ++ last) := by
  have hstart := trimStartChars_eq_self hfirst.2
  have hend := trimEndChars_eq_self hlast.2
  rw [trimChars_append (by rw [hstart]; exact hfirst.1) middle (by rw [hend]; exact hlast.1),
    hstart, hend]

/-- A text that ends with a word is trimmed at its start. -/
theorem trim_append_word {first last : String} (hfirst : isBlankText first = false)
    (middle : String) (hlast : IsWord last.toList)
    : trim (first ++ (middle ++ last)) = trimStart first ++ (middle ++ last) := by
  have hstart : trimStartChars first.toList ≠ [] := by
    rw [Ne, trimStartChars_eq_nil_iff, ← isBlankText, hfirst]
    exact Bool.false_ne_true
  have hend := trimEndChars_eq_self hlast.2
  rw [← String.toList_inj, trim, trimStart]
  simp only [String.toList_ofList, String.toList_append]
  rw [trimChars_append hstart _ (by rw [hend]; exact hlast.1), hend]

/-- A blank behind a word is trimmed. -/
theorem IsWord.trimChars_append_blank {word : List Char} (h : IsWord word) {c : Char}
    (hc : isBlank c = true)
    : trimChars (word ++ [c]) = word := by
  rw [trimChars_concat_blank word hc, trimChars, trimStartChars_eq_self h.2,
    trimEndChars_eq_self h.2]

/-- No piece between separators holds one.  By induction on the items, where the first piece takes
up those before a separator. -/
theorem eq_false_of_mem_splitOnP {p : α → Bool} {items piece : List α}
    (h : piece ∈ items.splitOnP p)
    : ∀ a ∈ piece, p a = false := by
  induction items generalizing piece with
  | nil => simp_all [List.splitOnP_nil]
  | cons a items ih =>
      rw [List.splitOnP_cons_eq_if_modifyHead] at h
      split at h
      · rcases List.mem_cons.1 h with rfl | hrest
        · exact List.forall_mem_nil _
        · exact ih hrest
      · rename_i ha
        obtain ⟨first, others, hpieces⟩ := List.exists_cons_of_ne_nil (List.splitOnP_ne_nil p items)
        rw [hpieces] at h ih
        rcases List.mem_cons.1 h with rfl | hrest
        · exact List.forall_mem_cons.2 ⟨by simpa using ha, ih List.mem_cons_self⟩
        · exact ih (List.mem_cons_of_mem _ hrest)

/-- What a text is split into at its blanks are words. -/
theorem isWord_of_mem_wordChars {chars word : List Char} (h : word ∈ wordChars chars)
    : IsWord word := by
  obtain ⟨hpiece, hne⟩ := List.mem_filter.1 h
  exact ⟨by simpa using hne, eq_false_of_mem_splitOnP hpiece⟩

/-- A blank separates the words on its two sides. -/
theorem wordChars_append_blank {c : Char} (hc : isBlank c = true) (first second : List Char)
    : wordChars (first ++ c :: second) = wordChars first ++ wordChars second := by
  rw [wordChars, List.splitOnP_append_cons _ _ hc, List.filter_append, wordChars, wordChars]

/-- A blank in front of the words is passed over. -/
theorem wordChars_cons_blank {c : Char} (hc : isBlank c = true) (chars : List Char)
    : wordChars (c :: chars) = wordChars chars :=
  wordChars_append_blank hc [] chars

/-- A word is its own only word. -/
theorem IsWord.wordChars_eq {word : List Char} (h : IsWord word)
    : wordChars word = [word] := by
  simp [wordChars, List.splitOnP_eq_singleton h.2, h.1]

end Formulary.Text
