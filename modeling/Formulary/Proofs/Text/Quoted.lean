import Formulary.Proofs.Text.Lines
import Formulary.Text

/-! Quoted texts on their line.
Whatever a text holds, quoting it gives a single line that begins and ends with the mark.
-/

namespace Formulary.Text

/-- Every digit is a word by itself. -/
theorem isBlank_digitChar (digit : Nat)
    : isBlank (Nat.digitChar digit) = false := by
  match digit with
  | 0 | 1 | 2 | 3 | 4 | 5 | 6 | 7 | 8 | 9 | 10 | 11 | 12 | 13 | 14 | 15 => rfl
  | other + 16 =>
      have hother : Nat.digitChar (other + 16) = '*' := by simp [Nat.digitChar]
      rw [hother]
      rfl

/-- All digits of a number are words, by induction on the steps that spell it out. -/
theorem isBlank_of_mem_toDigitsCore (base : Nat) {fuel number : Nat} {digits : List Char}
    (h : ∀ c ∈ digits, isBlank c = false)
    : ∀ c ∈ Nat.toDigitsCore base fuel number digits, isBlank c = false := by
  induction fuel generalizing number digits with
  | zero => exact h
  | succ fuel ih =>
      rw [Nat.toDigitsCore]
      have hdigits : ∀ c ∈ Nat.digitChar (number % base) :: digits, isBlank c = false :=
        List.forall_mem_cons.2 ⟨isBlank_digitChar _, h⟩
      split
      · exact hdigits
      · exact ih hdigits

/-- The digits of a number are a word. -/
theorem isWord_toString (number : Nat)
    : IsWord (toString number).toList := by
  have htext : (toString number).toList = Nat.toDigits 10 number := by
    simp [ToString.toString, Nat.repr]
  rw [htext]
  exact ⟨Nat.toDigits_ne_nil, isBlank_of_mem_toDigitsCore 10 (List.forall_mem_nil _)⟩

/-- The code of an escaped character is a word, so a quoted text has no blanks but those of the
text. -/
theorem isWord_escapeCode (c : Char)
    : IsWord (escapeCode c) := by
  refine ⟨by simp [escapeCode], ?_⟩
  rw [escapeCode, List.forall_mem_append, List.forall_mem_append]
  exact ⟨⟨by simp [isBlank], isBlank_of_mem_toDigitsCore 16 (List.forall_mem_nil _)⟩,
    by simp [isBlank]⟩

/-- No character is written with a line end: those that end lines have escapes of their own.  What
is written with its code has digits and marks only. -/
theorem isLine_escapeChar (mark c : Char)
    : IsLine (escapeChar mark c) := by
  rw [escapeChar]
  split
  · simp
  split
  · simp
  split
  · simp
  split
  · simp
  rename_i hreturn hfeed
  have hc : IsLine [c] := by simpa using ⟨hfeed, hreturn⟩
  split
  · exact isLine_cons.2 ⟨by decide, hc⟩
  · split
    · exact hc
    · exact (isWord_escapeCode c).isLine

/-- A quoted text ends with the mark behind what lies on one line. -/
theorem exists_quote_eq (text : String)
    : ∃ front, quote text = front ++ "\"" ∧ OneLine front := by
  refine ⟨String.ofList ('"' :: text.toList.flatMap (escapeChar '"')), ?_, ?_⟩
  · rw [← String.toList_inj]
    simp [quote, quoteChars]
  · rw [OneLine, String.toList_ofList, isLine_cons]
    refine ⟨by decide, fun c hc => ?_⟩
    obtain ⟨source, -, hsource⟩ := List.mem_flatMap.1 hc
    exact isLine_escapeChar '"' source c hsource

end Formulary.Text
