import Formulary.Proofs.Token.Lexing

/-! Reading a source token by token.
A lexer hands out tokens until the visible characters are used up or no token begins with those
that are left.  The texts of the tokens are the characters before that place, and an error shows
where the place is in the source.  Blanks decide nothing but the offset in an error.
-/

namespace Formulary

open Lexeme

-----------------------------------------------------------------------------------------
-- How far a text can be scanned
-----------------------------------------------------------------------------------------

/-- Every text can be scanned as far as it goes, by induction on its length. -/
theorem exists_scans (previous : Option Tag) (chars : List Char)
    : ∃ tokens left, Scans previous chars tokens left := by
  induction hlength : chars.length using Nat.strong_induction_on generalizing previous chars with
  | _ length ih =>
      cases hscan : scan previous chars with
      | none => exact ⟨[], chars, .stop hscan⟩
      | some scanned =>
          obtain ⟨tag, lexeme⟩ := scanned
          obtain ⟨rest, rfl⟩ := isPrefix_scan hscan
          have hpos := List.length_pos_iff.2 (scan_ne_nil hscan)
          rw [List.length_append] at hlength
          obtain ⟨tokens, left, hbelow⟩ := ih rest.length (by omega) (some tag) rest rfl
          exact ⟨_, left, .token hscan hbelow⟩

/-- Every token that is read has a text, as a lexeme has at least one character. -/
theorem Scans.text_ne_empty {previous : Option Tag} {chars left : List Char} {tokens : List Token}
    (h : Scans previous chars tokens left)
    : ∀ token ∈ tokens, token.text ≠ "" := by
  induction h with
  | stop _ => exact List.forall_mem_nil _
  | token hscan _ ih =>
      refine List.forall_mem_cons.2 ⟨fun hempty => scan_ne_nil hscan ?_, ih⟩
      simpa using hempty

-----------------------------------------------------------------------------------------
-- Steps of a lexer
-----------------------------------------------------------------------------------------

namespace Lexer

/-- Taking one item after the other gives these tokens, then possibly this error, and then nothing
more. -/
inductive Reads : Lexer → List Token → Option LexError → Prop where
  | done {lexer : Lexer} (hnext : lexer.next? = none)
    : Reads lexer [] none
  | error {lexer after : Lexer} {error : LexError}
    (hnext : lexer.next? = some (.error error, after)) (hend : after.next? = none)
    : Reads lexer [] (some error)
  | token {lexer after : Lexer} {token : Token} {tokens : List Token} {fault : Option LexError}
    (hnext : lexer.next? = some (.ok token, after)) (below : Reads after tokens fault)
    : Reads lexer (token :: tokens) fault

/-- The items of a lexer are the tokens that it reads and the error after them. -/
theorem Reads.mapM_items {lexer : Lexer} {tokens : List Token} {fault : Option LexError}
    (h : lexer.Reads tokens fault)
    : lexer.items.mapM id = fault.elim (.ok tokens) .error := by
  induction h with
  | done hnext =>
      rw [items, hnext]
      rfl
  | error hnext _ =>
      rw [items, hnext]
      rfl
  | @token lexer after token tokens fault hnext _ ih =>
      rw [items, hnext]
      simp only [List.mapM_cons, id, ih]
      cases fault <;> rfl

/-- A lexer takes the characters of the lexeme that is scanned. -/
theorem next?_of_scan {previous : Option Tag} {first others : List (Nat × Char)} {tag : Tag}
    (hscan : scan previous ((first ++ others).map Prod.snd) = some (tag, first.map Prod.snd))
    : next? ⟨first ++ others, previous⟩
      = some (.ok ⟨tag, String.ofList (first.map Prod.snd)⟩, ⟨others, some tag⟩) := by
  cases first with
  | nil => exact absurd rfl (scan_ne_nil hscan)
  | cons place first =>
      rw [next?, List.cons_append]
      simp only [← List.cons_append, hscan, List.length_map, List.drop_left]

end Lexer

/-- A lexer reads the tokens that can be scanned from its characters, and reports the first of the
characters that are left.  By induction on the scan. -/
theorem Scans.reads {previous : Option Tag} {chars left : List Char} {tokens : List Token}
    (h : Scans previous chars tokens left) {rest : List (Nat × Char)}
    (hrest : rest.map Prod.snd = chars)
    : ∃ taken remaining,
        rest = taken ++ remaining
        ∧ taken.map Prod.snd = (Token.textOf tokens).toList
        ∧ remaining.map Prod.snd = left
        ∧ Lexer.Reads ⟨rest, previous⟩ tokens
            (remaining.head?.map fun place => ⟨place.2, place.1⟩) := by
  induction h generalizing rest with
  | stop hscan =>
      refine ⟨[], rest, rfl, by simp, hrest, ?_⟩
      subst hrest
      cases rest with
      | nil => exact .done rfl
      | cons place rest => exact .error (by simp only [Lexer.next?, hscan]; rfl) rfl
  | @token previous tag lexeme others left tokens hscan _ ih =>
      obtain ⟨first, rest, rfl, hfirst, hothers⟩ := List.map_eq_append_iff.1 hrest
      obtain ⟨taken, remaining, rfl, htaken, hleft, hreads⟩ := ih hothers
      refine ⟨first ++ taken, remaining, by simp, by simp [hfirst, htaken], hleft, ?_⟩
      subst hfirst
      exact .token (Lexer.next?_of_scan (by rwa [List.map_append, hothers])) hreads

-----------------------------------------------------------------------------------------
-- Places in the source
-----------------------------------------------------------------------------------------

/-- A visible character stands behind the part of the source that its offset measures, and the
visible characters before it are those of that part. -/
theorem exists_split_of_visibleChars {offset place : Nat} {chars : List Char} {c : Char}
    {taken others : List (Nat × Char)}
    (h : visibleChars offset chars = taken ++ (place, c) :: others)
    : ∃ before after,
        chars = before ++ c :: after
        ∧ place = offset + (String.ofList before).utf8ByteSize
        ∧ Text.isBlank c = false
        ∧ taken.map Prod.snd = before.filter fun d => !Text.isBlank d := by
  induction chars generalizing offset taken with
  | nil => simp [visibleChars] at h
  | cons d chars ih =>
      have hsize : ∀ before,
          offset + d.utf8Size + (String.ofList before).utf8ByteSize
          = offset + (String.ofList (d :: before)).utf8ByteSize := by
        intro before
        rw [String.ofList_cons, String.utf8ByteSize_append, String.utf8ByteSize_singleton,
          Nat.add_assoc]
      rw [visibleChars] at h
      split at h
      · rename_i hblank
        obtain ⟨before, after, rfl, rfl, hvisible, htaken⟩ := ih h
        exact ⟨d :: before, after, rfl, hsize before, hvisible, by simp [hblank, htaken]⟩
      · rename_i hblank
        cases taken with
        | nil =>
            simp only [List.nil_append, List.cons.injEq, Prod.mk.injEq] at h
            obtain ⟨⟨rfl, rfl⟩, rfl⟩ := h
            exact ⟨[], chars, rfl, by simp, by simpa using hblank, rfl⟩
        | cons first taken =>
            simp only [List.cons_append, List.cons.injEq] at h
            obtain ⟨rfl, h⟩ := h
            obtain ⟨before, after, rfl, rfl, hvisible, htaken⟩ := ih h
            exact ⟨d :: before, after, rfl, hsize before, hvisible, by simp [hblank, htaken]⟩

/-- Two sources with the same visible characters are scanned alike. -/
theorem Scans.reads_ofSource {source : String} {left : List Char} {tokens : List Token}
    (h : Scans none (visible source) tokens left)
    : ∃ taken remaining,
        visibleChars 0 source.toList = taken ++ remaining
        ∧ taken.map Prod.snd = (Token.textOf tokens).toList
        ∧ remaining.map Prod.snd = left
        ∧ (Lexer.ofSource source).Reads tokens
            (remaining.head?.map fun place => ⟨place.2, place.1⟩) :=
  h.reads (map_snd_visibleChars 0 source.toList)

/-- The character of the error at the first place left is the first character left. -/
theorem map_char_head? (places : List (Nat × Char))
    : ((places.head?.map fun place => LexError.mk place.2 place.1).map LexError.char)
      = (places.map Prod.snd).head? := by
  cases places <;> rfl

/-- A lexer reads tokens that are not empty, then at most one error, and then nothing.  Without an
error the texts of the tokens are all visible characters of the source.  An error shows a visible
character of the source, and the texts of the tokens are the visible characters before it.  Sources
with the same visible characters give the same tokens and fail at the same character, if at all. -/
theorem lexer_reads_visible (source : String)
    : ∃ tokens fault,
        (Lexer.ofSource source).Reads tokens fault
        ∧ tokenize source = fault.elim (.ok tokens) .error
        ∧ (∀ token ∈ tokens, token.text ≠ "")
        ∧ (fault = none → (Token.textOf tokens).toList = visible source)
        ∧ (∀ error,
          fault = some error
          → ∃ before after,
              source = before ++ String.singleton error.char ++ after
              ∧ error.diagnostic.span
                = some (before.utf8ByteSize, before.utf8ByteSize + error.char.utf8Size)
              ∧ Text.isBlank error.char = false
              ∧ (Token.textOf tokens).toList = visible before)
        ∧ ∀ other,
          visible other = visible source
          → ∃ fault',
              (Lexer.ofSource other).Reads tokens fault'
              ∧ fault'.map LexError.char = fault.map LexError.char := by
  obtain ⟨tokens, left, hscans⟩ := exists_scans none (visible source)
  obtain ⟨taken, remaining, hsplit, htexts, hleft, hreads⟩ := hscans.reads_ofSource
  refine ⟨tokens, _, hreads, hreads.mapM_items, hscans.text_ne_empty, fun hnone => ?_,
    fun error hsome => ?_, fun other hother => ?_⟩
  · obtain rfl : remaining = [] := by simpa using hnone
    rw [← htexts, visible, ← map_snd_visibleChars 0, hsplit, List.append_nil]
  · obtain ⟨⟨place, c⟩, hhead, rfl⟩ := Option.map_eq_some_iff.1 hsome
    obtain ⟨others, rfl⟩ := List.head?_eq_some_iff.1 hhead
    obtain ⟨before, after, hsource, rfl, hvisible, htaken⟩ := exists_split_of_visibleChars hsplit
    refine ⟨String.ofList before, String.ofList after, ?_,
      by simp [LexError.diagnostic, LexError.stop], hvisible, by simp [← htexts, htaken, visible]⟩
    rw [← String.ofList_toList (s := source), hsource, String.ofList_append, String.ofList_cons,
      String.append_assoc]
  · rw [← hother] at hscans
    obtain ⟨_, remaining', _, _, hleft', hreads'⟩ := hscans.reads_ofSource
    refine ⟨_, hreads', ?_⟩
    rw [map_char_head?, map_char_head?, hleft, hleft']

/-- The no-break space before the sign takes two bytes. -/
example : tokenize "a\u00a0#" = .error ⟨'#', 3⟩ := by
  cbv

end Formulary
