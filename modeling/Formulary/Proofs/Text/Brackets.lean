import Formulary.Proofs.Text.Lines
import Mathlib.Algebra.Ring.Nat

/-! Round, square and curly brackets that nest properly.
A text is read with the brackets that are still to be closed on a stack.  What nests properly leaves
any such stack as it found it, so it may stand anywhere in another text.
-/

namespace Formulary.Text

-----------------------------------------------------------------------------------------
-- Reading brackets
-----------------------------------------------------------------------------------------

/-- The bracket that closes an opening one. -/
def closing? : Char → Option Char
  | '(' => some ')'
  | '[' => some ']'
  | '\x7b' => some '\x7d'
  | _ => none

def isClosing (c : Char) : Bool :=
  c == ')' || c == ']' || c == '\x7d'

def isBracket (c : Char) : Bool :=
  (closing? c).isSome || isClosing c

/-- Reads a character while brackets are awaited, the next one first.  It fails at a closing
bracket that is not the next one. -/
def closeStep (awaited : List Char) (c : Char) : Option (List Char) :=
  match closing? c with
  | some close => some (close :: awaited)
  | none =>
      if isClosing c then if awaited.head? = some c then some awaited.tail else none
      else some awaited

/-- Holds of texts in which every bracket that opens is closed in turn, and no other closes. -/
def Nested (text : String) : Prop :=
  text.toList.foldlM closeStep [] = some []

instance (text : String) : Decidable (Nested text) :=
  inferInstanceAs (Decidable (_ = _))

/-- Holds of texts without brackets. -/
def Bracketless (text : String) : Prop :=
  ∀ c ∈ text.toList, isBracket c = false

instance (text : String) : Decidable (Bracketless text) :=
  List.decidableBAll (fun c => isBracket c = false) text.toList

/-- A character that is no bracket opens and closes nothing. -/
theorem closeStep_of_isBracket_eq_false {c : Char} (h : isBracket c = false)
    (awaited : List Char)
    : closeStep awaited c = some awaited := by
  rw [isBracket, Bool.or_eq_false_iff, Option.isSome_eq_false_iff, Option.isNone_iff_eq_none] at h
  rw [closeStep, h.1, h.2]
  rfl

/-- No blank is a bracket. -/
theorem isBracket_eq_false_of_isBlank {c : Char} (h : isBlank c = true)
    : isBracket c = false := by
  by_contra hbracket
  have hcases : c = '(' ∨ c = '[' ∨ c = '\x7b' ∨ c = ')' ∨ c = ']' ∨ c = '\x7d' := by
    rw [Bool.not_eq_false, isBracket, closing?.eq_def, isClosing] at hbracket
    split at hbracket <;> simp_all [or_assoc]
  rcases hcases with rfl | rfl | rfl | rfl | rfl | rfl <;> exact Bool.noConfusion h

/-- The brackets among characters, in order. -/
def brackets (chars : List Char) : List Char :=
  chars.filter isBracket

/-- Reading goes by the brackets alone. -/
theorem foldlM_closeStep_brackets (chars awaited : List Char)
    : (brackets chars).foldlM closeStep awaited = chars.foldlM closeStep awaited := by
  induction chars generalizing awaited with
  | nil => rfl
  | cons c chars ih =>
      cases hc : isBracket c with
      | true =>
          rw [brackets, List.filter_cons_of_pos hc, List.foldlM_cons, List.foldlM_cons]
          exact bind_congr fun awaited => ih awaited
      | false =>
          rw [brackets, List.filter_cons_of_neg (by simp [hc]), List.foldlM_cons,
            closeStep_of_isBracket_eq_false hc]
          exact ih awaited

-----------------------------------------------------------------------------------------
-- Balanced texts
-----------------------------------------------------------------------------------------

/-- Holds of texts that nest properly wherever they stand and open so many curly brackets. -/
structure Balanced (curly : Nat) (text : String) : Prop where
  nests : ∀ awaited, text.toList.foldlM closeStep awaited = some awaited
  count : text.toList.count '\x7b' = curly

/-- A text whose brackets are balanced is properly nested. -/
theorem Balanced.nested {curly : Nat} {text : String} (h : Balanced curly text)
    : Nested text :=
  h.nests []

/-- A text with the brackets of a balanced one is balanced. -/
theorem Balanced.of_brackets_eq {curly : Nat} {text other : String} (h : Balanced curly text)
    (heq : brackets other.toList = brackets text.toList)
    : Balanced curly other where
  nests awaited := by
    rw [← foldlM_closeStep_brackets, heq, foldlM_closeStep_brackets, h.nests]
  count := by
    have hcount (chars : List Char) : (brackets chars).count '\x7b' = chars.count '\x7b' :=
      List.count_filter rfl
    rw [← hcount, heq, hcount, h.count]

/-- A text without brackets is balanced. -/
theorem Bracketless.balanced {text : String} (h : Bracketless text)
    : Balanced 0 text := by
  have hbrackets : brackets text.toList = [] := by
    rw [brackets, List.filter_eq_nil_iff]
    exact fun c hc => by simp [h c hc]
  have hempty : Balanced 0 "" := ⟨fun _ => rfl, rfl⟩
  exact hempty.of_brackets_eq hbrackets

/-- Balanced texts side by side are balanced, and their curly brackets add up. -/
theorem Balanced.append {curly more : Nat} {first second : String} (hfirst : Balanced curly first)
    (hsecond : Balanced more second)
    : Balanced (curly + more) (first ++ second) where
  nests awaited := by
    rw [String.toList_append, List.foldlM_append, hfirst.nests]
    exact hsecond.nests awaited
  count := by rw [String.toList_append, List.count_append, hfirst.count, hsecond.count]

/-- What closes a bracket is a closing bracket and opens none. -/
theorem isClosing_of_closing? {first last : Char} (h : closing? first = some last)
    : isClosing last = true ∧ closing? last = none := by
  rw [closing?.eq_def] at h
  split at h <;> cases h <;> exact ⟨rfl, rfl⟩

/-- A balanced text between a bracket and the one that closes it is balanced.  The first one awaits
the second, and what stands between leaves what is awaited as it is. -/
theorem Balanced.enclose {curly : Nat} {text : String} (h : Balanced curly text) {first last : Char}
    (hclosing : closing? first = some last)
    : Balanced (curly + [first].count '\x7b')
        (String.singleton first ++ text ++ String.singleton last) := by
  obtain ⟨hisClosing, hlast⟩ := isClosing_of_closing? hclosing
  constructor
  · intro awaited
    have hopen : closeStep awaited first = some (last :: awaited) := by rw [closeStep, hclosing]
    have hclose : closeStep (last :: awaited) last = some awaited := by
      simp [closeStep, hlast, hisClosing]
    simp [List.foldlM_append, hopen, h.nests, hclose]
  · have hcurly : [last].count '\x7b' = 0 := by
      refine List.count_eq_zero.2 fun hmem => ?_
      obtain rfl := List.mem_singleton.1 hmem
      exact Bool.noConfusion hisClosing
    simp only [String.toList_append, String.toList_singleton, List.count_append, h.count, hcurly]
    omega

/-- A balanced text stays so between round brackets. -/
theorem Balanced.round {curly : Nat} {text : String} (h : Balanced curly text)
    : Balanced curly ("(" ++ text ++ ")") :=
  h.enclose (show closing? '(' = some ')' from rfl)

/-- A balanced text stays so between square brackets. -/
theorem Balanced.square {curly : Nat} {text : String} (h : Balanced curly text)
    : Balanced curly ("[" ++ text ++ "]") :=
  h.enclose (show closing? '[' = some ']' from rfl)

/-- A balanced text stays so between curly brackets, and has one more pair of them. -/
theorem Balanced.curly {curly : Nat} {text : String} (h : Balanced curly text)
    : Balanced (curly + 1) ("\x7b" ++ text ++ "\x7d") :=
  h.enclose (show closing? '\x7b' = some '\x7d' from rfl)

example
    : Nested "a[f(\x7b\x7d)]" ∧ ¬ Nested "([)]" := by
  decide

/-- Texts without brackets may be put between balanced ones. -/
theorem balanced_intercalate {separator : String} (hseparator : Bracketless separator)
    {α : Type} {items : List α} {f : α → String} {curly : α → Nat}
    (h : ∀ a ∈ items, Balanced (curly a) (f a))
    : Balanced (items.map curly).sum (separator.intercalate (items.map f)) := by
  induction items with
  | nil => exact ⟨fun _ => rfl, rfl⟩
  | cons a items ih =>
      obtain ⟨ha, hitems⟩ := List.forall_mem_cons.1 h
      cases items with
      | nil => simpa using ha
      | cons b items =>
          rw [List.map_cons, List.sum_cons, List.map_cons (f := f),
            String.intercalate_cons_of_ne_nil (by simp)]
          exact (ha.append hseparator.balanced).append (ih hitems)

/-- Items without curly brackets are balanced side by side if each of them is. -/
theorem balanced_intercalate_zero {separator : String} (hseparator : Bracketless separator)
    {α : Type} {items : List α} {f : α → String} (h : ∀ a ∈ items, Balanced 0 (f a))
    : Balanced 0 (separator.intercalate (items.map f)) := by
  have hzero : ∀ a ∈ items, Balanced ((fun _ => 0) a) (f a) := h
  simpa using balanced_intercalate hseparator hzero

-----------------------------------------------------------------------------------------
-- Trimming and lines
-----------------------------------------------------------------------------------------

/-- The brackets of texts side by side come part by part. -/
@[simp]
theorem brackets_append (first second : List Char)
    : brackets (first ++ second) = brackets first ++ brackets second :=
  List.filter_append _ _

/-- Blanks have no brackets among them. -/
theorem brackets_eq_nil_of_blank {chars : List Char} (h : ∀ c ∈ chars, isBlank c = true)
    : brackets chars = [] := by
  rw [brackets, List.filter_eq_nil_iff]
  exact fun c hc => by simp [isBracket_eq_false_of_isBlank (h c hc)]

/-- Trimming the front takes no bracket away, as blanks are none. -/
theorem brackets_trimStartChars (chars : List Char)
    : brackets (trimStartChars chars) = brackets chars := by
  have hblank : brackets (chars.takeWhile isBlank) = [] :=
    brackets_eq_nil_of_blank fun c hc => List.mem_takeWhile_imp hc
  calc
    brackets (trimStartChars chars)
      = brackets (chars.takeWhile isBlank ++ chars.dropWhile isBlank) := by
        rw [brackets_append, hblank, List.nil_append, trimStartChars]
    _ = brackets chars := by rw [List.takeWhile_append_dropWhile]

/-- Trimming takes no bracket away, as blanks are none. -/
theorem brackets_trimChars (chars : List Char)
    : brackets (trimChars chars) = brackets chars := by
  have hend (chars : List Char) : brackets (trimEndChars chars) = brackets chars := by
    rw [trimEndChars, ← trimStartChars, brackets, List.filter_reverse, ← brackets,
      brackets_trimStartChars, brackets, List.filter_reverse, List.reverse_reverse, brackets]
  rw [trimChars, hend, brackets_trimStartChars]

/-- A balanced text stays so when it is trimmed. -/
theorem Balanced.trim {curly : Nat} {text : String} (h : Balanced curly text)
    : Balanced curly (trim text) :=
  h.of_brackets_eq (by rw [Text.trim, String.toList_ofList, brackets_trimChars])

/-- The brackets of a text are those of its lines.  Line feeds and carriage returns, which are all
that the lines lack, are no brackets. -/
theorem flatMap_brackets_lineChars (chars : List Char)
    : (lineChars chars).flatMap brackets = brackets chars := by
  induction chars using lineChars.induct with
  | case1 => rfl
  | case2 chars ih =>
      rw [lineChars, List.flatMap_cons, ih]
      rfl
  | case3 chars ih =>
      rw [lineChars, List.flatMap_cons, ih]
      rfl
  | case4 c chars hreturn hfeed hnil ih =>
      obtain rfl := lineChars_eq_nil_iff.1 hnil
      rw [lineChars_cons hfeed hreturn, hnil]
      exact List.append_nil _
  | case5 c chars hreturn hfeed line lines hlines ih =>
      rw [hlines, List.flatMap_cons] at ih
      have hcons (more : List Char) : brackets (c :: more) = brackets [c] ++ brackets more :=
        brackets_append [c] more
      rw [lineChars_cons hfeed hreturn, hlines, List.flatMap_cons, hcons line, hcons chars, ← ih,
        List.append_assoc]

end Formulary.Text
