import Formulary.Token.Lexer
import Mathlib.Data.List.TakeWhile

/-! The patterns of the lexical categories.
Identifiers and numbers are described by how their characters are put together.  What the scanner
takes from the front of a text always fits its category, and it takes a whole identifier or
number wherever the text behind it cannot continue one.
-/

namespace Formulary

namespace Lexeme

-----------------------------------------------------------------------------------------
-- How identifiers and numbers are written
-----------------------------------------------------------------------------------------

/-- A letter or an underscore, and behind it letters, digits and underscores. -/
def IsIdentifier : List Char → Prop
  | [] => False
  | c :: rest => isIdentifierStart c = true ∧ ∀ d ∈ rest, isIdentifierPart d = true

/-- One plus or minus, or nothing. -/
def IsOptionalSign (chars : List Char) : Prop :=
  chars = [] ∨ ∃ c, isSign c = true ∧ chars = [c]

/-- Digits and nothing else. -/
def AllDigits (chars : List Char) : Prop :=
  ∀ c ∈ chars, c.isDigit = true

/-- Digits with an optional point among or behind them, or a point before digits. -/
inductive IsMantissa : List Char → Prop where
  | whole {digits : List Char} (hne : digits ≠ []) (hdigits : AllDigits digits)
    : IsMantissa digits
  | pointed {whole fraction : List Char} (hne : whole ≠ []) (hwhole : AllDigits whole)
    (hfraction : AllDigits fraction)
    : IsMantissa (whole ++ '.' :: fraction)
  | fraction {fraction : List Char} (hne : fraction ≠ []) (hfraction : AllDigits fraction)
    : IsMantissa ('.' :: fraction)

/-- A mark with an optional sign and digits, or nothing. -/
inductive IsExponent : List Char → Prop where
  | absent
    : IsExponent []
  | marked {mark : Char} {sign power : List Char} (hmark : isExponentMark mark = true)
    (hsign : IsOptionalSign sign) (hne : power ≠ []) (hpower : AllDigits power)
    : IsExponent (mark :: (sign ++ power))

/-- An optional sign, a mantissa and an optional exponent. -/
def IsNumber (chars : List Char) : Prop :=
  ∃ sign mantissa exponent,
    chars = sign ++ mantissa ++ exponent
    ∧ IsOptionalSign sign
    ∧ IsMantissa mantissa
    ∧ IsExponent exponent

-----------------------------------------------------------------------------------------
-- What the scanner takes fits the pattern
-----------------------------------------------------------------------------------------

/-- What is read as digits are digits. -/
theorem allDigits_digits (chars : List Char)
    : AllDigits (digits chars) :=
  fun _ hc => List.mem_takeWhile_imp hc

/-- What is read as a sign is one or nothing. -/
theorem isOptionalSign_sign (chars : List Char)
    : IsOptionalSign (sign chars) := by
  cases chars with
  | nil => exact .inl rfl
  | cons c rest =>
      rw [sign]
      split
      · exact .inr ⟨c, by assumption, rfl⟩
      · exact .inl rfl

/-- What is read as a mantissa is one, case by case on its point and digits. -/
theorem isMantissa_mantissa {chars : List Char}
    : mantissa chars ≠ [] → IsMantissa (mantissa chars) := by
  fun_cases mantissa chars with
  | case1 => exact fun h => absurd rfl h
  | case2 rest hwhole hpoint hfraction =>
      exact fun _ => .fraction (by simpa using hfraction) (allDigits_digits rest)
  | case3 => exact fun h => absurd rfl h
  | case4 rest hpoint hne =>
      exact fun _ => .pointed hne (allDigits_digits chars) (allDigits_digits rest)
  | case5 hpoint hne =>
      exact fun _ => .whole hne (allDigits_digits chars)

/-- What is read as an exponent is one or nothing. -/
theorem isExponent_exponent (chars : List Char)
    : IsExponent (exponent chars) := by
  cases chars with
  | nil => exact .absent
  | cons c rest =>
      simp only [exponent]
      split
      · rename_i h
        simp only [Bool.and_eq_true, Bool.not_eq_true', List.isEmpty_eq_false_iff] at h
        exact .marked h.1 (isOptionalSign_sign rest) h.2 (allDigits_digits _)
      · exact .absent

/-- What is read as a number is a complete number, part by part. -/
theorem isNumber_number {chars : List Char} (h : number chars ≠ [])
    : IsNumber (number chars) := by
  simp only [number] at h ⊢
  split at h
  · exact absurd rfl h
  · rename_i hbody
    rw [if_neg hbody]
    exact
      ⟨_, _, _, rfl, isOptionalSign_sign chars, isMantissa_mantissa (by simpa using hbody),
        isExponent_exponent _⟩

/-- What is read as an identifier is one. -/
theorem isIdentifier_identifier {chars : List Char} (h : identifier chars ≠ [])
    : IsIdentifier (identifier chars) := by
  cases chars with
  | nil => exact absurd rfl h
  | cons c rest =>
      rw [identifier] at h ⊢
      split at h
      · rename_i hstart
        rw [if_pos hstart]
        exact ⟨hstart, fun d hd => List.mem_takeWhile_imp hd⟩
      · exact absurd rfl h

-----------------------------------------------------------------------------------------
-- The scanner takes everything that fits
-----------------------------------------------------------------------------------------

/-- Nothing that satisfies the test comes next. -/
def Stops (p : Char → Bool) (rest : List Char) : Prop :=
  ∀ c ∈ rest.head?, p c = false

/-- A text stops where its first character does not fit. -/
theorem stops_cons {p : Char → Bool} {c : Char} (h : p c = false) (rest : List Char)
    : Stops p (c :: rest) := by
  intro d hd
  cases hd
  exact h

/-- What stops the larger set of characters stops the smaller. -/
theorem Stops.mono {p q : Char → Bool} {rest : List Char} (h : Stops q rest)
    (hpq : ∀ c, q c = false → p c = false)
    : Stops p rest :=
  fun c hc => hpq c (h c hc)

/-- Nothing is taken where the text stops. -/
theorem takeWhile_of_stops {p : Char → Bool} {rest : List Char} (h : Stops p rest)
    : rest.takeWhile p = [] := by
  cases rest with
  | nil => rfl
  | cons c rest => simp [h c rfl]

/-- What is taken ends where the text stops. -/
theorem takeWhile_append_of_stops {p : Char → Bool} {word rest : List Char}
    (hword : ∀ c ∈ word, p c = true) (h : Stops p rest)
    : (word ++ rest).takeWhile p = word := by
  rw [List.takeWhile_append_of_pos hword, takeWhile_of_stops h, List.append_nil]

/-- What is left begins where the text stops. -/
theorem dropWhile_append_of_stops {p : Char → Bool} {word rest : List Char}
    (hword : ∀ c ∈ word, p c = true) (h : Stops p rest)
    : (word ++ rest).dropWhile p = rest := by
  rw [List.dropWhile_append_of_pos hword]
  cases rest with
  | nil => rfl
  | cons c rest => simp [h c rfl]

/-- A character that continues an identifier, a number or a dotted name. -/
def isWordPart (c : Char) : Bool :=
  isIdentifierPart c || c == '.'

/-- Every digit is part of a word. -/
theorem isDigit_eq_false_of_isWordPart {c : Char} (h : isWordPart c = false)
    : c.isDigit = false := by
  simp only [isWordPart, isIdentifierPart, Char.isAlphanum, Bool.or_eq_false_iff] at h
  exact h.1.1.2

/-- Every exponent mark is part of a word. -/
theorem isExponentMark_eq_false_of_isWordPart {c : Char} (h : isWordPart c = false)
    : isExponentMark c = false := by
  by_contra hmark
  simp only [isExponentMark, Bool.not_eq_false, Bool.or_eq_true, beq_iff_eq] at hmark
  rcases hmark with ((rfl | rfl) | rfl) | rfl <;> revert h <;> decide

/-- An identifier is read whole if no part of one follows. -/
theorem identifier_append {word rest : List Char} (hword : IsIdentifier word)
    (hrest : Stops isIdentifierPart rest)
    : identifier (word ++ rest) = word := by
  cases word with
  | nil => exact hword.elim
  | cons c others =>
      rw [List.cons_append, identifier, if_pos hword.1, takeWhile_append_of_stops hword.2 hrest]

/-- A sign or its absence is read as such if no other sign follows. -/
theorem sign_append {chars rest : List Char} (hchars : IsOptionalSign chars)
    (hrest : Stops isSign rest)
    : sign (chars ++ rest) = chars := by
  rcases hchars with rfl | ⟨c, hc, rfl⟩
  · cases rest with
    | nil => rfl
    | cons d rest => simp [sign, hrest d rfl]
  · simp [sign, hc]

/-- Digits do not begin with a sign. -/
theorem stops_isSign_of_digits {power : List Char} (hne : power ≠ []) (hpower : AllDigits power)
    (rest : List Char)
    : Stops isSign (power ++ rest) := by
  cases power with
  | nil => exact absurd rfl hne
  | cons c power =>
      refine stops_cons ?_ _
      have hdigit := hpower c List.mem_cons_self
      by_contra hsign
      simp only [isSign, Bool.not_eq_false, Bool.or_eq_true, beq_iff_eq] at hsign
      rcases hsign with rfl | rfl <;> revert hdigit <;> decide

/-- A mantissa begins with a digit or a point, so never with a sign. -/
theorem stops_isSign_of_isMantissa {chars : List Char} (h : IsMantissa chars) (rest : List Char)
    : Stops isSign (chars ++ rest) := by
  cases h with
  | whole hne hdigits => exact stops_isSign_of_digits hne hdigits rest
  | pointed hne hwhole _ =>
      rw [List.append_assoc]
      exact stops_isSign_of_digits hne hwhole _
  | fraction _ _ => exact stops_cons rfl _

/-- A mantissa has at least one digit. -/
theorem mantissa_ne_nil {chars : List Char} (h : IsMantissa chars)
    : chars ≠ [] := by
  cases h with
  | whole hne _ => exact hne
  | pointed _ _ _ => simp
  | fraction _ _ => simp

/-- Digits are read whole if no other digit follows. -/
theorem digits_append {power rest : List Char} (hpower : AllDigits power)
    (hrest : Stops Char.isDigit rest)
    : digits (power ++ rest) = power :=
  takeWhile_append_of_stops hpower hrest

/-- A mantissa is read whole if neither a digit nor a point follows.  By cases on its form: the
digits in front of the point end there, and those behind it where it does. -/
theorem mantissa_append {chars rest : List Char} (hchars : IsMantissa chars)
    (hrest : Stops (fun c => c.isDigit || c == '.') rest)
    : mantissa (chars ++ rest) = chars := by
  have hdigit : Stops Char.isDigit rest := hrest.mono fun c hc => (Bool.or_eq_false_iff.1 hc).1
  have hpoint : ∀ others, Stops Char.isDigit ('.' :: others) := fun others => stops_cons rfl others
  cases hchars with
  | whole hne hdigits =>
      rw [mantissa, digits_append hdigits hdigit, dropWhile_append_of_stops hdigits hdigit]
      split
      · exact absurd rfl hne
      · exact absurd rfl hne
      · simpa using hrest '.' rfl
      · rfl
  | @pointed whole fraction hne hwhole hfraction =>
      rw [List.append_assoc, List.cons_append, mantissa, digits_append hwhole (hpoint _),
        dropWhile_append_of_stops hwhole (hpoint _)]
      cases whole with
      | nil => exact absurd rfl hne
      | cons c whole =>
          simp only [digits_append hfraction hdigit]
  | @fraction fraction hne hfraction =>
      have hnone : digits ('.' :: (fraction ++ rest)) = [] := takeWhile_of_stops (hpoint _)
      have hdrop : ('.' :: (fraction ++ rest)).dropWhile Char.isDigit = '.' :: (fraction ++ rest) :=
        rfl
      rw [List.cons_append, mantissa, hnone, hdrop]
      simp [digits_append hfraction hdigit, hne]

/-- An exponent is read whole if no part of a word follows. -/
theorem exponent_append {chars rest : List Char} (hchars : IsExponent chars)
    (hrest : Stops isWordPart rest)
    : exponent (chars ++ rest) = chars := by
  cases hchars with
  | absent =>
      cases rest with
      | nil => rfl
      | cons c rest => simp [exponent, isExponentMark_eq_false_of_isWordPart (hrest c rfl)]
  | @marked mark sgn power hmark hsign hne hpower =>
      have hsgn : sign (sgn ++ (power ++ rest)) = sgn :=
        sign_append hsign (stops_isSign_of_digits hne hpower rest)
      have hdigits : digits (power ++ rest) = power :=
        digits_append hpower (hrest.mono fun _ => isDigit_eq_false_of_isWordPart)
      simp [exponent, hsgn, hdigits, hmark, hne]

/-- No mantissa goes on with the mark of an exponent. -/
theorem stops_mantissa_of_isExponentMark {mark : Char} (h : isExponentMark mark = true)
    (rest : List Char)
    : Stops (fun c => c.isDigit || c == '.') (mark :: rest) := by
  refine stops_cons ?_ rest
  simp only [isExponentMark, Bool.or_eq_true, beq_iff_eq] at h
  rcases h with ((rfl | rfl) | rfl) | rfl <;> rfl

/-- A whole number is taken where no digit, letter or point follows it.  Its parts are taken one
after another, and none of them goes on into the next. -/
theorem number_append {chars rest : List Char} (hchars : IsNumber chars)
    (hrest : Stops isWordPart rest)
    : number (chars ++ rest) = chars := by
  obtain ⟨sgn, body, power, rfl, hsign, hbody, hpower⟩ := hchars
  have hsgn : sign (sgn ++ (body ++ (power ++ rest))) = sgn :=
    sign_append hsign (stops_isSign_of_isMantissa hbody _)
  -- An exponent begins with its mark, so the mantissa ends there even when one follows.
  have hafter : Stops (fun c => c.isDigit || c == '.') (power ++ rest) := by
    cases hpower with
    | absent =>
        refine hrest.mono fun c hc => Bool.or_eq_false_iff.2 ?_
        exact ⟨isDigit_eq_false_of_isWordPart hc, (Bool.or_eq_false_iff.1 hc).2⟩
    | marked hmark _ _ _ => exact stops_mantissa_of_isExponentMark hmark _
  simp [number, hsgn, mantissa_append hbody hafter, exponent_append hpower hrest,
    mantissa_ne_nil hbody]

/-- A number begins with a sign, a digit or a point. -/
theorem exists_head_of_isNumber {chars : List Char} (h : IsNumber chars)
    : ∃ c others, chars = c :: others ∧ (isSign c = true ∨ c.isDigit = true ∨ c = '.') := by
  obtain ⟨sign, mantissa, exponent, rfl, hsign, hmantissa, -⟩ := h
  rcases hsign with rfl | ⟨c, hc, rfl⟩
  · cases hmantissa with
    | @whole digits hne hdigits =>
        obtain ⟨c, others, rfl⟩ := List.exists_cons_of_ne_nil hne
        exact ⟨c, _, rfl, .inr (.inl (hdigits c List.mem_cons_self))⟩
    | @pointed whole fraction hne hwhole _ =>
        obtain ⟨c, others, rfl⟩ := List.exists_cons_of_ne_nil hne
        exact ⟨c, _, rfl, .inr (.inl (hwhole c List.mem_cons_self))⟩
    | fraction _ _ => exact ⟨'.', _, rfl, .inr (.inr rfl)⟩
  · exact ⟨c, _, rfl, .inl hc⟩

/-- Nothing follows at the end. -/
theorem stops_nil (p : Char → Bool)
    : Stops p [] := by
  intro c hc
  cases hc

/-- A text is a number exactly when the scanner takes all of it. -/
theorem isNumber_iff {chars : List Char}
    : IsNumber chars ↔ chars ≠ [] ∧ number chars = chars := by
  constructor
  · intro h
    obtain ⟨c, others, rfl, _⟩ := exists_head_of_isNumber h
    have hnumber := number_append h (stops_nil isWordPart)
    rw [List.append_nil] at hnumber
    exact ⟨List.cons_ne_nil c others, hnumber⟩
  · intro h
    obtain ⟨hne, hnumber⟩ := h
    rw [← hnumber] at hne ⊢
    exact isNumber_number hne

/-- A text is an identifier exactly when the scanner takes all of it. -/
theorem isIdentifier_iff {chars : List Char}
    : IsIdentifier chars ↔ chars ≠ [] ∧ identifier chars = chars := by
  constructor
  · intro h
    have hidentifier := identifier_append h (stops_nil isIdentifierPart)
    rw [List.append_nil] at hidentifier
    exact ⟨fun hnil => by simp [hnil, IsIdentifier] at h, hidentifier⟩
  · intro h
    obtain ⟨hne, hidentifier⟩ := h
    rw [← hidentifier] at hne ⊢
    exact isIdentifier_identifier hne

-----------------------------------------------------------------------------------------
-- The characters of identifiers and numbers
-----------------------------------------------------------------------------------------

/-- An identifier begins with a letter or an underscore, told by the code of the character. -/
theorem isIdentifierStart_iff {c : Char}
    : isIdentifierStart c = true
      ↔ (65 ≤ c.toNat ∧ c.toNat ≤ 90) ∨ (97 ≤ c.toNat ∧ c.toNat ≤ 122) ∨ c.toNat = 95 := by
  have hletter
      : c.isAlpha
        = (decide ('A'.val ≤ c.val ∧ c.val ≤ 'Z'.val)
          || decide ('a'.val ≤ c.val) && decide (c.val ≤ 'z'.val)) :=
    rfl
  have hunderscore : c = '_' ↔ c.toNat = 95 := by
    rw [← Char.toNat_inj]
    rfl
  simp only [isIdentifierStart, hletter, Bool.or_eq_true, Bool.and_eq_true, decide_eq_true_eq,
    UInt32.le_iff_toNat_le, beq_iff_eq, hunderscore, or_assoc]
  rfl

/-- Behind its first character an identifier may also have digits. -/
theorem isIdentifierPart_eq (c : Char)
    : isIdentifierPart c = (isIdentifierStart c || c.isDigit) := by
  simp only [isIdentifierPart, isIdentifierStart, Char.isAlphanum]
  cases c.isAlpha <;> cases c.isDigit <;> simp

/-- No digit begins an identifier. -/
theorem isIdentifierStart_eq_false_of_isDigit {c : Char} (h : c.isDigit = true)
    : isIdentifierStart c = false := by
  simp only [Char.isDigit_iff_toNat, Char.reduceToNat] at h
  rw [← Bool.not_eq_true, isIdentifierStart_iff]
  omega

/-- What begins an identifier is no digit. -/
theorem isDigit_eq_false_of_isIdentifierStart {c : Char} (h : isIdentifierStart c = true)
    : c.isDigit = false := by
  rw [isIdentifierStart_iff] at h
  rw [← Bool.not_eq_true, Char.isDigit_iff_toNat]
  simp only [Char.reduceToNat]
  omega

/-- No visible character of the basic range is a blank. -/
theorem isBlank_eq_false_of_toNat {c : Char} (hlow : 0x20 < c.toNat) (hhigh : c.toNat < 0x80)
    : Text.isBlank c = false := by
  rw [← Bool.not_eq_true]
  simp only [Text.isBlank, Bool.or_eq_true, Bool.and_eq_true, decide_eq_true_eq, beq_iff_eq]
  omega

/-- No part of a word is a blank. -/
theorem isBlank_eq_false_of_isWordPart {c : Char} (h : isWordPart c = true)
    : Text.isBlank c = false := by
  rw [isWordPart, isIdentifierPart_eq, Bool.or_eq_true, Bool.or_eq_true, isIdentifierStart_iff,
    Char.isDigit_iff_toNat, beq_iff_eq] at h
  simp only [Char.reduceToNat] at h
  rcases h with (h | h) | rfl
  · exact isBlank_eq_false_of_toNat (by omega) (by omega)
  · exact isBlank_eq_false_of_toNat (by omega) (by omega)
  · decide

/-- No sign is a blank. -/
theorem isBlank_eq_false_of_isSign {c : Char} (h : isSign c = true)
    : Text.isBlank c = false := by
  simp only [isSign, Bool.or_eq_true, beq_iff_eq] at h
  rcases h with rfl | rfl <;> decide

/-- An identifier is made of parts of words. -/
theorem isWordPart_of_isIdentifier {chars : List Char} (h : IsIdentifier chars)
    : ∀ c ∈ chars, isWordPart c = true := by
  cases chars with
  | nil => exact h.elim
  | cons c others =>
      refine List.forall_mem_cons.2 ⟨?_, fun d hd => ?_⟩
      · rw [isWordPart, isIdentifierPart_eq, h.1]
        rfl
      · rw [isWordPart, h.2 d hd]
        rfl

/-- The signs of a number are the only characters that could not stand in a name.  Points count as
parts of words here. -/
theorem isWordPart_or_isSign_of_isNumber {chars : List Char} (h : IsNumber chars)
    : ∀ c ∈ chars, isWordPart c = true ∨ isSign c = true := by
  have hdigits : ∀ {digits},
      AllDigits digits → ∀ c ∈ digits, isWordPart c = true ∨ isSign c = true := by
    intro digits hdigits c hc
    rw [isWordPart, isIdentifierPart_eq, hdigits c hc, Bool.or_true]
    exact .inl rfl
  have hsigns : ∀ {sign},
      IsOptionalSign sign → ∀ c ∈ sign, isWordPart c = true ∨ isSign c = true := by
    intro sign hsign
    rcases hsign with rfl | ⟨d, hd, rfl⟩
    · exact List.forall_mem_nil _
    · exact List.forall_mem_singleton.2 (.inr hd)
  obtain ⟨sign, mantissa, exponent, rfl, hsign, hmantissa, hexponent⟩ := h
  rw [List.forall_mem_append, List.forall_mem_append]
  refine ⟨⟨hsigns hsign, ?_⟩, ?_⟩
  · cases hmantissa with
    | whole _ hwhole => exact hdigits hwhole
    | pointed _ hwhole hfraction =>
        rw [List.forall_mem_append, List.forall_mem_cons]
        exact ⟨hdigits hwhole, .inl rfl, hdigits hfraction⟩
    | fraction _ hfraction =>
        rw [List.forall_mem_cons]
        exact ⟨.inl rfl, hdigits hfraction⟩
  · cases hexponent with
    | absent => exact List.forall_mem_nil _
    | marked hmark hsign _ hpower =>
        rw [List.forall_mem_cons, List.forall_mem_append]
        refine ⟨.inl ?_, hsigns hsign, hdigits hpower⟩
        simp only [isExponentMark, Bool.or_eq_true, beq_iff_eq] at hmark
        rcases hmark with ((rfl | rfl) | rfl) | rfl <;> rfl

/-- No character of an identifier is blank. -/
theorem isBlank_eq_false_of_isIdentifier {chars : List Char} (h : IsIdentifier chars)
    : ∀ c ∈ chars, Text.isBlank c = false :=
  fun c hc => isBlank_eq_false_of_isWordPart (isWordPart_of_isIdentifier h c hc)

/-- No character of a number is blank. -/
theorem isBlank_eq_false_of_isNumber {chars : List Char} (h : IsNumber chars)
    : ∀ c ∈ chars, Text.isBlank c = false := by
  intro c hc
  rcases isWordPart_or_isSign_of_isNumber h c hc with hword | hsign
  · exact isBlank_eq_false_of_isWordPart hword
  · exact isBlank_eq_false_of_isSign hsign

end Lexeme

end Formulary
