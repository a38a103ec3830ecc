import Formulary.Proofs.Token.Lexing
import Mathlib.Data.List.Infix

/-! Patterns that go on as far as they can, and the longest number.
A pattern is tried in an order of preference: a part that may be left out is taken if it can be,
and a repetition goes on while it can.  The first way of matching that comes about so is what the
scanner takes as a number.  It need not be the longest for every pattern, but for numbers it is.
-/

namespace Formulary

namespace Lexeme

-----------------------------------------------------------------------------------------
-- Patterns and the order in which they are tried
-----------------------------------------------------------------------------------------

/-- A pattern for the front of a text. -/
inductive Pattern where
  /-- One character that passes a test. -/
  | one (p : Char → Bool)
  /-- Characters that pass a test, rather more of them than fewer. -/
  | many (p : Char → Bool)
  | seq (first second : Pattern)
  /-- One of two patterns, rather the first. -/
  | either (first second : Pattern)
  /-- A pattern or nothing, rather the pattern. -/
  | optional (pattern : Pattern)

namespace Pattern

/-- What can be taken from the front of a text, in the order of preference. -/
def ways : Pattern → List Char → List (List Char)
  | one _, [] => []
  | one p, c :: _ => if p c then [[c]] else []
  | many p, chars => (chars.takeWhile p).inits.reverse
  | seq first second, chars =>
      (first.ways chars).flatMap fun word =>
        (second.ways (chars.drop word.length)).map (word ++ ·)
  | either first second, chars => first.ways chars ++ second.ways chars
  | optional pattern, chars => pattern.ways chars ++ [[]]

/-- What is taken: the first way, if there is one. -/
def taken (pattern : Pattern) (chars : List Char) : Option (List Char) :=
  (pattern.ways chars).head?

/-- The texts that a pattern stands for, whatever it prefers. -/
def Fits : Pattern → List Char → Prop
  | one p, word => ∃ c, p c = true ∧ word = [c]
  | many p, word => ∀ c ∈ word, p c = true
  | seq first second, word =>
      ∃ left right, word = left ++ right ∧ first.Fits left ∧ second.Fits right
  | either first second, word => first.Fits word ∨ second.Fits word
  | optional pattern, word => pattern.Fits word ∨ word = []

def digits : Pattern :=
  seq (one Char.isDigit) (many Char.isDigit)

def point : Pattern :=
  one (· == '.')

def sign : Pattern :=
  optional (one isSign)

def mantissa : Pattern :=
  either (seq digits (seq (optional point) (many Char.isDigit))) (seq point digits)

def exponent : Pattern :=
  optional (seq (one isExponentMark) (seq sign digits))

/-- A number with or without a sign, a point and an exponent. -/
def number : Pattern :=
  seq sign (seq mantissa exponent)

-----------------------------------------------------------------------------------------
-- All ways of matching
-----------------------------------------------------------------------------------------

/-- The ways of matching are the texts that fit among those a text begins with.  By induction on the
pattern: a sequence takes its second part behind the first, and a repetition stops anywhere. -/
theorem mem_ways {pattern : Pattern} {chars word : List Char}
    : word ∈ pattern.ways chars ↔ word <+: chars ∧ pattern.Fits word := by
  induction pattern generalizing chars word with
  | one p =>
      cases chars with
      | nil =>
          simp only [ways, Fits, List.not_mem_nil, List.prefix_nil, false_iff]
          rintro ⟨rfl, c, -, hword⟩
          cases hword
      | cons c rest =>
          simp only [ways, Fits]
          constructor
          · intro h
            split at h
            · rename_i hc
              obtain rfl := List.mem_singleton.1 h
              exact ⟨List.prefix_append [c] rest, c, hc, rfl⟩
            · cases h
          · rintro ⟨hfront, d, hd, rfl⟩
            obtain ⟨rfl, -⟩ := List.cons_prefix_cons.1 hfront
            rw [if_pos hd]
            exact List.mem_singleton.2 rfl
  | many p =>
      rw [ways, List.mem_reverse, List.mem_inits, Fits]
      constructor
      · intro h
        exact ⟨h.trans (List.takeWhile_prefix p), fun c hc => List.mem_takeWhile_imp (h.subset hc)⟩
      · rintro ⟨⟨rest, rfl⟩, hword⟩
        rw [List.takeWhile_append_of_pos hword]
        exact List.prefix_append word _
  | seq first second ihFirst ihSecond =>
      simp only [ways, Fits, List.mem_flatMap, List.mem_map, ihFirst, ihSecond]
      constructor
      · rintro ⟨left, ⟨hleft, hfirst⟩, right, ⟨hright, hsecond⟩, rfl⟩
        exact ⟨isPrefix_append hleft hright, left, right, rfl, hfirst, hsecond⟩
      · rintro ⟨⟨rest, rfl⟩, left, right, rfl, hfirst, hsecond⟩
        refine ⟨left, ⟨⟨right ++ rest, by simp⟩, hfirst⟩, right, ⟨⟨rest, by simp⟩, hsecond⟩, rfl⟩
  | either first second ihFirst ihSecond =>
      rw [ways, List.mem_append, ihFirst, ihSecond, Fits, and_or_left]
  | optional pattern ih =>
      rw [ways, List.mem_append, ih, Fits, List.mem_singleton, and_or_left]
      refine or_congr_right ⟨?_, And.right⟩
      rintro rfl
      exact ⟨List.nil_prefix, rfl⟩

/-- The pattern of digits is fit by digits, at least one. -/
theorem fits_digits_iff {word : List Char}
    : digits.Fits word ↔ word ≠ [] ∧ AllDigits word := by
  constructor
  · rintro ⟨_, right, rfl, ⟨c, hc, rfl⟩, hright⟩
    exact ⟨List.cons_ne_nil c right, List.forall_mem_cons.2 ⟨hc, hright⟩⟩
  · rintro ⟨hne, hword⟩
    obtain ⟨c, rest, rfl⟩ := List.exists_cons_of_ne_nil hne
    obtain ⟨hc, hrest⟩ := List.forall_mem_cons.1 hword
    exact ⟨[c], rest, rfl, ⟨c, hc, rfl⟩, hrest⟩

/-- The pattern of a point is fit by a point. -/
theorem fits_point_iff {word : List Char}
    : point.Fits word ↔ word = ['.'] := by
  simp [point, Fits]

/-- The pattern of a sign is fit by one or by nothing. -/
theorem fits_sign_iff {word : List Char}
    : sign.Fits word ↔ IsOptionalSign word :=
  or_comm

/-- The pattern of a mantissa is fit by digits with at most one point among or around them.  Digits
stand in front of it or behind it. -/
theorem fits_mantissa_iff {word : List Char}
    : mantissa.Fits word ↔ IsMantissa word := by
  constructor
  · rintro (⟨whole, _, rfl, hwhole, middle, fraction, rfl, hpoint, hfraction⟩
      | ⟨_, fraction, rfl, hpoint, hfraction⟩)
    · obtain ⟨hne, hdigits⟩ := fits_digits_iff.1 hwhole
      rcases hpoint with hpoint | rfl
      · obtain rfl := fits_point_iff.1 hpoint
        exact .pointed hne hdigits hfraction
      · exact .whole (by simp [hne]) (List.forall_mem_append.2 ⟨hdigits, hfraction⟩)
    · obtain rfl := fits_point_iff.1 hpoint
      obtain ⟨hne, hdigits⟩ := fits_digits_iff.1 hfraction
      exact .fraction hne hdigits
  · intro h
    cases h with
    | whole hne hdigits =>
        exact .inl ⟨word, [], by simp, fits_digits_iff.2 ⟨hne, hdigits⟩, [], [], rfl, .inr rfl,
          List.forall_mem_nil _⟩
    | @pointed whole fraction hne hwhole hfraction =>
        exact .inl ⟨whole, _, rfl, fits_digits_iff.2 ⟨hne, hwhole⟩, ['.'], fraction, rfl,
          .inl (fits_point_iff.2 rfl), hfraction⟩
    | @fraction fraction hne hfraction =>
        exact .inr ⟨['.'], fraction, rfl, fits_point_iff.2 rfl,
          fits_digits_iff.2 ⟨hne, hfraction⟩⟩

/-- The pattern of an exponent is fit by a mark, a sign or none, and digits, or by nothing.  Digits
are needed behind the mark. -/
theorem fits_exponent_iff {word : List Char}
    : exponent.Fits word ↔ IsExponent word := by
  constructor
  · rintro (⟨_, _, rfl, ⟨mark, hmark, rfl⟩, sgn, power, rfl, hsign, hpower⟩ | rfl)
    · obtain ⟨hne, hdigits⟩ := fits_digits_iff.1 hpower
      change IsExponent (mark :: (sgn ++ power))
      exact .marked hmark (fits_sign_iff.1 hsign) hne hdigits
    · exact .absent
  · intro h
    cases h with
    | absent => exact .inr rfl
    | @marked mark sgn power hmark hsign hne hpower =>
        exact .inl ⟨[mark], _, rfl, ⟨mark, hmark, rfl⟩, sgn, power, rfl, fits_sign_iff.2 hsign,
          fits_digits_iff.2 ⟨hne, hpower⟩⟩

/-- The pattern of a number is fit by exactly the complete numbers, part by part. -/
theorem fits_number_iff {word : List Char}
    : number.Fits word ↔ IsNumber word := by
  constructor
  · rintro ⟨sgn, _, rfl, hsign, body, power, rfl, hbody, hpower⟩
    exact ⟨sgn, body, power, by simp, fits_sign_iff.1 hsign, fits_mantissa_iff.1 hbody,
      fits_exponent_iff.1 hpower⟩
  · rintro ⟨sgn, body, power, rfl, hsign, hbody, hpower⟩
    exact ⟨sgn, body ++ power, by simp, fits_sign_iff.2 hsign, body, power, rfl,
      fits_mantissa_iff.2 hbody, fits_exponent_iff.2 hpower⟩

end Pattern

-----------------------------------------------------------------------------------------
-- Nothing that fits goes beyond what the scanner takes
-----------------------------------------------------------------------------------------

variable {chars word : List Char}

/-- No digits in front of a text reach further than those that are read. -/
theorem prefix_digits (hword : AllDigits word) (h : word <+: chars)
    : word <+: digits chars := by
  obtain ⟨rest, rfl⟩ := h
  rw [digits, List.takeWhile_append_of_pos hword]
  exact List.prefix_append word _

/-- A mantissa that is read takes all digits in front of its point. -/
theorem digits_prefix_mantissa (chars : List Char)
    : digits chars <+: mantissa chars := by
  fun_cases mantissa chars with
  | case1 _ _ hnone => simp [hnone]
  | case2 _ _ hnone => simp [hnone]
  | case3 hnone => simp [hnone]
  | case4 => exact List.prefix_append _ _
  | case5 => exact List.prefix_rfl

/-- A shorter mantissa is continued by a digit or the point, so it is one that goes on. -/
theorem prefix_mantissa (hword : IsMantissa word) (h : word <+: chars)
    : word <+: mantissa chars := by
  have hpoint : ∀ others, Stops Char.isDigit ('.' :: others) := fun others => stops_cons rfl others
  cases hword with
  | whole _ hdigits => exact (prefix_digits hdigits h).trans (digits_prefix_mantissa chars)
  | @pointed whole fraction hne hwhole hfraction =>
      obtain ⟨rest, rfl⟩ := h
      rw [List.append_assoc, List.cons_append, mantissa, digits_append hwhole (hpoint _),
        dropWhile_append_of_stops hwhole (hpoint _)]
      cases whole with
      | nil => exact absurd rfl hne
      | cons c whole =>
          have hmore := prefix_digits hfraction (List.prefix_append fraction rest)
          exact (List.prefix_append_right_inj _).2 (List.cons_prefix_cons.2 ⟨rfl, hmore⟩)
  | @fraction fraction hne hfraction =>
      obtain ⟨rest, rfl⟩ := h
      have hnone : digits ('.' :: (fraction ++ rest)) = [] := takeWhile_of_stops (hpoint _)
      have hdrop : ('.' :: (fraction ++ rest)).dropWhile Char.isDigit = '.' :: (fraction ++ rest) :=
        rfl
      have hmore := prefix_digits hfraction (List.prefix_append fraction rest)
      have hsome : digits (fraction ++ rest) ≠ [] := fun hnil => hne (by simpa [hnil] using hmore)
      rw [List.cons_append, mantissa, hnone, hdrop]
      simpa [hsome] using hmore

/-- No exponent in front of a text reaches further than the one that is read. -/
theorem prefix_exponent (hword : IsExponent word) (h : word <+: chars)
    : word <+: exponent chars := by
  cases hword with
  | absent => exact List.nil_prefix
  | @marked mark sgn power hmark hsign hne hpower =>
      obtain ⟨rest, rfl⟩ := h
      have hsgn : sign (sgn ++ (power ++ rest)) = sgn :=
        sign_append hsign (stops_isSign_of_digits hne hpower rest)
      have hmore := prefix_digits hpower (List.prefix_append power rest)
      have hsome : digits (power ++ rest) ≠ [] := fun hnil => hne (by simpa [hnil] using hmore)
      simpa [exponent, hsgn, hmark, hsome] using hmore

/-- A mark ends the mantissa, so an exponent is read from where it begins. -/
theorem prefix_unsigned {body power : List Char} (hbody : IsMantissa body)
    (hpower : IsExponent power) (h : body ++ power <+: chars)
    : body ++ power <+: mantissa chars ++ exponent (chars.drop (mantissa chars).length) := by
  cases hpower with
  | absent =>
      rw [List.append_nil] at h ⊢
      exact (prefix_mantissa hbody h).trans (List.prefix_append _ _)
  | @marked mark sgn power hmark hsign hne hpower =>
      obtain ⟨rest, rfl⟩ := h
      have hends := stops_mantissa_of_isExponentMark hmark (sgn ++ power ++ rest)
      rw [List.append_assoc, List.cons_append, mantissa_append hbody hends, List.drop_left,
        List.prefix_append_right_inj]
      exact prefix_exponent (.marked hmark hsign hne hpower) (List.prefix_append _ _)

/-- With a mantissa behind the sign, the number that is read is made of the parts that are read one
after another. -/
theorem number_eq {unsigned : List Char} (hdrop : chars.drop (sign chars).length = unsigned)
    (hne : mantissa unsigned ≠ [])
    : number chars
      = sign chars
        ++ (mantissa unsigned ++ exponent (unsigned.drop (mantissa unsigned).length)) := by
  subst hdrop
  simp [number, hne]

/-- A number at the front of a text is at the front of the number that the scanner takes. -/
theorem prefix_number (hword : IsNumber word) (h : word <+: chars)
    : word <+: number chars := by
  obtain ⟨rest, rfl⟩ := h
  obtain ⟨sgn, body, power, rfl, hsign, hbody, hpower⟩ := hword
  have hsgn : sign (sgn ++ (body ++ (power ++ rest))) = sgn :=
    sign_append hsign (stops_isSign_of_isMantissa hbody _)
  have hmantissa := prefix_mantissa hbody (List.prefix_append body (power ++ rest))
  have hne : mantissa (body ++ (power ++ rest)) ≠ [] :=
    fun hnil => mantissa_ne_nil hbody (by simpa [hnil] using hmantissa)
  simp only [List.append_assoc]
  rw [number_eq (by rw [hsgn, List.drop_left]) hne, hsgn, List.prefix_append_right_inj]
  exact prefix_unsigned hbody hpower ⟨rest, List.append_assoc _ _ _⟩

-----------------------------------------------------------------------------------------
-- What the patterns take
-----------------------------------------------------------------------------------------

namespace Pattern

variable {first second pattern : Pattern} {left right : List Char}

/-- A pattern takes nothing exactly if no part in front of the text fits it. -/
theorem taken_eq_none_iff
    : pattern.taken chars = none ↔ ∀ word, word <+: chars → ¬ pattern.Fits word := by
  rw [taken, List.head?_eq_none_iff, List.eq_nil_iff_forall_not_mem]
  simp only [mem_ways, not_and]

/-- A single character that fits is taken. -/
theorem taken_one {p : Char → Bool} {c : Char} (h : p c = true) (rest : List Char)
    : (one p).taken (c :: rest) = some [c] := by
  simp [taken, ways, h]

/-- Repetition takes all characters that fit, up to the first that does not. -/
theorem taken_many (p : Char → Bool) (chars : List Char)
    : (many p).taken chars = some (chars.takeWhile p) := by
  rw [taken, ways, List.inits_eq_tails, List.reverse_reverse, List.head?_map]
  cases hreverse : (chars.takeWhile p).reverse with
  | nil => simpa using hreverse
  | cons c rest => simp [← hreverse]

/-- The second pattern is tried behind what the first one prefers. -/
theorem taken_seq (hfirst : first.taken chars = some left)
    (hsecond : second.taken (chars.drop left.length) = some right)
    : (seq first second).taken chars = some (left ++ right) := by
  rw [taken, List.head?_eq_some_iff] at hfirst hsecond
  obtain ⟨others, hfirst⟩ := hfirst
  obtain ⟨more, hsecond⟩ := hsecond
  rw [taken, ways, hfirst, List.flatMap_cons, hsecond]
  rfl

/-- A sequence takes nothing if its first part does not. -/
theorem taken_seq_eq_none (h : first.taken chars = none) (second : Pattern)
    : (seq first second).taken chars = none := by
  rw [taken, List.head?_eq_none_iff] at h ⊢
  rw [ways, h, List.flatMap_nil]

/-- The first alternative goes first. -/
theorem taken_either_left (h : first.taken chars = some word)
    : (either first second).taken chars = some word := by
  rw [taken] at h ⊢
  rw [ways, List.head?_append, h]
  rfl

/-- The second alternative is tried where the first takes nothing. -/
theorem taken_either_right (h : first.taken chars = none)
    : (either first second).taken chars = second.taken chars := by
  rw [taken] at h ⊢
  rw [ways, List.head?_append, h]
  rfl

/-- Nothing is taken only where the pattern cannot be. -/
theorem taken_optional (pattern : Pattern) (chars : List Char)
    : (optional pattern).taken chars = some ((pattern.taken chars).getD []) := by
  rw [taken, ways, List.head?_append, taken]
  cases (pattern.ways chars).head? <;> rfl

/-- The pattern of a sign takes what is read as one. -/
theorem taken_sign (chars : List Char)
    : sign.taken chars = some (Lexeme.sign chars) := by
  rw [sign, taken_optional]
  cases chars with
  | nil => rfl
  | cons c rest =>
      cases hc : isSign c with
      | true => simp [taken_one hc, Lexeme.sign, hc]
      | false => simp [taken, ways, Lexeme.sign, hc]

/-- The pattern of digits takes what is read as digits. -/
theorem taken_digits (h : Lexeme.digits chars ≠ [])
    : digits.taken chars = some (Lexeme.digits chars) := by
  cases chars with
  | nil => exact absurd rfl h
  | cons c rest =>
      have hc : c.isDigit = true := by
        by_contra hc
        exact h (by simp [Lexeme.digits, hc])
      have htaken := taken_seq (taken_one hc rest) (taken_many Char.isDigit rest)
      simpa [digits, Lexeme.digits, hc] using htaken

/-- The pattern of digits takes nothing where no digit is. -/
theorem taken_digits_eq_none (h : Lexeme.digits chars = [])
    : digits.taken chars = none := by
  rw [taken_eq_none_iff]
  intro word hword hfits
  obtain ⟨hne, hdigits⟩ := fits_digits_iff.1 hfits
  exact hne (by simpa [h] using prefix_digits hdigits hword)

/-- The pattern of a mantissa takes what is read as one: the digits first, then the point and the
digits behind it. -/
theorem taken_mantissa (h : Lexeme.mantissa chars ≠ [])
    : mantissa.taken chars = some (Lexeme.mantissa chars) := by
  have hdrop := drop_length_digits chars
  revert h
  fun_cases Lexeme.mantissa chars with
  | case1 => exact fun h => absurd rfl h
  | case2 rest hpoint hnone hfraction =>
      intro _
      obtain rfl : chars = '.' :: rest := by simpa [hnone, hpoint] using hdrop
      have hwhole := taken_seq_eq_none (taken_digits_eq_none hnone)
      rw [mantissa, taken_either_right (hwhole _)]
      exact taken_seq (taken_one rfl rest) (taken_digits (by simpa using hfraction))
  | case3 => exact fun h => absurd rfl h
  | case4 rest hpoint hne =>
      intro _
      have hbehind : (optional point).taken ('.' :: rest) = some ['.'] := by
        rw [taken_optional, point, taken_one rfl]
        rfl
      refine taken_either_left (taken_seq (taken_digits hne) ?_)
      rw [hdrop, hpoint]
      exact taken_seq hbehind (taken_many Char.isDigit rest)
  | case5 hpoint hne =>
      intro _
      refine taken_either_left ?_
      have hnothing
          : (seq (optional point) (many Char.isDigit)).taken (chars.dropWhile Char.isDigit)
            = some [] := by
        have hhead := List.head?_dropWhile_not Char.isDigit chars
        cases hrest : chars.dropWhile Char.isDigit with
        | nil => rfl
        | cons c rest =>
            have hc : c ≠ '.' := fun heq => hpoint rest (heq ▸ hrest)
            simp only [hrest, List.head?_cons] at hhead
            simp [taken, ways, point, hc, hhead]
      rw [← hdrop] at hnothing
      simpa using taken_seq (taken_digits hne) hnothing

/-- The pattern of an exponent takes what is read as one, and nothing behind a mark without
digits. -/
theorem taken_exponent (chars : List Char)
    : exponent.taken chars = some (Lexeme.exponent chars) := by
  rw [exponent, taken_optional]
  by_cases h : Lexeme.exponent chars = []
  · have hnone : (seq (one isExponentMark) (seq sign digits)).taken chars = none := by
      rw [taken_eq_none_iff]
      intro word hword hfits
      have hfront := prefix_exponent (fits_exponent_iff.1 (.inl hfits)) hword
      rw [h, List.prefix_nil] at hfront
      subst hfront
      obtain ⟨_, right, hnil, ⟨mark, -, rfl⟩, -⟩ := hfits
      cases hnil
    rw [hnone, h]
    rfl
  · cases chars with
    | nil => exact absurd rfl h
    | cons c rest =>
        simp only [Lexeme.exponent] at h ⊢
        split at h
        · rename_i hexponent
          rw [if_pos hexponent]
          simp only [Bool.and_eq_true, Bool.not_eq_true', List.isEmpty_eq_false_iff] at hexponent
          have hpower := taken_seq (taken_sign rest) (taken_digits hexponent.2)
          rw [taken_seq (taken_one hexponent.1 rest) hpower]
          rfl
        · exact absurd rfl h

/-- The number that the scanner takes is what the pattern prefers, and there is none exactly where
the pattern cannot be matched. -/
theorem taken_number (chars : List Char)
    : number.taken chars
      = if Lexeme.number chars = [] then none else some (Lexeme.number chars) := by
  split
  · rename_i hnil
    rw [taken_eq_none_iff]
    intro word hword hfits
    have hnumber := fits_number_iff.1 hfits
    have hfront := prefix_number hnumber hword
    rw [hnil, List.prefix_nil] at hfront
    exact (isNumber_iff.1 hnumber).1 hfront
  · rename_i hne
    have hmantissa : Lexeme.mantissa (chars.drop (Lexeme.sign chars).length) ≠ [] :=
      fun hnil => hne (by simp [Lexeme.number, hnil])
    rw [number_eq rfl hmantissa]
    exact taken_seq (taken_sign chars) (taken_seq (taken_mantissa hmantissa) (taken_exponent _))

end Pattern

-----------------------------------------------------------------------------------------
-- Scanning a number
-----------------------------------------------------------------------------------------

/-- The longest text of a kind among those that a text begins with. -/
structure IsLongestPrefix (p : List Char → Prop) (chars lexeme : List Char) : Prop where
  isPrefix : lexeme <+: chars
  fits : p lexeme
  length_le : ∀ other, other <+: chars → p other → other.length ≤ lexeme.length

/-- What the number pattern takes is the longest number, though it was only the preferred one. -/
theorem isLongestPrefix_of_taken_number (h : Pattern.number.taken chars = some word)
    : IsLongestPrefix IsNumber chars word := by
  have hway := List.mem_of_mem_head? (Option.mem_def.2 h)
  obtain ⟨hfront, hfits⟩ := Pattern.mem_ways.1 hway
  have htaken := Pattern.taken_number chars
  rw [h] at htaken
  split at htaken
  · cases htaken
  · cases htaken
    exact ⟨hfront, Pattern.fits_number_iff.1 hfits, fun other hother hnumber =>
      (prefix_number hnumber hother).length_le⟩

/-- No identifier is read exactly where none stands in front. -/
theorem identifier_eq_nil_iff
    : identifier chars = [] ↔ ∀ word, word <+: chars → ¬ IsIdentifier word := by
  constructor
  · rintro hnil word ⟨rest, rfl⟩ hword
    cases word with
    | nil => exact hword
    | cons c others => simp [identifier, hword.1] at hnil
  · intro h
    by_contra hne
    have hfront := identifier_prefix chars
    exact h _ hfront (isIdentifier_identifier hne)

/-- No operator is a number. -/
theorem operator?_ne_number (previous : Option Tag) (c : Char)
    : operator? previous c ≠ some .number := by
  rw [operator?]
  split
  · simp
  · split <;> simp

/-- No punctuation is a number. -/
theorem punctuation?_ne_number (c : Char)
    : punctuation? c ≠ some .number := by
  rw [punctuation?]
  repeat' split
  all_goals simp

/-- A number is scanned where the pattern takes one and no rule that is tried before it applies.
Operators are tried first and identifiers next, and neither is a number. -/
theorem scan_eq_number_iff {previous : Option Tag} {lexeme : List Char}
    : scan previous chars = some (.number, lexeme)
      ↔ chars.head?.bind (operator? previous) = none
        ∧ identifier chars = []
        ∧ Pattern.number.taken chars = some lexeme := by
  rw [Pattern.taken_number]
  constructor
  · intro h
    obtain ⟨c, rest, rfl, h⟩ := scan_cases h
    rcases h with
      ⟨hoperator, _⟩ | ⟨hoperator, ⟨_, _, htag⟩ | ⟨hword, ⟨hnumber, rfl, _⟩ | ⟨_, hpunctuation, _⟩⟩⟩
    · exact absurd hoperator (operator?_ne_number previous c)
    · split at htag <;> cases htag
    · exact ⟨hoperator, hword, if_neg hnumber⟩
    · exact absurd hpunctuation (punctuation?_ne_number c)
  · rintro ⟨hoperator, hword, htaken⟩
    split at htaken
    · cases htaken
    · rename_i hnumber
      cases htaken
      cases chars with
      | nil => exact absurd rfl hnumber
      | cons c rest =>
          simp only [List.head?_cons, Option.bind_some] at hoperator
          simp [scan, hoperator, hword, hnumber]

/-- No identifier begins as a number does. -/
theorem identifier_eq_nil_of_isNumber (hword : IsNumber word) (h : word <+: chars)
    : identifier chars = [] := by
  obtain ⟨c, others, rfl, hc⟩ := exists_head_of_isNumber hword
  obtain ⟨rest, rfl⟩ := h
  have hstart : isIdentifierStart c = false := by
    rcases hc with hc | hc | rfl
    · simp only [isSign, Bool.or_eq_true, beq_iff_eq] at hc
      rcases hc with rfl | rfl <;> decide
    · exact isIdentifierStart_eq_false_of_isDigit hc
    · decide
  simp [identifier, hstart]

/-- A mark begins no exponent where no digit stands behind it or behind a sign that follows it. -/
theorem exponent_eq_nil {mark : Char} {rest : List Char}
    (h : ∀ sgn d others, IsOptionalSign sgn → d.isDigit = true → rest ≠ sgn ++ d :: others)
    : exponent (mark :: rest) = [] := by
  have hfits := isExponent_exponent (mark :: rest)
  obtain ⟨tail, htail⟩ := isPrefix_exponent (mark :: rest)
  generalize exponent (mark :: rest) = power at hfits htail
  cases hfits with
  | absent => rfl
  | @marked _ sgn power _ hsign hne hpower =>
      obtain ⟨d, digits, rfl⟩ := List.exists_cons_of_ne_nil hne
      rw [List.cons_append, List.append_assoc, List.cons_append] at htail
      exact absurd (List.cons.inj htail).2.symm (h sgn d _ hsign (hpower d List.mem_cons_self))

/-- A mark without digits behind it is left to the next token: the number ends in front of it.  The
sign and the mantissa are taken whole, since the mark is part of neither. -/
theorem taken_number_before_mark {sgn body rest : List Char} {mark : Char}
    (hsign : IsOptionalSign sgn) (hbody : IsMantissa body) (hmark : isExponentMark mark = true)
    (h : ∀ sgn d others, IsOptionalSign sgn → d.isDigit = true → rest ≠ sgn ++ d :: others)
    : Pattern.number.taken (sgn ++ body ++ mark :: rest) = some (sgn ++ body) := by
  have hsgn : sign (sgn ++ (body ++ mark :: rest)) = sgn :=
    sign_append hsign (stops_isSign_of_isMantissa hbody _)
  have hmantissa : mantissa (body ++ mark :: rest) = body :=
    mantissa_append hbody (stops_mantissa_of_isExponentMark hmark rest)
  have hnumber : number (sgn ++ (body ++ mark :: rest)) = sgn ++ body := by
    have hne : mantissa (body ++ mark :: rest) ≠ [] := by
      rw [hmantissa]
      exact mantissa_ne_nil hbody
    rw [number_eq (by rw [hsgn, List.drop_left]) hne, hsgn, hmantissa, List.drop_left,
      exponent_eq_nil h, List.append_nil]
  rw [List.append_assoc, Pattern.taken_number, hnumber, if_neg]
  simp [mantissa_ne_nil hbody]

/-- A mark behind a number begins a word. -/
theorem scan_mark {mark : Char} (hmark : isExponentMark mark = true) (rest : List Char)
    : ∃ tag word,
        scan (some .number) (mark :: rest) = some (tag, mark :: word)
        ∧ (tag = .name ∨ tag = .funcName) := by
  have hstart : isIdentifierStart mark = true ∧ operator? (some .number) mark = none := by
    simp only [isExponentMark, Bool.or_eq_true, beq_iff_eq] at hmark
    rcases hmark with ((rfl | rfl) | rfl) | rfl <;> decide
  rw [scan, hstart.2]
  simp only [identifier, if_pos hstart.1]
  refine ⟨_, _, rfl, ?_⟩
  split
  · exact .inr rfl
  · exact .inl rfl

/-- A scanned number is the longest number at the front of a text, and at least one character.  It
is what the number pattern prefers to take.  Wherever a number stands at the front, one is scanned
unless the operators or the identifiers come first.  A mark that no digits follow is not part of
it, and the next token begins with the mark. -/
theorem scan_longest_number (previous : Option Tag) (chars : List Char)
    : (∀ lexeme,
        scan previous chars = some (.number, lexeme)
        → 1 ≤ lexeme.length
          ∧ IsLongestPrefix IsNumber chars lexeme
          ∧ Pattern.number.taken chars = some lexeme)
      ∧ ((∃ word, word <+: chars ∧ IsNumber word)
        → chars.head?.bind (operator? previous) = none
        → (∀ word, word <+: chars → ¬ IsIdentifier word)
        → ∃ lexeme, scan previous chars = some (.number, lexeme))
      ∧ ∀ sgn body mark rest,
        chars = sgn ++ body ++ mark :: rest
        → IsOptionalSign sgn
        → IsMantissa body
        → isExponentMark mark = true
        → (∀ other d others, IsOptionalSign other → d.isDigit = true → rest ≠ other ++ d :: others)
        → chars.head?.bind (operator? previous) = none
        → scan previous chars = some (.number, sgn ++ body)
          ∧ ∃ tag word,
            scan (some .number) (mark :: rest) = some (tag, mark :: word)
            ∧ (tag = .name ∨ tag = .funcName) := by
  refine ⟨fun lexeme hscan => ?_, fun hsome hoperator hword => ?_, ?_⟩
  · obtain ⟨-, -, htaken⟩ := scan_eq_number_iff.1 hscan
    have hpos := List.length_pos_iff.2 (scan_ne_nil hscan)
    exact ⟨hpos, isLongestPrefix_of_taken_number htaken, htaken⟩
  · obtain ⟨word, hfront, hnumber⟩ := hsome
    cases htaken : Pattern.number.taken chars with
    | none =>
        have hnone := Pattern.taken_eq_none_iff.1 htaken word hfront
        exact absurd (Pattern.fits_number_iff.2 hnumber) hnone
    | some lexeme =>
        exact ⟨lexeme, scan_eq_number_iff.2 ⟨hoperator, identifier_eq_nil_iff.2 hword, htaken⟩⟩
  · rintro sgn body mark rest rfl hsign hbody hmark hrest hoperator
    have hnumber : IsNumber (sgn ++ body) :=
      ⟨sgn, body, [], (List.append_nil _).symm, hsign, hbody, .absent⟩
    have hword := identifier_eq_nil_of_isNumber hnumber (List.prefix_append _ (mark :: rest))
    have htaken := taken_number_before_mark hsign hbody hmark hrest
    exact ⟨scan_eq_number_iff.2 ⟨hoperator, hword, htaken⟩, scan_mark hmark rest⟩

/-- The mark in `1.5e+x` begins a word, since no digit follows its sign. -/
theorem scan_longest_number_mark
    : let chars := ['1', '.', '5', 'e', '+', 'x']
      scan none chars = some (.number, ['1', '.', '5'])
      ∧ IsLongestPrefix IsNumber chars ['1', '.', '5']
      ∧ ∃ tag word,
        scan (some .number) ['e', '+', 'x'] = some (tag, 'e' :: word)
        ∧ (tag = .name ∨ tag = .funcName) := by
  intro chars
  obtain ⟨hlongest, -, hmark⟩ := scan_longest_number none chars
  have hbody : IsMantissa (['1'] ++ '.' :: ['5']) :=
    .pointed (List.cons_ne_nil _ _) (by simp [AllDigits]) (by simp [AllDigits])
  have hrest : ∀ other d others,
      IsOptionalSign other → d.isDigit = true → ['+', 'x'] ≠ other ++ d :: others := by
    rintro other d others (rfl | ⟨c, hc, rfl⟩) hd heq
    · obtain ⟨rfl, -⟩ := List.cons.inj heq
      cases hd
    · obtain ⟨rfl, -⟩ := List.cons.inj (List.cons.inj heq).2
      cases hd
  obtain ⟨hscan, hnext⟩ := hmark [] _ 'e' ['+', 'x'] rfl (.inl rfl) hbody rfl hrest rfl
  exact ⟨hscan, (hlongest _ hscan).2.1, hnext⟩

end Lexeme

end Formulary
