import Formulary.Proofs.Grammar.Renumbering

/-! Numbering the nonterminals of rules one by one.
Every name is looked up among those met before, and a new one gets the next number.  The names in
the order of their numbers and the map from the names to their numbers then say the same, and the
rules are numbered as if all names had been known from the start.
-/

namespace Formulary

/-- The names met so far, each at its number, and the numbers found by the names. -/
structure Interner where
  names : Array String
  numbers : Std.HashMap String Nat

namespace Interner

def empty : Interner :=
  ⟨#[], ∅⟩

/-- The number of a name, which is the next one if the name is new.  Numbers have no bound here.
Where a number is kept in 32 bits this holds of the first 2 ^ 32 names only, since the name after
them would be given the number 0 again. -/
def intern (name : String) : StateM Interner Nat := fun interner =>
  match interner.numbers[name]? with
  | some a => (a, interner)
  | none =>
      (interner.names.size,
        ⟨interner.names.push name, interner.numbers.insert name interner.names.size⟩)

end Interner

/-- A symbol with its nonterminal in numbers. -/
def Symbol.intern : Symbol String → StateM Interner (Symbol Nat)
  | .terminal tag => pure (.terminal tag)
  | .nonterminal name => do
      let a ← Interner.intern name
      pure (.nonterminal a)

/-- A right side in numbers, the left symbol first. -/
def Body.intern : Body String → StateM Interner (Body Nat)
  | .unit symbol => do
      let symbol ← symbol.intern
      pure (.unit symbol)
  | .pair left right => do
      let left ← left.intern
      let right ← right.intern
      pure (.pair left right)

/-- A rule in numbers, the left side first. -/
def Rule.intern (rule : Rule String) : StateM Interner (Rule Nat) := do
  let head ← Interner.intern rule.head
  let body ← rule.body.intern
  pure ⟨head, body⟩

namespace Interner

-----------------------------------------------------------------------------------------
-- One name
-----------------------------------------------------------------------------------------

/-- The interner that has met these names in this order: each is kept once, and the map finds it
where it stands. -/
structure Met (interner : Interner) (mentioned : List String) : Prop where
  toList_names : interner.names.toList = mentioned.eraseDups
  numbers_eq : ∀ name : String, interner.numbers[name]? = interner.names.toList.idxOf? name

/-- Nothing has been met at first. -/
theorem met_empty
    : empty.Met [] where
  toList_names := rfl
  numbers_eq := by simp [empty]

/-- The names in the table are those that have been met. -/
theorem Met.mem_iff {interner : Interner} {mentioned : List String} (h : interner.Met mentioned)
    {name : String}
    : name ∈ interner.names.toList ↔ name ∈ mentioned := by
  rw [h.toList_names, List.mem_eraseDups]

/-- A name that was met before has its number already. -/
theorem Met.intern_of_mem {interner : Interner} {mentioned : List String}
    (h : interner.Met mentioned) {name : String} (hname : name ∈ mentioned)
    : intern name interner = (interner.names.toList.idxOf name, interner) := by
  have hfound := h.numbers_eq name
  rw [Numbering.idxOf?_of_mem (h.mem_iff.2 hname)] at hfound
  simp only [intern, hfound]

/-- A new name gets the next number and goes to the end of the table. -/
theorem Met.intern_of_not_mem {interner : Interner} {mentioned : List String}
    (h : interner.Met mentioned) {name : String} (hname : name ∉ mentioned)
    : intern name interner
      = (interner.names.size,
        ⟨interner.names.push name, interner.numbers.insert name interner.names.size⟩) := by
  have hfound := h.numbers_eq name
  rw [List.idxOf?_eq_none_iff.2 (mt h.mem_iff.1 hname)] at hfound
  simp only [intern, hfound]

/-- Meeting a name again changes nothing. -/
theorem Met.concat_of_mem {interner : Interner} {mentioned : List String}
    (h : interner.Met mentioned) {name : String} (hname : name ∈ mentioned)
    : interner.Met (mentioned ++ [name]) where
  toList_names := by
    rw [h.toList_names, List.eraseDups_append]
    simp [List.removeAll, hname]
  numbers_eq := h.numbers_eq

/-- Meeting a new name adds it behind all others.  Its number is how many there were before, and the
others keep theirs. -/
theorem Met.push {interner : Interner} {mentioned : List String}
    (h : interner.Met mentioned) {name : String} (hname : name ∉ mentioned)
    : (Interner.mk (interner.names.push name)
        (interner.numbers.insert name interner.names.size)).Met (mentioned ++ [name]) where
  toList_names := by
    rw [Array.toList_push, h.toList_names, List.eraseDups_append]
    simp [List.removeAll, hname, List.eraseDups_cons]
  numbers_eq other := by
    rw [Std.HashMap.getElem?_insert, Array.toList_push, h.numbers_eq other]
    have hnew := mt h.mem_iff.1 hname
    by_cases heq : name = other
    · subst heq
      have hmem : name ∈ interner.names.toList ++ [name] :=
        List.mem_append_right _ (List.mem_singleton_self name)
      rw [if_pos (beq_self_eq_true name), Numbering.idxOf?_of_mem hmem,
        List.idxOf_append_of_notMem hnew, List.idxOf_cons_self, Nat.add_zero, Array.length_toList]
    · rw [if_neg (by simpa using heq)]
      by_cases hother : other ∈ interner.names.toList
      · rw [Numbering.idxOf?_of_mem hother,
          Numbering.idxOf?_of_mem (List.mem_append_left _ hother),
          List.idxOf_append_of_mem hother]
      · rw [List.idxOf?_eq_none_iff.2 hother, List.idxOf?_eq_none_iff.2]
        simpa [eq_comm] using ⟨by simpa using hother, heq⟩

-----------------------------------------------------------------------------------------
-- Names one after the other
-----------------------------------------------------------------------------------------

/-- An action meets these names, and all that its result depends on is where each of them stands
in the end. -/
def Meets {α : Type} (action : StateM Interner α) (mentioned : List String)
    (result : (String → Nat) → α) : Prop :=
  ∀ interner before,
    interner.Met before
    → (action interner).2.Met (before ++ mentioned)
      ∧ ∀ final,
        (action interner).2.names.toList <+: final
        → (action interner).1 = result fun name => final.idxOf name

variable {α β : Type}

/-- A step that numbers nothing meets no name. -/
theorem meets_pure (a : α)
    : Meets (pure a) [] fun _ => a := by
  intro interner before h
  rw [List.append_nil]
  exact ⟨h, fun _ _ => rfl⟩

/-- What an action has numbered keeps its numbers in all that follows.  Names are only ever added
behind those that have been met. -/
theorem Meets.bind {action : StateM Interner α} {next : α → StateM Interner β}
    {first second : List String} {result : (String → Nat) → α}
    {outcome : α → (String → Nat) → β} (h : Meets action first result)
    (k : ∀ a, Meets (next a) second (outcome a))
    : Meets (action >>= next) (first ++ second) fun place => outcome (result place) place := by
  intro interner before hmet
  obtain ⟨hfirst, hresult⟩ := h interner before hmet
  obtain ⟨hsecond, houtcome⟩ := k (action interner).1 _ _ hfirst
  rw [List.append_assoc] at hsecond
  refine ⟨hsecond, fun final hfinal => ?_⟩
  have hprefix : (action interner).2.names.toList <+: final := by
    refine List.IsPrefix.trans ?_ hfinal
    have hall := hsecond.toList_names
    rw [← List.append_assoc, List.eraseDups_append, ← hfirst.toList_names] at hall
    exact ⟨_, hall.symm⟩
  have hvalue := hresult final hprefix
  exact (houtcome final hfinal).trans (congrArg (fun a => outcome a _) hvalue)

/-- Numbering a name meets it, and the number is the place of the name in whatever table comes of
the whole run. -/
theorem meets_intern (name : String)
    : Meets (intern name) [name] fun place => place name := by
  intro interner before h
  by_cases hname : name ∈ before
  · rw [h.intern_of_mem hname]
    refine ⟨h.concat_of_mem hname, fun final hfinal => ?_⟩
    exact hfinal.idxOf_eq_of_mem (h.mem_iff.2 hname)
  · rw [h.intern_of_not_mem hname]
    refine ⟨h.push hname, fun final hfinal => ?_⟩
    have hnew := mt h.mem_iff.1 hname
    have hmem : name ∈ interner.names.toList ++ [name] :=
      List.mem_append_right _ (List.mem_singleton_self name)
    rw [Array.toList_push] at hfinal
    have hplace := hfinal.idxOf_eq_of_mem hmem
    rwa [List.idxOf_append_of_notMem hnew, List.idxOf_cons_self, Nat.add_zero,
      Array.length_toList] at hplace

/-- Numbering a symbol meets its name if it has one. -/
theorem meets_symbol (symbol : Symbol String)
    : Meets symbol.intern symbol.names fun place => symbol.map place := by
  cases symbol with
  | terminal tag => exact meets_pure _
  | nonterminal name => exact (meets_intern name).bind fun a => meets_pure (Symbol.nonterminal a)

/-- Numbering a right side meets the names in it from left to right. -/
theorem meets_body (body : Body String)
    : Meets body.intern (body.symbols.flatMap Symbol.names) fun place => body.map place := by
  cases body with
  | unit symbol => exact (meets_symbol symbol).bind fun symbol => meets_pure (Body.unit symbol)
  | pair left right =>
      exact (meets_symbol left).bind fun left =>
        (meets_symbol right).bind fun right => meets_pure (Body.pair left right)

/-- Numbering a rule meets its left side and then the names on its right. -/
theorem meets_rule (rule : Rule String)
    : Meets rule.intern rule.names fun place => rule.map place := by
  have hbody := fun head => (meets_body rule.body).bind fun body => meets_pure (Rule.mk head body)
  have hrule := (meets_intern rule.head).bind hbody
  rwa [List.append_nil, List.singleton_append] at hrule

/-- Numbering rules meets the names in them in turn, by induction on the rules. -/
theorem meets_rules (rules : List (Rule String))
    : Meets (rules.mapM Rule.intern) (rules.flatMap Rule.names)
        fun place => rules.map (Rule.map place) := by
  induction rules with
  | nil => exact meets_pure []
  | cons rule rules ih =>
      have hothers := fun first => ih.bind fun others => meets_pure (first :: others)
      simpa [List.mapM_cons] using (meets_rule rule).bind hothers

/-- Rules that are numbered one by one are numbered by all their names together. -/
theorem intern_rules (rules : List (Rule String))
    : ∃ interner : Interner,
        rules.mapM Rule.intern empty
          = (Numbering.number (Numbering.names rules) rules, interner)
        ∧ interner.Met (rules.flatMap Rule.names) := by
  obtain ⟨hmet, hresult⟩ := meets_rules rules empty [] met_empty
  have hnames := hmet.toList_names
  have hnumbered := hresult (Numbering.names rules) (hnames ▸ List.prefix_rfl)
  exact ⟨_, Prod.ext hnumbered rfl, hmet⟩

end Interner

end Formulary
