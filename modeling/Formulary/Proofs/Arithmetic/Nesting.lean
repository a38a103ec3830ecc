import Formulary.Proofs.Arithmetic.Rules

/-! How deep the tokens of a derivation stand in parentheses.
The tokens at the depth in front of a derivation are its surface.  The derivations of a symbol share
a profile: how much the depth rises over them, which categories can stand on their surface and which
always do.  That the built-in rules keep to the profiles is checked rule by rule.
-/

namespace Formulary.Arithmetic

open Formulary.Parse

/-- How much deeper it is behind a token than in front of it. -/
def slope : Tag → Int
  | .leftParen => 1
  | .rightParen => -1
  | _ => 0

/-- The number of parentheses that are open in front of a position. -/
def depth (tags : Array Tag) (position : Nat) : Int :=
  (tags.toList.take position).foldl (fun height tag => height + slope tag) 0

/-- A token changes the depth behind it by its slope. -/
theorem depth_succ {tags : Array Tag} {position : Nat} {tag : Tag}
    (h : tags[position]? = some tag)
    : depth tags (position + 1) = depth tags position + slope tag := by
  rw [← Array.getElem?_toList] at h
  rw [depth, List.take_add_one, h, List.foldl_append]
  rfl

-----------------------------------------------------------------------------------------
-- Profiles and the spans that have them
-----------------------------------------------------------------------------------------

/-- What the derivations of a symbol have in common. -/
structure Profile where
  /-- How much deeper it is behind a derivation than in front of it. -/
  rise : Int
  /-- The categories that can stand on the surface. -/
  surface : List Tag
  /-- Categories that always stand on the surface. -/
  shown : List Tag

namespace Profile

/-- The profile of a single token. -/
def ofTag (tag : Tag) : Profile :=
  ⟨slope tag, [tag], [tag]⟩

/-- The profile of one derivation behind another.  The second is on the surface only if the first
does not lead below it. -/
def append (first second : Profile) : Profile :=
  if first.rise = 0 then
    ⟨second.rise, first.surface ++ second.surface, first.shown ++ second.shown⟩
  else ⟨first.rise + second.rise, first.surface, first.shown⟩

/-- Whatever has the first profile has the second. -/
def Within (profile wider : Profile) : Prop :=
  profile.rise = wider.rise
  ∧ (∀ tag ∈ profile.surface, tag ∈ wider.surface)
  ∧ ∀ tag ∈ wider.shown, tag ∈ profile.shown

instance (profile wider : Profile) : Decidable (profile.Within wider) :=
  inferInstanceAs (Decidable (_ ∧ _ ∧ _))

/-- The tokens between two positions have a profile. -/
structure Holds (profile : Profile) (tags : Array Tag) (start stop : Nat) : Prop where
  rise : depth tags stop = depth tags start + profile.rise
  floor
    : ∀ {position},
        start ≤ position → position < stop → depth tags start ≤ depth tags position
  surface
    : ∀ {position tag},
        start ≤ position
        → position < stop
        → tags[position]? = some tag
        → depth tags position = depth tags start
        → tag ∈ profile.surface
  shown
    : ∀ tag ∈ profile.shown,
        ∃ position,
          start ≤ position
          ∧ position < stop
          ∧ tags[position]? = some tag
          ∧ depth tags position = depth tags start

variable {tags : Array Tag} {start middle stop : Nat}

/-- A single token has the profile of its category.  Such a span has one position, which lies on its
surface. -/
theorem holds_ofTag {tag : Tag} (htag : tags[start]? = some tag)
    : (ofTag tag).Holds tags start (start + 1) where
  rise := depth_succ htag
  floor := by
    intro position hstart hstop
    obtain rfl : position = start := by omega
    exact le_rfl
  surface := by
    intro position found hstart hstop hfound _
    obtain rfl : position = start := by omega
    cases htag.symm.trans hfound
    exact List.mem_singleton_self tag
  shown := by
    intro found hfound
    cases List.mem_singleton.1 hfound
    exact ⟨start, le_rfl, Nat.lt_succ_self start, htag, rfl⟩

/-- Spans side by side have the joint profile, unless the first one ends below its own surface.  If
the first span ends as deep as it begins, both have their surface in common; if it ends deeper, all
of the second lies below the surface. -/
theorem Holds.append {first second : Profile} (hfirst : first.Holds tags start middle)
    (hsecond : second.Holds tags middle stop) (hstart : start ≤ middle) (hstop : middle ≤ stop)
    (hrise : 0 ≤ first.rise)
    : (first.append second).Holds tags start stop := by
  have hmiddle := hfirst.rise
  have hend := hsecond.rise
  have hfloor : ∀ {position},
      start ≤ position → position < stop → depth tags start ≤ depth tags position := by
    intro position hlow hhigh
    rcases Nat.lt_or_ge position middle with hbefore | hafter
    · exact hfirst.floor hlow hbefore
    · have := hsecond.floor hafter hhigh
      omega
  by_cases hlevel : first.rise = 0
  · rw [Profile.append, if_pos hlevel]
    refine ⟨by simp only; omega, hfloor, ?_, ?_⟩
    · intro position tag hlow hhigh htag hdepth
      rcases Nat.lt_or_ge position middle with hbefore | hafter
      · exact List.mem_append_left _ (hfirst.surface hlow hbefore htag hdepth)
      · exact List.mem_append_right _ (hsecond.surface hafter hhigh htag (by omega))
    · intro tag htag
      rcases List.mem_append.1 htag with htag | htag
      · obtain ⟨position, hlow, hhigh, hfound, hdepth⟩ := hfirst.shown tag htag
        exact ⟨position, hlow, hhigh.trans_le hstop, hfound, hdepth⟩
      · obtain ⟨position, hlow, hhigh, hfound, hdepth⟩ := hsecond.shown tag htag
        exact ⟨position, hstart.trans hlow, hhigh, hfound, by omega⟩
  · -- The second span lies below the surface altogether.
    rw [Profile.append, if_neg hlevel]
    refine ⟨by simp only; omega, hfloor, ?_, ?_⟩
    · intro position tag hlow hhigh htag hdepth
      rcases Nat.lt_or_ge position middle with hbefore | hafter
      · exact hfirst.surface hlow hbefore htag hdepth
      · have := hsecond.floor hafter hhigh
        omega
    · intro tag htag
      obtain ⟨position, hlow, hhigh, hfound, hdepth⟩ := hfirst.shown tag htag
      exact ⟨position, hlow, hhigh.trans_le hstop, hfound, hdepth⟩

/-- A span with some profile has every wider one. -/
theorem Holds.weaken {profile wider : Profile} (h : profile.Holds tags start stop)
    (hwithin : profile.Within wider)
    : wider.Holds tags start stop := by
  obtain ⟨hrise, hsurface, hshown⟩ := hwithin
  refine ⟨hrise ▸ h.rise, h.floor, ?_, fun tag htag => h.shown tag (hshown tag htag)⟩
  intro position tag hlow hhigh htag hdepth
  exact hsurface tag (h.surface hlow hhigh htag hdepth)

/-- The first profile shows a category that the second never has on its surface. -/
def Clashes (first second : Profile) : Prop :=
  ∃ tag ∈ first.shown, tag ∉ second.surface

instance (first second : Profile) : Decidable (first.Clashes second) :=
  inferInstanceAs (Decidable (∃ tag ∈ first.shown, tag ∉ second.surface))

/-- No span has two profiles that clash: one of them shows a category at its surface that the other
rules out. -/
theorem Clashes.not_holds {first second : Profile} (h : first.Clashes second)
    (hfirst : first.Holds tags start stop)
    : ¬ second.Holds tags start stop := by
  intro hsecond
  obtain ⟨tag, hshown, hhidden⟩ := h
  obtain ⟨position, hlow, hhigh, htag, hdepth⟩ := hfirst.shown tag hshown
  exact hhidden (hsecond.surface hlow hhigh htag hdepth)

end Profile

-----------------------------------------------------------------------------------------
-- The profiles of the built-in symbols
-----------------------------------------------------------------------------------------

section Symbols

open Nonterminal Tag

def factorTags : List Tag :=
  [number, name, funcName, dot, leftParen]

def termTags : List Tag :=
  mulOp :: factorTags

def exprTags : List Tag :=
  addOp :: termTags

def argsTags : List Tag :=
  comma :: exprTags

/-- The profile of each nonterminal.  A chain shows the operator that makes it one, and only a chain
of that level or a looser one can have it on its surface. -/
def Nonterminal.profile : Nonterminal → Profile
  | start | expr => ⟨0, exprTags, []⟩
  | sum | sumHead => ⟨0, exprTags, [addOp]⟩
  | term => ⟨0, termTags, []⟩
  | product | productHead => ⟨0, termTags, [mulOp]⟩
  | factor => ⟨0, factorTags, []⟩
  | member | memberHead => ⟨0, [Tag.name, dot], [dot]⟩
  | parens => ⟨0, [leftParen], []⟩
  | parensHead => ⟨1, [leftParen], []⟩
  | call => ⟨0, [funcName, leftParen], []⟩
  | callHead => ⟨1, [funcName, leftParen], []⟩
  | callTail => ⟨-1, rightParen :: argsTags, []⟩
  | args => ⟨0, argsTags, []⟩
  | argsTail => ⟨0, argsTags, [comma]⟩

end Symbols

/-- The profile of each symbol. -/
def profile : Symbol Nonterminal → Profile
  | .terminal tag => .ofTag tag
  | .nonterminal a => a.profile

/-- The profile of what a body derives. -/
def bodyProfile : Body Nonterminal → Profile
  | .unit child => profile child
  | .pair left right => (profile left).append (profile right)

/-- The left symbol of a body with two never ends below its own surface. -/
def LeftRises : Body Nonterminal → Prop
  | .unit _ => True
  | .pair left _ => 0 ≤ (profile left).rise

instance : DecidablePred LeftRises
  | .unit _ => inferInstanceAs (Decidable True)
  | .pair left _ => inferInstanceAs (Decidable (0 ≤ (profile left).rise))

/-- No left side of a rule with two symbols ends below where it starts, checked rule by rule. -/
theorem leftRises_of_rule
    : ∀ rule ∈ rules, LeftRises rule.body := by
  decide

/-- Every rule keeps to the profile of its nonterminal. -/
theorem within_of_rule
    : ∀ rule ∈ rules, (bodyProfile rule.body).Within rule.head.profile := by
  decide

/-- The tokens of a derivation have the profile of its symbol. -/
theorem holds_profile {tags : Array Tag} {symbol : Symbol Nonterminal} {start stop : Nat}
    {tree : Tree} (h : Derivation .arithmetic tags (symbol.map Nonterminal.number) start stop tree)
    : (profile symbol).Holds tags start stop := by
  refine
    derivation_induction
      (motive := fun symbol start stop _ => (profile symbol).Holds tags start stop)
      ?_ ?_ ?_ h
  · intro tag start htag
    exact Profile.holds_ofTag htag
  · intro a child start stop _ hrule hchild
    exact hchild.weaken (within_of_rule _ hrule)
  · intro a left right start middle stop _ _ hrule hstart hstop hleft hright
    have hboth := hleft.append hright hstart.le hstop.le (leftRises_of_rule _ hrule)
    exact hboth.weaken (within_of_rule _ hrule)

end Formulary.Arithmetic
