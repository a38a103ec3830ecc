/-! Sequences whose tails are computed on demand.
Forcing a sequence computes its first member and nothing beyond it, and a computed tail is kept.
The list of the members is the meaning of a sequence, and every operation is described by what
it does to that list.
-/

namespace Formulary

/-- A finite sequence with a suspended tail. -/
inductive LazySeq (α : Type u) where
  | nil
  | cons (head : α) (tail : Thunk (LazySeq α))

namespace LazySeq

/-- The members of a sequence in order. -/
def toList : LazySeq α → List α
  | nil => []
  | cons head tail => head :: tail.get.toList

/-- The sequence with one member. -/
def single (a : α) : LazySeq α :=
  cons a ⟨fun _ => nil⟩

def isEmpty : LazySeq α → Bool
  | nil => true
  | cons _ _ => false

/-- The members of one sequence, then those of a suspended one. -/
def append : LazySeq α → Thunk (LazySeq α) → LazySeq α
  | nil, after => after.get
  | cons head tail, after => cons head ⟨fun _ => tail.get.append after⟩

def map (f : α → β) : LazySeq α → LazySeq β
  | nil => nil
  | cons head tail => cons (f head) ⟨fun _ => tail.get.map f⟩

/-- The sequences of all members, one after the other. -/
def flatMap (f : α → LazySeq β) : LazySeq α → LazySeq β
  | nil => nil
  | cons head tail =>
      match f head with
      | nil => tail.get.flatMap f
      | cons first others => cons first ⟨fun _ => others.get.append ⟨fun _ => tail.get.flatMap f⟩⟩

/-- The sequences of all members of a list, one after the other. -/
def concatMap (f : α → LazySeq β) : List α → LazySeq β
  | [] => nil
  | a :: rest =>
      match f a with
      | nil => concatMap f rest
      | cons first others => cons first ⟨fun _ => others.get.append ⟨fun _ => concatMap f rest⟩⟩

/-- At most the first so many members, with the sequence of those after them. -/
def splitAt : Nat → Thunk (LazySeq α) → List α × Thunk (LazySeq α)
  | 0, members => ([], members)
  | count + 1, members =>
      match members.get with
      | nil => ([], ⟨fun _ => nil⟩)
      | cons head tail =>
          let (taken, rest) := splitAt count tail
          (head :: taken, rest)

/-- The empty sequence has no members. -/
@[simp]
theorem toList_nil
    : (nil : LazySeq α).toList = [] := by
  rw [toList]

/-- The head comes before the members of the tail. -/
@[simp]
theorem toList_cons (head : α) (tail : Thunk (LazySeq α))
    : (cons head tail).toList = head :: tail.get.toList := by
  rw [toList]

/-- A single member stands alone. -/
@[simp]
theorem toList_single (a : α)
    : (single a).toList = [a] := by
  simp [single, Thunk.get]

/-- A sequence is empty if it has no member, which its first step decides. -/
@[simp]
theorem isEmpty_eq_true_iff (members : LazySeq α)
    : members.isEmpty = true ↔ members.toList = [] := by
  cases members <;> simp [isEmpty]

/-- The members of the first sequence come before those of the second, by induction on the first. -/
@[simp]
theorem toList_append (members : LazySeq α) (after : Thunk (LazySeq α))
    : (members.append after).toList = members.toList ++ after.get.toList := by
  induction members, after using append.induct with
  | case1 after => simp [append]
  | case2 head tail after ih => simpa [append, Thunk.get] using ih

/-- Mapping a sequence maps its members, by induction on the sequence. -/
@[simp]
theorem toList_map (f : α → β) (members : LazySeq α)
    : (members.map f).toList = members.toList.map f := by
  induction members using map.induct with
  | case1 => simp [map]
  | case2 head tail ih => simpa [map, Thunk.get] using ih

/-- The sequences of all members are put one behind the other.  The induction follows the
definition, which skips the members without any. -/
@[simp]
theorem toList_flatMap (f : α → LazySeq β) (members : LazySeq α)
    : (members.flatMap f).toList = members.toList.flatMap fun a => (f a).toList := by
  fun_induction flatMap f members with
  | case1 => simp
  | case2 head tail hnil ih => simpa [hnil] using ih
  | case3 head tail first others hcons ih => simpa [hcons, Thunk.get] using ih

/-- The sequences of a list are put one behind the other.  The induction follows the definition,
which skips the empty ones. -/
@[simp]
theorem toList_concatMap (f : α → LazySeq β) (list : List α)
    : (concatMap f list).toList = list.flatMap fun a => (f a).toList := by
  fun_induction concatMap f list with
  | case1 => simp
  | case2 a rest hnil ih => simpa [hnil] using ih
  | case3 a rest first others hcons ih => simpa [hcons, Thunk.get] using ih

end LazySeq

end Formulary
