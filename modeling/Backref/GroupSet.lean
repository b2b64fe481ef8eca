/-!
# Sets of groups

`GroupSet` is the set of capturing groups that have matched on a path, as a bit vector.
`contains_insert` says what insertion does; `room_lt_room` says that a set that grows has less
room left, which is why a loop that runs again only after it has matched something new comes
to an end.
-/

namespace Backref

/-- A set of group numbers below sixteen. -/
structure GroupSet where
  bits : BitVec 16
  deriving DecidableEq, Repr

namespace GroupSet

/-- The set without members. -/
def empty : GroupSet := ⟨0⟩

/-- Whether a group is a member. -/
def contains (set : GroupSet) (group : Nat) : Bool := set.bits.getLsbD group

/-- Adds a group. -/
def insert (set : GroupSet) (group : Nat) : GroupSet :=
  ⟨set.bits ||| BitVec.twoPow 16 group⟩

/-- The members in ascending order. -/
def members (set : GroupSet) : List Nat := (List.range 16).filter set.contains

/-- The number of groups that are not members. -/
def room (set : GroupSet) : Nat := (List.range 16).countP fun group => !set.contains group

/-- Every member of the first set is a member of the second. -/
instance : HasSubset GroupSet where
  Subset first second := ∀ group, first.contains group → second.contains group

theorem subset_refl (set : GroupSet) : set ⊆ set := fun _ h => h

theorem subset_trans {first second third : GroupSet} (h : first ⊆ second)
    (h' : second ⊆ third) : first ⊆ third :=
  fun group hgroup => h' group (h group hgroup)

/-- No set contains a number of sixteen or more. -/
theorem lt_of_contains {set : GroupSet} {group : Nat} (h : set.contains group) : group < 16 :=
  BitVec.lt_of_getLsbD h

/-- Two sets with the same members are equal. -/
theorem ext_contains {first second : GroupSet}
    (h : ∀ group, first.contains group = second.contains group) : first = second := by
  cases first
  cases second
  congr 1
  exact BitVec.eq_of_getLsbD_eq fun i _ => h i

/-- Insertion adds the group and nothing else. -/
theorem contains_insert (set : GroupSet) (added group : Nat) :
    (set.insert added).contains group =
      (set.contains group || (decide (group < 16) && decide (added = group))) := by
  simp only [insert, contains, BitVec.getLsbD_or, BitVec.getLsbD_twoPow]
  by_cases hsame : added = group
  · subst hsame; simp
  · simp [hsame]

theorem subset_insert (set : GroupSet) (group : Nat) : set ⊆ set.insert group := by
  intro member hmember
  simp [contains_insert, hmember]

/-- A stronger test that fails on one more element of a list counts fewer of them. -/
theorem countP_lt_countP {strong weak : Nat → Bool} {list : List Nat}
    (himp : ∀ element ∈ list, strong element → weak element) (witness : Nat)
    (hmem : witness ∈ list) (hstrong : ¬ strong witness) (hweak : weak witness) :
    list.countP strong < list.countP weak := by
  induction list with
  | nil => cases hmem
  | cons head tail ih =>
    have htail : ∀ element ∈ tail, strong element → weak element :=
      fun element h => himp element (.tail _ h)
    rw [List.countP_cons, List.countP_cons]
    cases hmem with
    | head => simpa [hstrong, hweak] using Nat.lt_succ_of_le (List.countP_mono_left htail)
    | tail _ hmem =>
      have hlt := ih htail hmem
      by_cases hhead : strong head
      · rw [if_pos hhead, if_pos (himp head (.head _) hhead)]
        exact Nat.succ_lt_succ hlt
      · rw [if_neg hhead]
        exact Nat.lt_of_lt_of_le hlt (Nat.le_add_right _ _)

/-- A set that lies in another one and differs from it leaves more room. -/
theorem room_lt_room {first second : GroupSet} (h : first ⊆ second) (hne : second ≠ first) :
    second.room < first.room := by
  have ⟨group, hsecond, hfirst⟩ : ∃ group, second.contains group ∧ ¬ first.contains group := by
    refine Classical.byContradiction fun hnone => hne (ext_contains fun group => ?_)
    rw [Bool.eq_iff_iff]
    exact ⟨fun hin => Classical.byContradiction fun hout => hnone ⟨group, hin, hout⟩, h group⟩
  refine countP_lt_countP (fun member _ hout => ?_) group
    (List.mem_range.2 (lt_of_contains hsecond)) (by simpa using hsecond) (by simpa using hfirst)
  have := h member
  simp_all

end GroupSet

end Backref
