import Backref.Proofs.Reference.Exactness

/-!
# Definite assignment

`Node.assign` goes through a tree once with a single set, the groups that have matched on every
way so far, and fails at a string reference to any other group. `Node.assign_eq` computes it from
what a node needs and gains, so one such pass decides what the search finds out by following all
paths.
-/

namespace Backref

mutual

/-- The groups that have matched after every way through a node when those of `matched` have
matched before it. There is no result if a way reads a group that has not matched. -/
def Node.assign : Node → Finset Nat → Option (Finset Nat)
  | ⟨_, .literal _, _⟩, matched | ⟨_, .expressionRef _, _⟩, matched => some matched
  | ⟨_, .stringRef group, _⟩, matched => if group ∈ matched then some matched else none
  | ⟨_, .sequence, children⟩, matched | ⟨_, .branch, children⟩, matched
  | ⟨_, .group none, children⟩, matched => Node.assignThrough children matched
  | ⟨_, .group (some group), children⟩, matched =>
      (Node.assignThrough children matched).map (insert group)
  | ⟨_, .alternation, []⟩, matched => some matched
  | ⟨_, .alternation, first :: others⟩, matched => do
      let common ← first.assign matched
      Node.assignOver others matched common
  | ⟨_, .repetition, children⟩, matched => do
      let _ ← Node.assignThrough children matched
      return matched

/-- The groups that have matched after the nodes one after the other. -/
def Node.assignThrough : List Node → Finset Nat → Option (Finset Nat)
  | [], matched => some matched
  | node :: nodes, matched => do
      let middle ← node.assign matched
      Node.assignThrough nodes middle

/-- Those of the groups in `common` that have matched after each of the nodes, all of which start
with the same groups. -/
def Node.assignOver : List Node → Finset Nat → Finset Nat → Option (Finset Nat)
  | [], _, common => some common
  | node :: nodes, matched, common => do
      let after ← node.assign matched
      Node.assignOver nodes matched (common ∩ after)

end

/-- The pattern passes if no string reference of it makes the pass fail. -/
def Pattern.IsAssigned (pattern : Pattern) : Prop := (pattern.root.assign ∅).isSome

instance (pattern : Pattern) : Decidable pattern.IsAssigned :=
  inferInstanceAs (Decidable ((pattern.root.assign ∅).isSome = true))

/-! ## What the pass computes -/

mutual

/-- The pass succeeds on a node when what the node needs has matched, and adds what it gains. -/
theorem Node.assign_eq : ∀ (node : Node) (matched : Finset Nat),
    node.assign matched = if node.needs ⊆ matched then some (matched ∪ node.gains) else none
  | ⟨label, kind, children⟩, matched => by
      have hthrough := Node.assignThrough_eq children matched
      cases kind with
      | literal letter => simp [Node.assign, Node.needs, Node.gains]
      | expressionRef group => simp [Node.assign, Node.needs, Node.gains]
      | stringRef group => simp [Node.assign, Node.needs, Node.gains]
      | sequence => exact hthrough
      | branch => exact hthrough
      | group number =>
          cases number with
          | none => exact hthrough
          | some group =>
              rw [Node.assign, hthrough, Node.needs, Node.gains, Finset.union_insert]
              split <;> rfl
      | alternation =>
          cases children with
          | nil => simp [Node.assign, Node.needs, Node.needsOver, Node.gains]
          | cons first others =>
              rw [Node.assign, Node.assign_eq first matched, Node.needs, Node.needsOver, Node.gains]
              by_cases hfirst : first.needs ⊆ matched
              · rw [if_pos hfirst, Option.bind_eq_bind, Option.bind_some,
                  Node.assignOver_eq others matched first.gains]
                simp only [Finset.union_subset_iff, hfirst, true_and]
              · rw [if_neg hfirst, if_neg fun h => hfirst (Finset.union_subset_left h)]
                rfl
      | repetition =>
          rw [Node.assign, hthrough, Node.needs]
          split <;> simp [Node.gains]

/-- The pass succeeds on some nodes when what they need has matched, and adds what they gain. -/
theorem Node.assignThrough_eq : ∀ (nodes : List Node) (matched : Finset Nat),
    Node.assignThrough nodes matched =
      if Node.needsThrough nodes ⊆ matched then some (matched ∪ Node.gainsThrough nodes) else none
  | [], matched => by simp [Node.assignThrough, Node.needsThrough, Node.gainsThrough]
  | node :: nodes, matched => by
      -- What the later nodes need may be gained by the first one.
      have hsplit : Node.needsThrough (node :: nodes) ⊆ matched ↔
          node.needs ⊆ matched ∧ Node.needsThrough nodes ⊆ matched ∪ node.gains := by
        rw [Node.needsThrough, Finset.union_subset_iff]
        simp only [Finset.subset_iff, Finset.mem_sdiff, Finset.mem_union]
        grind
      rw [Node.assignThrough, Node.assign_eq node matched]
      by_cases hnode : node.needs ⊆ matched
      · rw [if_pos hnode, Option.bind_eq_bind, Option.bind_some,
          Node.assignThrough_eq nodes (matched ∪ node.gains), Node.gainsThrough,
          Finset.union_assoc]
        simp only [hsplit, hnode, true_and]
      · rw [if_neg hnode, if_neg fun h => hnode (hsplit.1 h).1]
        rfl

/-- The pass succeeds on a choice when what each of the nodes needs has matched, and keeps what
all of them gain. -/
theorem Node.assignOver_eq : ∀ (nodes : List Node) (matched groups : Finset Nat),
    Node.assignOver nodes matched (matched ∪ groups) =
      if Node.needsOver nodes ⊆ matched then some (matched ∪ Node.gainsOver groups nodes) else none
  | [], matched, groups => by simp [Node.assignOver, Node.needsOver, Node.gainsOver]
  | node :: nodes, matched, groups => by
      rw [Node.assignOver, Node.assign_eq node matched, Node.needsOver, Node.gainsOver]
      by_cases hnode : node.needs ⊆ matched
      · rw [if_pos hnode, Option.bind_eq_bind, Option.bind_some,
          ← Finset.union_inter_distrib_left, Node.assignOver_eq nodes matched]
        simp only [Finset.union_subset_iff, hnode, true_and]
      · rw [if_neg hnode, if_neg fun h => hnode (Finset.union_subset_left h)]
        rfl

end

/-- The pass succeeds on a pattern exactly when its root needs nothing. -/
theorem Pattern.isAssigned_iff {pattern : Pattern} :
    pattern.IsAssigned ↔ pattern.root.needs = ∅ := by
  rw [IsAssigned, Node.assign_eq, ← Finset.subset_empty]
  split <;> simp [*]

namespace Config

/-- Unless the search gives up, it accepts exactly the patterns that pass definite assignment. -/
theorem validate_eq_ok_iff_isAssigned {text : String} {pattern : Pattern}
    (h : Pattern.parse text = .ok pattern) {maxPaths : Nat}
    (hlimit : (Config.mk maxPaths 1 .pathSensitive).validate text ≠ .error (.pathLimit maxPaths)) :
    (Config.mk maxPaths 1 .pathSensitive).validate text = .ok pattern ↔ pattern.IsAssigned := by
  rw [Pattern.isAssigned_iff]
  constructor
  · intro haccepted
    have hcheck := ((validate_eq_ok_iff h).1 haccepted).1
    exact Pattern.needs_eq_empty_of_checkPaths (Pattern.explorable_of_parse h) hcheck
  · intro hneeds
    exact validate_eq_ok_of_ne_pathLimit h hlimit (Pattern.neverViolates_of_needs hneeds)

/-- In `(a)(?:b\1|((c)\3)*|)*\1` the third group is read after it has matched in the same run of
the inner loop, and the first group has matched before both loops. -/
theorem validate_eq_ok_iff_isAssigned_loop :
    ∃ pattern, Pattern.parse "(a)(?:b\\1|((c)\\3)*|)*\\1" = .ok pattern ∧ pattern.IsAssigned ∧
      ∀ maxPaths, pattern.forkBound ≤ maxPaths →
        (Config.mk maxPaths 1 .pathSensitive).validate "(a)(?:b\\1|((c)\\3)*|)*\\1" ≠
          .error (.pathLimit maxPaths) ∧
        (Config.mk maxPaths 1 .pathSensitive).validate "(a)(?:b\\1|((c)\\3)*|)*\\1" =
          .ok pattern := by
  obtain ⟨pattern, hparse, hassigned⟩ : ∃ pattern,
      Pattern.parse "(a)(?:b\\1|((c)\\3)*|)*\\1" = .ok pattern ∧ pattern.IsAssigned :=
    ⟨_, rfl, by decide⟩
  refine ⟨pattern, hparse, hassigned, fun maxPaths hbound => ?_⟩
  have hlimit := validate_ne_pathLimit hparse hbound maxPaths
  exact ⟨hlimit, (validate_eq_ok_iff_isAssigned hparse hlimit).2 hassigned⟩

end Config

end Backref
