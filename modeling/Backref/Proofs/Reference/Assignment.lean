import Backref.Proofs.Reference.Walk
import Mathlib.Data.Finset.Lattice.Lemmas

/-!
# What a walk needs and gains

`Node.gains` are the groups that have matched after every walk through a node, and `Node.needs`
are the groups that must have matched before it. Both are computed by recursion on the tree, with
one pass over the body of a loop. `Node.Walk.safe` says that a walk that starts with what the node
needs violates nothing and ends with what it gains.
-/

namespace Backref

mutual

/-- The groups that have matched after every walk through a node. -/
def Node.gains : Node → Finset Nat
  | ⟨_, .sequence, children⟩ | ⟨_, .branch, children⟩ | ⟨_, .group none, children⟩ =>
      Node.gainsThrough children
  | ⟨_, .group (some group), children⟩ => insert group (Node.gainsThrough children)
  | ⟨_, .alternation, first :: others⟩ => Node.gainsOver first.gains others
  | ⟨_, _, _⟩ => ∅

/-- The groups that have matched after the nodes one after the other. -/
def Node.gainsThrough : List Node → Finset Nat
  | [] => ∅
  | node :: nodes => node.gains ∪ Node.gainsThrough nodes

/-- Those of the given groups that have matched after each of the nodes. -/
def Node.gainsOver : Finset Nat → List Node → Finset Nat
  | groups, [] => groups
  | groups, node :: nodes => Node.gainsOver (groups ∩ node.gains) nodes

end

mutual

/-- The groups that must have matched before a node. -/
def Node.needs : Node → Finset Nat
  | ⟨_, .stringRef group, _⟩ => {group}
  | ⟨_, .alternation, children⟩ => Node.needsOver children
  | ⟨_, .sequence, children⟩ | ⟨_, .branch, children⟩ | ⟨_, .group _, children⟩
  | ⟨_, .repetition, children⟩ => Node.needsThrough children
  | ⟨_, .literal _, _⟩ | ⟨_, .expressionRef _, _⟩ => ∅

/-- The groups that must have matched before the nodes one after the other. -/
def Node.needsThrough : List Node → Finset Nat
  | [] => ∅
  | node :: nodes => node.needs ∪ (Node.needsThrough nodes \ node.gains)

/-- The groups that must have matched before any of the nodes. -/
def Node.needsOver : List Node → Finset Nat
  | [] => ∅
  | node :: nodes => node.needs ∪ Node.needsOver nodes

end

namespace Node

/-- A choice gains the groups that all of its parts gain. -/
theorem mem_gainsOver {groups : Finset Nat} {nodes : List Node} {group : Nat} :
    group ∈ gainsOver groups nodes ↔ group ∈ groups ∧ ∀ node ∈ nodes, group ∈ node.gains := by
  induction nodes generalizing groups with
  | nil => simp [gainsOver]
  | cons node nodes ih => rw [gainsOver, ih, Finset.mem_inter, List.forall_mem_cons, and_assoc]

/-- An alternation gains the groups that each of its branches gains. -/
theorem mem_gains_alternation {label : Label} {first : Node} {others : List Node} {group : Nat} :
    group ∈ gains ⟨label, .alternation, first :: others⟩ ↔
      ∀ branch ∈ first :: others, group ∈ branch.gains := by
  rw [gains, mem_gainsOver, List.forall_mem_cons]

/-- A choice needs the groups that one of its parts needs. -/
theorem mem_needsOver {nodes : List Node} {group : Nat} :
    group ∈ needsOver nodes ↔ ∃ node ∈ nodes, group ∈ node.needs := by
  induction nodes with
  | nil => simp [needsOver]
  | cons node nodes ih => rw [needsOver, Finset.mem_union, ih, List.exists_mem_cons_iff]

end Node

mutual

/-- A walk that starts with what the node needs violates nothing, keeps what has matched and adds
what the node gains. -/
theorem Node.Walk.safe : ∀ {node : Node} {matched matched' : Finset Nat}
    {violations : List Violation}, node.Walk matched violations matched' → node.needs ⊆ matched →
      violations = [] ∧ matched ∪ node.gains ⊆ matched'
  | _, _, _, _, .literal, _ => ⟨rfl, by simp [Node.gains]⟩
  | _, _, _, _, .expressionRef, _ => ⟨rfl, by simp [Node.gains]⟩
  | _, _, _, _, .read _, _ => ⟨rfl, by simp [Node.gains]⟩
  | _, _, _, _, .violate h, hneeds => by
      rw [Node.needs, Finset.singleton_subset_iff] at hneeds
      exact absurd hneeds h
  | _, _, _, _, .sequence hwalk, hneeds => hwalk.safe hneeds
  | _, _, _, _, .branch hwalk, hneeds => hwalk.safe hneeds
  | _, _, _, _, .nonCapturing hwalk, hneeds => hwalk.safe hneeds
  | _, _, _, _, .capturing hwalk, hneeds => by
      obtain ⟨rfl, hmatched⟩ := hwalk.safe hneeds
      refine ⟨rfl, ?_⟩
      rw [Node.gains, Finset.union_insert]
      exact Finset.insert_subset_insert _ hmatched
  | ⟨_, .alternation, first :: others⟩, _, _, _, .alternation hbranch hwalk, hneeds => by
      obtain ⟨rfl, hmatched⟩ := hwalk.safe fun x hx =>
        hneeds (Node.mem_needsOver.2 ⟨_, hbranch, hx⟩)
      refine ⟨rfl, (Finset.union_subset_union_right fun x hx => ?_).trans hmatched⟩
      exact Node.mem_gains_alternation.1 hx _ hbranch
  | _, _, _, _, .repetition hwalk, hneeds => by
      obtain ⟨rfl, hmatched⟩ := hwalk.safe hneeds
      exact ⟨rfl, Finset.union_subset hmatched (by simp [Node.gains])⟩

/-- A walk through some nodes that starts with what they need violates nothing, keeps what has
matched and adds what they gain. -/
theorem Node.WalkThrough.safe : ∀ {nodes : List Node} {matched matched' : Finset Nat}
    {violations : List Violation}, WalkThrough nodes matched violations matched' →
      Node.needsThrough nodes ⊆ matched →
      violations = [] ∧ matched ∪ Node.gainsThrough nodes ⊆ matched'
  | _, _, _, _, .nil, _ => ⟨rfl, by simp [Node.gainsThrough]⟩
  | node :: nodes, _, _, _, @WalkThrough.cons _ _ _ middle _ _ _ hnode hnodes, hneeds => by
      rw [Node.needsThrough] at hneeds
      obtain ⟨rfl, hmiddle⟩ := hnode.safe (Finset.union_subset_left hneeds)
      -- What the other nodes need has matched before or is gained by the first one.
      have hothers : Node.needsThrough nodes ⊆ middle := by
        intro x hx
        by_cases hgain : x ∈ node.gains
        · exact hmiddle (Finset.mem_union_right _ hgain)
        · exact hmiddle (Finset.mem_union_left _
            (Finset.union_subset_right hneeds (Finset.mem_sdiff.2 ⟨hx, hgain⟩)))
      obtain ⟨rfl, hmatched⟩ := hnodes.safe hothers
      refine ⟨rfl, ?_⟩
      rw [Node.gainsThrough, ← Finset.union_assoc]
      exact (Finset.union_subset_union_left hmiddle).trans hmatched

/-- The runs of a loop that start with what the body needs violate nothing and keep what has
matched. -/
theorem Node.Iterations.safe : ∀ {body : List Node} {matched matched' : Finset Nat}
    {violations : List Violation}, Iterations body matched violations matched' →
      Node.needsThrough body ⊆ matched → violations = [] ∧ matched ⊆ matched'
  | _, _, _, _, .stop, _ => ⟨rfl, Finset.Subset.refl _⟩
  | _, _, _, _, .again hbody hiterations, hneeds => by
      obtain ⟨rfl, hmiddle⟩ := hbody.safe hneeds
      have hgrown := Finset.union_subset_left hmiddle
      obtain ⟨rfl, hmatched⟩ := hiterations.safe (hneeds.trans hgrown)
      exact ⟨rfl, hgrown.trans hmatched⟩

end

mutual

/-- A node that uses no group needs none. -/
theorem Node.needs_eq_empty : ∀ {node : Node}, ¬ node.UsesGroups → node.needs = ∅
  | ⟨label, kind, children⟩, h => by
      have hchildren := Node.not_anyUsesGroups_children h
      cases kind with
      | stringRef group => exact absurd rfl (Node.not_usesGroup_kind h)
      | alternation => exact Node.needsOver_eq_empty hchildren
      | sequence => exact Node.needsThrough_eq_empty hchildren
      | branch => exact Node.needsThrough_eq_empty hchildren
      | group number => exact Node.needsThrough_eq_empty hchildren
      | repetition => exact Node.needsThrough_eq_empty hchildren
      | literal letter => rfl
      | expressionRef group => rfl

/-- Nodes that use no group need none one after the other. -/
theorem Node.needsThrough_eq_empty : ∀ {nodes : List Node}, ¬ Node.AnyUsesGroups nodes →
    Node.needsThrough nodes = ∅
  | [], _ => rfl
  | node :: nodes, h => by
      obtain ⟨hnode, hnodes⟩ := Node.not_anyUsesGroups_cons h
      rw [Node.needsThrough, Node.needs_eq_empty hnode, Node.needsThrough_eq_empty hnodes]
      simp

/-- Nodes that use no group need none each. -/
theorem Node.needsOver_eq_empty : ∀ {nodes : List Node}, ¬ Node.AnyUsesGroups nodes →
    Node.needsOver nodes = ∅
  | [], _ => rfl
  | node :: nodes, h => by
      obtain ⟨hnode, hnodes⟩ := Node.not_anyUsesGroups_cons h
      rw [Node.needsOver, Node.needs_eq_empty hnode, Node.needsOver_eq_empty hnodes]
      simp

end

/-! ## Needed groups are read -/

mutual

/-- A node needs only groups that a string reference in it reads. -/
theorem Node.exists_stringRef_of_mem_needs {group : Nat} : ∀ {node : Node}, group ∈ node.needs →
    ∃ inner ∈ node.subtree, inner.kind = .stringRef group
  | ⟨label, kind, children⟩, h => by
      have hbelow : (∃ inner ∈ Node.subtrees children, inner.kind = .stringRef group) →
          ∃ inner ∈ Node.subtree ⟨label, kind, children⟩, inner.kind = .stringRef group :=
        fun ⟨inner, hinner, hkind⟩ => ⟨inner, Node.mem_subtree_of_mem_subtrees hinner, hkind⟩
      cases kind with
      | stringRef read =>
          obtain rfl := Finset.mem_singleton.1 h
          exact ⟨_, Node.mem_subtree_self _, rfl⟩
      | alternation =>
          obtain ⟨branch, hbranch, hneeds⟩ := Node.mem_needsOver.1 h
          obtain ⟨inner, hinner, hkind⟩ := Node.exists_stringRef_of_mem_needs hneeds
          exact ⟨inner, Node.mem_subtree_of_child hbranch hinner, hkind⟩
      | sequence => exact hbelow (Node.exists_stringRef_of_mem_needsThrough h)
      | branch => exact hbelow (Node.exists_stringRef_of_mem_needsThrough h)
      | group number => exact hbelow (Node.exists_stringRef_of_mem_needsThrough h)
      | repetition => exact hbelow (Node.exists_stringRef_of_mem_needsThrough h)
      | literal letter => cases h
      | expressionRef number => cases h

/-- Some nodes need only groups that a string reference in them reads. -/
theorem Node.exists_stringRef_of_mem_needsThrough {group : Nat} : ∀ {nodes : List Node},
    group ∈ Node.needsThrough nodes →
      ∃ inner ∈ Node.subtrees nodes, inner.kind = .stringRef group
  | [], h => nomatch h
  | node :: nodes, h => by
      rw [Node.needsThrough, Finset.mem_union, Finset.mem_sdiff] at h
      rcases h with h | ⟨h, _⟩
      · obtain ⟨inner, hinner, hkind⟩ := Node.exists_stringRef_of_mem_needs h
        exact ⟨inner, List.mem_append_left _ hinner, hkind⟩
      · obtain ⟨inner, hinner, hkind⟩ := Node.exists_stringRef_of_mem_needsThrough h
        exact ⟨inner, List.mem_append_right _ hinner, hkind⟩

end

end Backref
