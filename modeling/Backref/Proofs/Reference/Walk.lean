import Backref.Proofs.Pattern.Shape
import Backref.Proofs.Reference.Relevance
import Mathlib.Data.Finset.Basic

/-!
# Walks through a tree

A walk goes through a tree from left to right with free choices: any branch of an alternation,
any number of runs of a repetition. It knows no relevant nodes, no forks and no limit.
`Node.Walk node matched violations matched'` says that some walk through the node starts with the
groups `matched`, ends with the groups `matched'` and reads the groups of `violations` before they
have matched.
-/

namespace Backref

/-- A string reference that is read before its group has matched. -/
structure Violation where
  group : Nat
  position : Nat
  deriving DecidableEq, Repr

mutual

/-- A walk through a node. -/
inductive Node.Walk : Node → Finset Nat → List Violation → Finset Nat → Prop where
  | literal {label : Label} {letter : Char} {children : List Node} {matched : Finset Nat} :
      Walk ⟨label, .literal letter, children⟩ matched [] matched
  | expressionRef {label : Label} {group : Nat} {children : List Node} {matched : Finset Nat} :
      Walk ⟨label, .expressionRef group, children⟩ matched [] matched
  | read {label : Label} {group : Nat} {children : List Node} {matched : Finset Nat} :
      group ∈ matched → Walk ⟨label, .stringRef group, children⟩ matched [] matched
  | violate {label : Label} {group : Nat} {children : List Node} {matched : Finset Nat} :
      group ∉ matched →
        Walk ⟨label, .stringRef group, children⟩ matched [⟨group, label.position⟩] matched
  | sequence {label : Label} {children : List Node} {matched matched' : Finset Nat}
      {violations : List Violation} : WalkThrough children matched violations matched' →
        Walk ⟨label, .sequence, children⟩ matched violations matched'
  | branch {label : Label} {children : List Node} {matched matched' : Finset Nat}
      {violations : List Violation} : WalkThrough children matched violations matched' →
        Walk ⟨label, .branch, children⟩ matched violations matched'
  | nonCapturing {label : Label} {children : List Node} {matched matched' : Finset Nat}
      {violations : List Violation} : WalkThrough children matched violations matched' →
        Walk ⟨label, .group none, children⟩ matched violations matched'
  | capturing {label : Label} {group : Nat} {children : List Node} {matched matched' : Finset Nat}
      {violations : List Violation} : WalkThrough children matched violations matched' →
        Walk ⟨label, .group (some group), children⟩ matched violations (insert group matched')
  | alternation {label : Label} {children : List Node} {branch : Node}
      {matched matched' : Finset Nat} {violations : List Violation} : branch ∈ children →
        branch.Walk matched violations matched' →
        Walk ⟨label, .alternation, children⟩ matched violations matched'
  | repetition {label : Label} {children : List Node} {matched matched' : Finset Nat}
      {violations : List Violation} : Iterations children matched violations matched' →
        Walk ⟨label, .repetition, children⟩ matched violations matched'

/-- A walk through some nodes one after the other. -/
inductive Node.WalkThrough : List Node → Finset Nat → List Violation → Finset Nat → Prop where
  | nil {matched : Finset Nat} : WalkThrough [] matched [] matched
  | cons {node : Node} {nodes : List Node} {matched middle matched' : Finset Nat}
      {violations violations' : List Violation} : node.Walk matched violations middle →
        WalkThrough nodes middle violations' matched' →
        WalkThrough (node :: nodes) matched (violations ++ violations') matched'

/-- Any number of walks through the body of a loop. -/
inductive Node.Iterations : List Node → Finset Nat → List Violation → Finset Nat → Prop where
  | stop {body : List Node} {matched : Finset Nat} : Iterations body matched [] matched
  | again {body : List Node} {matched middle matched' : Finset Nat}
      {violations violations' : List Violation} : WalkThrough body matched violations middle →
        Iterations body middle violations' matched' →
        Iterations body matched (violations ++ violations') matched'

end

/-- No walk reads a group before it has matched. -/
def Pattern.NeverViolates (pattern : Pattern) : Prop :=
  ∀ violations matched, pattern.root.Walk ∅ violations matched → violations = []

/-- Some walk reads the group at the given index before it has matched. -/
def Pattern.MayViolate (pattern : Pattern) (group index : Nat) : Prop :=
  ∃ violations matched, pattern.root.Walk ∅ violations matched ∧ ⟨group, index⟩ ∈ violations

/-! ## Where walks violate -/

/-- What lies below a node lies in its subtree. -/
theorem Node.mem_subtree_of_mem_subtrees {node inner : Node}
    (h : inner ∈ Node.subtrees node.children) : inner ∈ node.subtree := by
  rw [node.subtree_eq]
  exact List.mem_cons_of_mem node h

mutual

/-- A walk violates only at string references of the tree. -/
theorem Node.Walk.exists_stringRef {violation : Violation} :
    ∀ {node : Node} {matched matched' : Finset Nat} {violations : List Violation},
      node.Walk matched violations matched' → violation ∈ violations →
      ∃ inner ∈ node.subtree, inner.kind = .stringRef violation.group ∧
        inner.position = violation.position
  | _, _, _, _, .literal, h => nomatch h
  | _, _, _, _, .expressionRef, h => nomatch h
  | _, _, _, _, .read _, h => nomatch h
  | _, _, _, _, .violate _, h => by
      rw [List.mem_singleton] at h
      subst h
      exact ⟨_, Node.mem_subtree_self _, rfl, rfl⟩
  | _, _, _, _, .sequence hwalk, h => by
      obtain ⟨inner, hinner, hkind⟩ := hwalk.exists_stringRef h
      exact ⟨inner, Node.mem_subtree_of_mem_subtrees hinner, hkind⟩
  | _, _, _, _, .branch hwalk, h => by
      obtain ⟨inner, hinner, hkind⟩ := hwalk.exists_stringRef h
      exact ⟨inner, Node.mem_subtree_of_mem_subtrees hinner, hkind⟩
  | _, _, _, _, .nonCapturing hwalk, h => by
      obtain ⟨inner, hinner, hkind⟩ := hwalk.exists_stringRef h
      exact ⟨inner, Node.mem_subtree_of_mem_subtrees hinner, hkind⟩
  | _, _, _, _, .capturing hwalk, h => by
      obtain ⟨inner, hinner, hkind⟩ := hwalk.exists_stringRef h
      exact ⟨inner, Node.mem_subtree_of_mem_subtrees hinner, hkind⟩
  | _, _, _, _, .alternation hbranch hwalk, h => by
      obtain ⟨inner, hinner, hkind⟩ := hwalk.exists_stringRef h
      exact ⟨inner, Node.mem_subtree_of_child hbranch hinner, hkind⟩
  | _, _, _, _, .repetition hwalk, h => by
      obtain ⟨inner, hinner, hkind⟩ := hwalk.exists_stringRef h
      exact ⟨inner, Node.mem_subtree_of_mem_subtrees hinner, hkind⟩

/-- A walk through some nodes violates only at string references below them. -/
theorem Node.WalkThrough.exists_stringRef {violation : Violation} :
    ∀ {nodes : List Node} {matched matched' : Finset Nat} {violations : List Violation},
      WalkThrough nodes matched violations matched' → violation ∈ violations →
      ∃ inner ∈ Node.subtrees nodes, inner.kind = .stringRef violation.group ∧
        inner.position = violation.position
  | _, _, _, _, .nil, h => nomatch h
  | _, _, _, _, .cons hnode hnodes, h => by
      rcases List.mem_append.1 h with h | h
      · obtain ⟨inner, hinner, hkind⟩ := hnode.exists_stringRef h
        exact ⟨inner, List.mem_append_left _ hinner, hkind⟩
      · obtain ⟨inner, hinner, hkind⟩ := hnodes.exists_stringRef h
        exact ⟨inner, List.mem_append_right _ hinner, hkind⟩

/-- The runs of a loop violate only at string references below its body. -/
theorem Node.Iterations.exists_stringRef {violation : Violation} :
    ∀ {body : List Node} {matched matched' : Finset Nat} {violations : List Violation},
      Iterations body matched violations matched' → violation ∈ violations →
      ∃ inner ∈ Node.subtrees body, inner.kind = .stringRef violation.group ∧
        inner.position = violation.position
  | _, _, _, _, .stop, h => nomatch h
  | _, _, _, _, .again hbody hiterations, h => by
      rcases List.mem_append.1 h with h | h
      · exact hbody.exists_stringRef h
      · exact hiterations.exists_stringRef h

end

/-! ## Nodes that use no group -/

/-- Whether a group is set or read below the nodes. -/
def Node.AnyUsesGroups (nodes : List Node) : Prop :=
  ∃ inner ∈ Node.subtrees nodes, inner.kind.usesGroup

/-- A node that uses no group has no child that does. -/
theorem Node.not_anyUsesGroups_children {node : Node} (h : ¬ node.UsesGroups) :
    ¬ Node.AnyUsesGroups node.children := by
  rintro ⟨inner, hinner, huses⟩
  exact h ⟨inner, Node.mem_subtree_of_mem_subtrees hinner, huses⟩

/-- A node that uses no group is itself no group or reference of that kind. -/
theorem Node.not_usesGroup_kind {node : Node} (h : ¬ node.UsesGroups) :
    ¬ node.kind.usesGroup :=
  fun huses => h ⟨node, node.mem_subtree_self, huses⟩

/-- Of nodes that use no group, neither the first one nor the others use one. -/
theorem Node.not_anyUsesGroups_cons {node : Node} {nodes : List Node}
    (h : ¬ Node.AnyUsesGroups (node :: nodes)) :
    ¬ node.UsesGroups ∧ ¬ Node.AnyUsesGroups nodes := by
  constructor
  · rintro ⟨inner, hinner, huses⟩
    exact h ⟨inner, List.mem_append_left _ hinner, huses⟩
  · rintro ⟨inner, hinner, huses⟩
    exact h ⟨inner, List.mem_append_right _ hinner, huses⟩

/-- Of nodes that use no group, none uses one. -/
theorem Node.not_usesGroups_of_mem {node : Node} {nodes : List Node}
    (h : ¬ Node.AnyUsesGroups nodes) (hnode : node ∈ nodes) : ¬ node.UsesGroups := by
  rintro ⟨inner, hinner, huses⟩
  exact h ⟨inner, Node.mem_subtrees.2 ⟨node, hnode, hinner⟩, huses⟩

mutual

/-- A walk through a node that uses no group violates nothing and changes nothing. -/
theorem Node.Walk.idle : ∀ {node : Node} {matched matched' : Finset Nat}
    {violations : List Violation}, node.Walk matched violations matched' →
      ¬ node.UsesGroups → violations = [] ∧ matched' = matched
  | _, _, _, _, .literal, _ => ⟨rfl, rfl⟩
  | _, _, _, _, .expressionRef, _ => ⟨rfl, rfl⟩
  | _, _, _, _, .read _, _ => ⟨rfl, rfl⟩
  | _, _, _, _, .violate _, h => absurd rfl (Node.not_usesGroup_kind h)
  | _, _, _, _, .sequence hwalk, h => hwalk.idle (Node.not_anyUsesGroups_children h)
  | _, _, _, _, .branch hwalk, h => hwalk.idle (Node.not_anyUsesGroups_children h)
  | _, _, _, _, .nonCapturing hwalk, h => hwalk.idle (Node.not_anyUsesGroups_children h)
  | _, _, _, _, .capturing _, h => absurd rfl (Node.not_usesGroup_kind h)
  | _, _, _, _, .alternation hbranch hwalk, h =>
      hwalk.idle (Node.not_usesGroups_of_mem (Node.not_anyUsesGroups_children h) hbranch)
  | _, _, _, _, .repetition hwalk, h => hwalk.idle (Node.not_anyUsesGroups_children h)

/-- A walk through nodes that use no group violates nothing and changes nothing. -/
theorem Node.WalkThrough.idle : ∀ {nodes : List Node} {matched matched' : Finset Nat}
    {violations : List Violation}, WalkThrough nodes matched violations matched' →
      ¬ Node.AnyUsesGroups nodes → violations = [] ∧ matched' = matched
  | _, _, _, _, .nil, _ => ⟨rfl, rfl⟩
  | _, _, _, _, .cons hnode hnodes, h => by
      obtain ⟨rfl, rfl⟩ := hnode.idle (Node.not_anyUsesGroups_cons h).1
      exact hnodes.idle (Node.not_anyUsesGroups_cons h).2

/-- The runs of a loop whose body uses no group violate nothing and change nothing. -/
theorem Node.Iterations.idle : ∀ {body : List Node} {matched matched' : Finset Nat}
    {violations : List Violation}, Iterations body matched violations matched' →
      ¬ Node.AnyUsesGroups body → violations = [] ∧ matched' = matched
  | _, _, _, _, .stop, _ => ⟨rfl, rfl⟩
  | _, _, _, _, .again hbody hiterations, h => by
      obtain ⟨rfl, rfl⟩ := hbody.idle h
      exact hiterations.idle h

end

/-! ## Every formed tree has a walk -/

mutual

/-- There is a walk through a formed node, whatever has matched before. -/
theorem Node.exists_walk : ∀ {node : Node}, (∀ inner ∈ node.subtree, inner.IsFormed) →
    ∀ matched, ∃ violations matched', node.Walk matched violations matched'
  | ⟨label, kind, children⟩, h, matched => by
      have hchildren : AllFormed children := fun inner hinner =>
        h inner (Node.mem_subtree_of_mem_subtrees hinner)
      cases kind with
      | literal letter => exact ⟨_, _, .literal⟩
      | expressionRef group => exact ⟨_, _, .expressionRef⟩
      | stringRef group =>
          by_cases hmatched : group ∈ matched
          · exact ⟨_, _, .read hmatched⟩
          · exact ⟨_, _, .violate hmatched⟩
      | sequence =>
          obtain ⟨violations, matched', hwalk⟩ := Node.exists_walkThrough hchildren matched
          exact ⟨_, _, .sequence hwalk⟩
      | branch =>
          obtain ⟨violations, matched', hwalk⟩ := Node.exists_walkThrough hchildren matched
          exact ⟨_, _, .branch hwalk⟩
      | group number =>
          obtain ⟨violations, matched', hwalk⟩ := Node.exists_walkThrough hchildren matched
          cases number with
          | none => exact ⟨_, _, .nonCapturing hwalk⟩
          | some group => exact ⟨_, _, .capturing hwalk⟩
      | alternation =>
          obtain ⟨hlength, _⟩ := h _ (Node.mem_subtree_self _)
          cases children with
          | nil => exact absurd hlength (Nat.not_succ_le_zero 1)
          | cons first others =>
              obtain ⟨violations, matched', hwalk⟩ := Node.exists_walk
                (fun inner hinner => hchildren inner (List.mem_append_left _ hinner)) matched
              exact ⟨_, _, .alternation List.mem_cons_self hwalk⟩
      | repetition => exact ⟨_, _, .repetition .stop⟩

/-- There is a walk through some formed nodes, whatever has matched before. -/
theorem Node.exists_walkThrough : ∀ {nodes : List Node}, AllFormed nodes →
    ∀ matched, ∃ violations matched', WalkThrough nodes matched violations matched'
  | [], _, _ => ⟨_, _, .nil⟩
  | node :: nodes, h, matched => by
      obtain ⟨violations, middle, hnode⟩ := Node.exists_walk
        (fun inner hinner => h inner (List.mem_append_left _ hinner)) matched
      obtain ⟨violations', matched', hnodes⟩ := Node.exists_walkThrough
        (fun inner hinner => h inner (List.mem_append_right _ hinner)) middle
      exact ⟨_, _, .cons hnode hnodes⟩

end

/-- A formed node that uses no group can be passed over. -/
theorem Node.walk_idle {node : Node} (hformed : ∀ inner ∈ node.subtree, inner.IsFormed)
    (h : ¬ node.UsesGroups) (matched : Finset Nat) : node.Walk matched [] matched := by
  obtain ⟨violations, matched', hwalk⟩ := Node.exists_walk hformed matched
  obtain ⟨rfl, rfl⟩ := hwalk.idle h
  exact hwalk

end Backref
