import Backref.Proofs.Pattern.Shape
import Backref.Reference.Path

/-!
# The moves of a path

`Path.Moves` lists what a path may do next, one constructor for each kind of task and node.
`Path.moves_of_move_eq` says that there is nothing else, so proofs about paths take one case for
each constructor and do not open `Path.move`.
-/

namespace Backref

namespace Path

/-- The path goes on as the first path of the list does, and the others part from it. -/
inductive Moves (relevant : Node → Bool) : Path → Path → List Path → Prop where
  | skip {node : Node} {matched : GroupSet} {rest : List Task} : ¬ relevant node →
      Moves relevant ⟨matched, .visit node :: rest⟩ ⟨matched, rest⟩ []
  | literal {label : Label} {letter : Char} {children : List Node} {matched : GroupSet}
      {rest : List Task} :
      Moves relevant ⟨matched, .visit ⟨label, .literal letter, children⟩ :: rest⟩
        ⟨matched, rest⟩ []
  | expressionRef {label : Label} {group : Nat} {children : List Node} {matched : GroupSet}
      {rest : List Task} :
      Moves relevant ⟨matched, .visit ⟨label, .expressionRef group, children⟩ :: rest⟩
        ⟨matched, rest⟩ []
  | read {label : Label} {group : Nat} {children : List Node} {matched : GroupSet}
      {rest : List Task} : matched.contains group →
      Moves relevant ⟨matched, .visit ⟨label, .stringRef group, children⟩ :: rest⟩
        ⟨matched, rest⟩ []
  | sequence {label : Label} {children : List Node} {matched : GroupSet} {rest : List Task} :
      Moves relevant ⟨matched, .visit ⟨label, .sequence, children⟩ :: rest⟩
        ⟨matched, children.map .visit ++ rest⟩ []
  | branch {label : Label} {children : List Node} {matched : GroupSet} {rest : List Task} :
      Moves relevant ⟨matched, .visit ⟨label, .branch, children⟩ :: rest⟩
        ⟨matched, children.map .visit ++ rest⟩ []
  | nonCapturing {label : Label} {children : List Node} {matched : GroupSet}
      {rest : List Task} :
      Moves relevant ⟨matched, .visit ⟨label, .group none, children⟩ :: rest⟩
        ⟨matched, children.map .visit ++ rest⟩ []
  | capturing {label : Label} {group : Nat} {children : List Node} {matched : GroupSet}
      {rest : List Task} :
      Moves relevant ⟨matched, .visit ⟨label, .group (some group), children⟩ :: rest⟩
        ⟨matched, children.map .visit ++ .capture group :: rest⟩ []
  | noBranch {label : Label} {matched : GroupSet} {rest : List Task} :
      Moves relevant ⟨matched, .visit ⟨label, .alternation, []⟩ :: rest⟩ ⟨matched, rest⟩ []
  | alternation {label : Label} {first : Node} {others : List Node} {matched : GroupSet}
      {rest : List Task} :
      Moves relevant ⟨matched, .visit ⟨label, .alternation, first :: others⟩ :: rest⟩
        ⟨matched, .visit first :: rest⟩
        (others.map fun branch => ⟨matched, .visit branch :: rest⟩)
  | repetition {label : Label} {children : List Node} {matched : GroupSet} {rest : List Task} :
      Moves relevant ⟨matched, .visit ⟨label, .repetition, children⟩ :: rest⟩
        ⟨matched, children.map .visit ++ .reenter ⟨label, .repetition, children⟩ matched :: rest⟩
        [⟨matched, rest⟩]
  | capture {group : Nat} {matched : GroupSet} {rest : List Task} :
      Moves relevant ⟨matched, .capture group :: rest⟩ ⟨matched.insert group, rest⟩ []
  | leave {loop : Node} {matched : GroupSet} {rest : List Task} :
      Moves relevant ⟨matched, .reenter loop matched :: rest⟩ ⟨matched, rest⟩ []
  | reenter {loop : Node} {entry matched : GroupSet} {rest : List Task} : matched ≠ entry →
      Moves relevant ⟨matched, .reenter loop entry :: rest⟩
        ⟨matched, loop.children.map .visit ++ .reenter loop matched :: rest⟩ [⟨matched, rest⟩]

variable {relevant : Node → Bool} {path next : Path} {forks : List Path}

/-- What a path does when it matches a relevant node. -/
theorem moves_of_enter_eq {node : Node} {matched : GroupSet} {rest : List Task}
    (h : enter node matched rest = .advances next forks) :
    Moves relevant ⟨matched, .visit node :: rest⟩ next forks := by
  obtain ⟨label, kind, children⟩ := node
  cases kind with
  | literal letter => cases h; exact .literal
  | expressionRef group => cases h; exact .expressionRef
  | stringRef group =>
      simp only [enter] at h
      split at h
      · next hmatched => cases h; exact .read hmatched
      · cases h
  | sequence => cases h; exact .sequence
  | branch => cases h; exact .branch
  | group number =>
      cases number with
      | none => cases h; exact .nonCapturing
      | some group => cases h; exact .capturing
  | alternation =>
      cases children with
      | nil => cases h; exact .noBranch
      | cons first others => cases h; exact .alternation
  | repetition => cases h; exact .repetition

/-- A path that goes on makes one of the moves. -/
theorem moves_of_move_eq (h : path.move relevant = .advances next forks) :
    Moves relevant path next forks := by
  obtain ⟨matched, pending⟩ := path
  cases pending with
  | nil => cases h
  | cons task rest =>
      simp only [move] at h
      cases task with
      | visit node =>
          simp only [perform] at h
          split at h
          · exact moves_of_enter_eq h
          · next hrelevant => cases h; exact .skip hrelevant
      | capture group => cases h; exact .capture
      | reenter loop entry =>
          simp only [perform] at h
          split at h
          · next hsame => cases h; subst hsame; exact .leave
          · next hsame => cases h; exact .reenter hsame

/-- A path that violates stands before a reference to a group that has not matched. -/
theorem exists_of_move_eq_violates {group position : Nat}
    (h : path.move relevant = .violates group position) :
    ∃ id children rest, path.pending =
        .visit ⟨⟨id, position⟩, .stringRef group, children⟩ :: rest ∧
      ¬ path.matched.contains group := by
  obtain ⟨matched, pending⟩ := path
  cases pending with
  | nil => cases h
  | cons task rest =>
      simp only [move] at h
      cases task with
      | visit node =>
          obtain ⟨⟨id, start⟩, kind, children⟩ := node
          simp only [perform] at h
          split at h
          · cases kind with
            | stringRef read =>
                simp only [enter] at h
                split at h
                · cases h
                · next hmatched =>
                    cases h
                    exact ⟨id, children, rest, rfl, hmatched⟩
            | group number => cases number <;> cases h
            | alternation => cases children <;> cases h
            | _ => cases h
          · cases h
      | capture group => cases h
      | reenter loop entry =>
          simp only [perform] at h
          split at h <;> cases h

/-- A path has come to its end when no task is left. -/
theorem pending_eq_nil_of_move_eq (h : path.move relevant = .finished) : path.pending = [] := by
  obtain ⟨matched, pending⟩ := path
  cases pending with
  | nil => rfl
  | cons task rest =>
      simp only [move] at h
      cases task with
      | visit node =>
          simp only [perform, enter, follow, iterate] at h
          repeat' split at h
          all_goals cases h
      | capture group => cases h
      | reenter loop entry =>
          simp only [perform, follow, iterate] at h
          split at h <;> cases h

/-- A node that is not relevant is passed over. -/
theorem move_skip {node : Node} (h : ¬ relevant node) (matched : GroupSet) (rest : List Task) :
    move relevant ⟨matched, .visit node :: rest⟩ = follow matched rest :=
  if_neg h

/-- A relevant node is entered. -/
theorem move_visit {node : Node} (h : relevant node) (matched : GroupSet) (rest : List Task) :
    move relevant ⟨matched, .visit node :: rest⟩ = enter node matched rest :=
  if_pos h

/-- A loop is left if no group has matched since the last time. -/
theorem move_leave (loop : Node) (matched : GroupSet) (rest : List Task) :
    move relevant ⟨matched, .reenter loop matched :: rest⟩ = follow matched rest :=
  if_pos rfl

/-- A loop is run again if a group has matched since the last time. -/
theorem move_reenter {loop : Node} {matched mark : GroupSet} (h : ¬ matched = mark)
    (rest : List Task) :
    move relevant ⟨matched, .reenter loop mark :: rest⟩ = iterate loop matched rest :=
  if_neg h

end Path

/-! ## Paths through a tree -/

/-- The nodes of the task lie in the tree, and the group that it captures can be in a set. -/
def Task.Within (root : Node) : Task → Prop
  | .visit node => node ∈ root.subtree
  | .capture group => group < 16
  | .reenter loop _ => loop ∈ root.subtree

/-- The tasks of the path lie in the tree. -/
def Path.Within (root : Node) (path : Path) : Prop := ∀ task ∈ path.pending, task.Within root

/-- The groups of a tree can be in a set. -/
def Node.GroupsFit (root : Node) : Prop :=
  ∀ node ∈ root.subtree, ∀ number, node.kind = .group (some number) → number < 16

namespace Path

variable {root : Node} {relevant : Node → Bool} {path next : Path} {forks : List Path}

/-- Visiting the children of a node stays in the tree. -/
theorem within_children {node : Node} (hnode : node ∈ root.subtree) {rest : List Task}
    (hrest : ∀ task ∈ rest, task.Within root) :
    ∀ task ∈ node.children.map Task.visit ++ rest, task.Within root := by
  intro task htask
  rcases List.mem_append.1 htask with htask | htask
  · obtain ⟨child, hchild, rfl⟩ := List.mem_map.1 htask
    exact Node.children_subset hnode child hchild
  · exact hrest task htask

/-- Visiting a child of a node stays in the tree. -/
theorem within_child {node child : Node} (hnode : node ∈ root.subtree)
    (hchild : child ∈ node.children) {rest : List Task}
    (hrest : ∀ task ∈ rest, task.Within root) :
    ∀ task ∈ Task.visit child :: rest, task.Within root :=
  List.forall_mem_cons.2 ⟨Node.children_subset hnode child hchild, hrest⟩

/-- A move stays in the tree, and so do the forks. -/
theorem Moves.within (h : Moves relevant path next forks) (hgroups : root.GroupsFit)
    (hpath : path.Within root) : ∀ other ∈ next :: forks, other.Within root := by
  cases h with
  | skip _ | literal | expressionRef | read _ | noBranch | leave | capture =>
      exact List.forall_mem_singleton.2 (List.forall_mem_cons.1 hpath).2
  | sequence | branch | nonCapturing =>
      obtain ⟨hnode, hrest⟩ := List.forall_mem_cons.1 hpath
      exact List.forall_mem_singleton.2 (within_children hnode hrest)
  | capturing =>
      obtain ⟨hnode, hrest⟩ := List.forall_mem_cons.1 hpath
      have hcapture := hgroups _ hnode _ rfl
      exact List.forall_mem_singleton.2
        (within_children hnode (List.forall_mem_cons.2 ⟨hcapture, hrest⟩))
  | alternation =>
      obtain ⟨hnode, hrest⟩ := List.forall_mem_cons.1 hpath
      refine List.forall_mem_cons.2 ⟨within_child hnode List.mem_cons_self hrest, ?_⟩
      intro other hother
      obtain ⟨branch, hbranch, rfl⟩ := List.mem_map.1 hother
      exact within_child hnode (List.mem_cons_of_mem _ hbranch) hrest
  | repetition =>
      obtain ⟨hnode, hrest⟩ := List.forall_mem_cons.1 hpath
      refine List.forall_mem_cons.2 ⟨?_, List.forall_mem_singleton.2 hrest⟩
      exact within_children hnode (List.forall_mem_cons.2 ⟨hnode, hrest⟩)
  | reenter _ =>
      obtain ⟨hloop, hrest⟩ := List.forall_mem_cons.1 hpath
      refine List.forall_mem_cons.2 ⟨?_, List.forall_mem_singleton.2 hrest⟩
      exact within_children hloop (List.forall_mem_cons.2 ⟨hloop, hrest⟩)

end Path

end Backref
