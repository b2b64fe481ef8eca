import Backref.Reference.Path

/-!
# The work before a path

`Path.work` measures what a path and all its forks still have to do. Every task counts `tick`
and every way to the end counts one: with one for `tick` the work bounds the number of steps of
an exploration, and with zero it is the number of complete paths. `Path.work_move` says that a
move spends one tick and hands the rest of the work to the path and its forks.

The work of a task depends on the set of matched groups and on the work after it, which is a
function of the set as it will be then. A loop is offered again only with less room in that
set, so the recursion over its iterations ends.
-/

namespace Backref

/-- The work of a loop that stands before a path: leave it, or run its body and return. -/
def loopWork (tick : Nat) (body : (GroupSet → Nat) → GroupSet → Nat) (after : GroupSet → Nat)
    (matched : GroupSet) : Nat :=
  after matched + body (fun later =>
    tick + if later = matched then after later
      else if later.room < matched.room then loopWork tick body after later
      else 0) matched
termination_by matched.room

mutual

/-- The work of a node and of what comes after it. -/
def Node.work (tick : Nat) (relevant : Node → Bool) :
    Node → (GroupSet → Nat) → GroupSet → Nat
  | ⟨label, kind, children⟩, after, matched =>
    tick + if relevant ⟨label, kind, children⟩ then
      match kind with
      | .literal _ | .expressionRef _ | .stringRef _ => after matched
      | .sequence | .branch | .group none =>
        Node.workThrough tick relevant children after matched
      | .group (some group) =>
        Node.workThrough tick relevant children
          (fun later => tick + after (later.insert group)) matched
      | .alternation =>
        if children.isEmpty then after matched
        else Node.workOver tick relevant children after matched
      | .repetition => loopWork tick (Node.workThrough tick relevant children) after matched
    else after matched

/-- The work of the nodes one after the other and of what comes after them. -/
def Node.workThrough (tick : Nat) (relevant : Node → Bool) :
    List Node → (GroupSet → Nat) → GroupSet → Nat
  | [], after, matched => after matched
  | node :: nodes, after, matched =>
    node.work tick relevant (Node.workThrough tick relevant nodes after) matched

/-- The work of choosing each of the nodes in turn. -/
def Node.workOver (tick : Nat) (relevant : Node → Bool) :
    List Node → (GroupSet → Nat) → GroupSet → Nat
  | [], _, _ => 0
  | node :: nodes, after, matched =>
    node.work tick relevant after matched + Node.workOver tick relevant nodes after matched

end

/-- The work of a task and of what comes after it. -/
def Task.work (tick : Nat) (relevant : Node → Bool) :
    Task → (GroupSet → Nat) → GroupSet → Nat
  | .visit node, after, matched => node.work tick relevant after matched
  | .capture group, after, matched => tick + after (matched.insert group)
  | .reenter loop entry, after, matched =>
    tick + if matched = entry then after matched
      else loopWork tick (Node.workThrough tick relevant loop.children) after matched

/-- The work of the tasks one after the other; reaching the end counts one. -/
def Task.workThrough (tick : Nat) (relevant : Node → Bool) (tasks : List Task) :
    GroupSet → Nat :=
  tasks.foldr (Task.work tick relevant) fun _ => 1

/-- The work of a path and of all its forks. -/
def Path.work (tick : Nat) (relevant : Node → Bool) (path : Path) : Nat :=
  Task.workThrough tick relevant path.pending path.matched

/-- The work of some paths together. -/
def Path.totalWork (tick : Nat) (relevant : Node → Bool) : List Path → Nat
  | [] => 0
  | path :: paths => path.work tick relevant + Path.totalWork tick relevant paths

/-- Paths can be counted in two parts. -/
theorem Path.totalWork_append (tick : Nat) (relevant : Node → Bool) (paths paths' : List Path) :
    Path.totalWork tick relevant (paths ++ paths') =
      Path.totalWork tick relevant paths + Path.totalWork tick relevant paths' := by
  induction paths with
  | nil => exact (Nat.zero_add _).symm
  | cons path paths ih => simp only [List.cons_append, Path.totalWork, ih, Nat.add_assoc]

/-- The order of paths does not matter for their work. -/
theorem Path.totalWork_reverse (tick : Nat) (relevant : Node → Bool) (paths : List Path) :
    Path.totalWork tick relevant paths.reverse = Path.totalWork tick relevant paths := by
  induction paths with
  | nil => rfl
  | cons path paths ih =>
    rw [List.reverse_cons, Path.totalWork_append, ih, Nat.add_comm]
    rfl

/-! ## Only larger sets matter -/

/-- Whether a work depends on the work after it only at sets that contain the present one. -/
def LooksForward (body : (GroupSet → Nat) → GroupSet → Nat) : Prop :=
  ∀ (after after' : GroupSet → Nat) (matched : GroupSet),
    (∀ later, matched ⊆ later → after later = after' later) →
      body after matched = body after' matched

/-- A loop looks forward when its body does. -/
theorem LooksForward.loopWork {tick : Nat} {body : (GroupSet → Nat) → GroupSet → Nat}
    (hbody : LooksForward body) : LooksForward (loopWork tick body) := by
  intro after after' matched h
  induction hroom : matched.room using Nat.strongRecOn generalizing matched with
  | ind room ih =>
    subst hroom
    rw [Backref.loopWork, Backref.loopWork, h matched (GroupSet.subset_refl matched)]
    congr 1
    refine hbody _ _ _ fun later hlater => ?_
    congr 1
    split
    · exact h later hlater
    · split
      · next hlt =>
        exact ih later.room hlt later (fun set hset => h set (GroupSet.subset_trans hlater hset))
          rfl
      · rfl

/-- When the body looks forward, an iteration that has matched a new group offers the loop
again, whatever room is left. -/
theorem loopWork_eq {tick : Nat} {body : (GroupSet → Nat) → GroupSet → Nat}
    (hbody : LooksForward body) (after : GroupSet → Nat) (matched : GroupSet) :
    loopWork tick body after matched =
      after matched + body (fun later =>
        tick + if later = matched then after later else loopWork tick body after later)
        matched := by
  rw [loopWork]
  congr 1
  refine hbody _ _ _ fun later hlater => ?_
  congr 1
  split
  · rfl
  · next hne => rw [if_pos (GroupSet.room_lt_room hlater hne)]

mutual

/-- The work of a node looks forward. -/
theorem Node.work_looksForward (tick : Nat) (relevant : Node → Bool) :
    ∀ node : Node, LooksForward (node.work tick relevant)
  | ⟨label, kind, children⟩ => by
    intro after after' matched h
    have hthrough := Node.workThrough_looksForward tick relevant children
    have hhere := h matched (GroupSet.subset_refl matched)
    unfold Node.work
    congr 1
    split
    · cases kind with
      | literal letter => exact hhere
      | expressionRef group => exact hhere
      | stringRef group => exact hhere
      | sequence => exact hthrough _ _ _ h
      | branch => exact hthrough _ _ _ h
      | group number =>
        cases number with
        | none => exact hthrough _ _ _ h
        | some group =>
          refine hthrough _ _ _ fun later hlater => ?_
          exact congrArg (tick + ·)
            (h _ (GroupSet.subset_trans hlater (GroupSet.subset_insert later group)))
      | alternation =>
        dsimp only
        split
        · exact hhere
        · exact Node.workOver_looksForward tick relevant children _ _ _ h
      | repetition => exact hthrough.loopWork _ _ _ h
    · exact hhere

/-- The work of a list of nodes looks forward. -/
theorem Node.workThrough_looksForward (tick : Nat) (relevant : Node → Bool) :
    ∀ nodes : List Node, LooksForward (Node.workThrough tick relevant nodes)
  | [] => fun _ _ matched h => h matched (GroupSet.subset_refl matched)
  | node :: nodes => fun _ _ matched h =>
    Node.work_looksForward tick relevant node _ _ matched fun later hlater =>
      Node.workThrough_looksForward tick relevant nodes _ _ later fun set hset =>
        h set (GroupSet.subset_trans hlater hset)

/-- The work of a choice looks forward. -/
theorem Node.workOver_looksForward (tick : Nat) (relevant : Node → Bool) :
    ∀ nodes : List Node, LooksForward (Node.workOver tick relevant nodes)
  | [] => fun _ _ _ _ => rfl
  | node :: nodes => fun after after' matched h => by
    simp only [Node.workOver]
    rw [Node.work_looksForward tick relevant node after after' matched h,
      Node.workOver_looksForward tick relevant nodes after after' matched h]

end

/-! ## Moves spend the work -/

/-- Visiting nodes one after the other is the work of the nodes through which it goes. -/
theorem Task.workThrough_visit (tick : Nat) (relevant : Node → Bool) (nodes : List Node)
    (rest : List Task) :
    Task.workThrough tick relevant (nodes.map .visit ++ rest) =
      Node.workThrough tick relevant nodes (Task.workThrough tick relevant rest) := by
  induction nodes with
  | nil => rfl
  | cons node nodes ih =>
    funext matched
    show node.work tick relevant
      (Task.workThrough tick relevant (nodes.map .visit ++ rest)) matched = _
    rw [ih]
    rfl

/-- Forking to each of some branches is the work over these branches. -/
theorem Path.totalWork_branches (tick : Nat) (relevant : Node → Bool) (branches : List Node)
    (matched : GroupSet) (rest : List Task) :
    Path.totalWork tick relevant (branches.map fun branch => ⟨matched, .visit branch :: rest⟩) =
      Node.workOver tick relevant branches (Task.workThrough tick relevant rest) matched := by
  induction branches with
  | nil => rfl
  | cons branch branches ih =>
    rw [List.map_cons, Path.totalWork, ih]
    rfl

/-- Running a loop once and leaving it shares out the work of the loop. -/
theorem Path.work_iterate {tick : Nat} {relevant : Node → Bool} {loop : Node}
    {matched : GroupSet} {rest : List Task} {path : Path} {forks : List Path}
    (h : Path.iterate loop matched rest = .advances path forks) :
    loopWork tick (Node.workThrough tick relevant loop.children)
        (Task.workThrough tick relevant rest) matched =
      path.work tick relevant + Path.totalWork tick relevant forks := by
  obtain ⟨rfl, rfl⟩ := Move.advances.inj h
  rw [loopWork_eq (Node.workThrough_looksForward tick relevant loop.children), Nat.add_comm]
  simp only [Path.totalWork, Path.work, Task.workThrough_visit, Nat.add_zero]
  rfl

/-- Matching a node spends one tick. -/
theorem Path.work_enter {tick : Nat} {relevant : Node → Bool} {node : Node}
    (hrelevant : relevant node) {matched : GroupSet} {rest : List Task} {path : Path}
    {forks : List Path} (h : Path.enter node matched rest = .advances path forks) :
    node.work tick relevant (Task.workThrough tick relevant rest) matched =
      tick + path.work tick relevant + Path.totalWork tick relevant forks := by
  obtain ⟨label, kind, children⟩ := node
  unfold Node.work
  rw [if_pos hrelevant, Nat.add_assoc]
  congr 1
  cases kind with
  | literal letter => obtain ⟨rfl, rfl⟩ := Move.advances.inj h; rfl
  | expressionRef group => obtain ⟨rfl, rfl⟩ := Move.advances.inj h; rfl
  | stringRef group =>
    simp only [Path.enter] at h
    split at h
    · obtain ⟨rfl, rfl⟩ := Move.advances.inj h; rfl
    · cases h
  | sequence =>
    obtain ⟨rfl, rfl⟩ := Move.advances.inj h
    simp only [Path.totalWork, Path.work, Task.workThrough_visit, Nat.add_zero]
  | branch =>
    obtain ⟨rfl, rfl⟩ := Move.advances.inj h
    simp only [Path.totalWork, Path.work, Task.workThrough_visit, Nat.add_zero]
  | group number =>
    cases number with
    | none =>
      obtain ⟨rfl, rfl⟩ := Move.advances.inj h
      simp only [Path.totalWork, Path.work, Task.workThrough_visit, Nat.add_zero]
    | some group =>
      obtain ⟨rfl, rfl⟩ := Move.advances.inj h
      simp only [Path.totalWork, Path.work, Task.workThrough_visit, Nat.add_zero]
      rfl
  | alternation =>
    cases children with
    | nil => obtain ⟨rfl, rfl⟩ := Move.advances.inj h; rfl
    | cons first others =>
      obtain ⟨rfl, rfl⟩ := Move.advances.inj h
      rw [Path.totalWork_branches]
      rfl
  | repetition => exact Path.work_iterate h

/-- A move spends one tick and shares out the rest of the work. -/
theorem Path.work_move {tick : Nat} {relevant : Node → Bool} {path path' : Path}
    {forks : List Path} (h : path.move relevant = .advances path' forks) :
    path.work tick relevant =
      tick + path'.work tick relevant + Path.totalWork tick relevant forks := by
  obtain ⟨matched, pending⟩ := path
  cases pending with
  | nil => cases h
  | cons task rest =>
    show Task.work tick relevant task (Task.workThrough tick relevant rest) matched = _
    simp only [Path.move] at h
    cases task with
    | visit node =>
      simp only [Path.perform] at h
      split at h
      · next hrelevant => exact Path.work_enter hrelevant h
      · next hrelevant =>
        obtain ⟨rfl, rfl⟩ := Move.advances.inj h
        obtain ⟨label, kind, children⟩ := node
        simp only [Task.work, Node.work, if_neg hrelevant]
        rfl
    | capture group => obtain ⟨rfl, rfl⟩ := Move.advances.inj h; rfl
    | reenter loop entry =>
      simp only [Path.perform] at h
      simp only [Task.work, Nat.add_assoc]
      congr 1
      split at h
      · next hsame =>
        obtain ⟨rfl, rfl⟩ := Move.advances.inj h
        rw [if_pos hsame]
        rfl
      · next hsame =>
        rw [if_neg hsame]
        exact Path.work_iterate h

/-- A path that has come to its end counts one. -/
theorem Path.work_finished {tick : Nat} {relevant : Node → Bool} {path : Path}
    (h : path.move relevant = .finished) : path.work tick relevant = 1 := by
  obtain ⟨matched, pending⟩ := path
  cases pending with
  | nil => rfl
  | cons task rest =>
    simp only [Path.move] at h
    cases task with
    | visit node =>
      simp only [Path.perform, Path.enter, Path.follow, Path.iterate] at h
      repeat' split at h
      all_goals cases h
    | capture group => cases h
    | reenter loop entry =>
      simp only [Path.perform, Path.follow, Path.iterate] at h
      split at h <;> cases h

end Backref
