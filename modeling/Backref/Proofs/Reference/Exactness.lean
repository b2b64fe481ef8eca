import Backref.Checker
import Backref.Proofs.Reference.Assignment
import Backref.Proofs.Reference.Exploration
import Backref.Proofs.Reference.Move
import Mathlib.Data.Finset.Filter
import Mathlib.Data.Finset.Range

/-!
# The path-sensitive rule is exact

The search follows only some of the walks: it passes over nodes that are not relevant, and it runs
a loop again only after the set has grown. Read `validate_pathSensitive_exact` first: nothing is
lost by this. A path that violates extends to a walk that does, and if no path violates, each
loop body needs no more than what has matched before the loop (`Path.Safe.needs_subset`), so that
no walk violates however often it runs the loops.
-/

namespace Backref

/-! ## Sets of groups -/

/-- The members of a set of groups. -/
def GroupSet.toFinset (set : GroupSet) : Finset Nat :=
  (Finset.range 16).filter fun group => set.contains group

namespace GroupSet

/-- Membership is the same in both. -/
theorem mem_toFinset {set : GroupSet} {group : Nat} :
    group ∈ set.toFinset ↔ set.contains group := by
  rw [toFinset, Finset.mem_filter, Finset.mem_range, and_iff_right_iff_imp]
  exact lt_of_contains

/-- The empty set has no members. -/
theorem toFinset_empty : empty.toFinset = ∅ := by
  ext group
  simp [mem_toFinset, empty, contains]

/-- Insertion adds a member. -/
theorem toFinset_insert (set : GroupSet) {group : Nat} (h : group < 16) :
    (set.insert group).toFinset = Insert.insert group set.toFinset := by
  ext member
  rw [mem_toFinset, contains_insert, Finset.mem_insert, mem_toFinset]
  simp only [Bool.or_eq_true, Bool.and_eq_true, decide_eq_true_eq]
  constructor
  · rintro (hold | ⟨_, rfl⟩)
    · exact .inr hold
    · exact .inl rfl
  · rintro (rfl | hold)
    · exact .inr ⟨h, rfl⟩
    · exact .inl hold

end GroupSet

/-- What the search relies on: the nodes of the tree are formed, its groups fit into a set, and
the relevant nodes are those that use a group. -/
structure Node.Explorable (root : Node) (relevant : Node → Bool) : Prop where
  isFormed : ∀ node ∈ root.subtree, node.IsFormed
  groupsFit : root.GroupsFit
  relevant_iff : ∀ node ∈ root.subtree, relevant node ↔ node.UsesGroups

/-! ## What the tasks of a path need -/

/-- The groups that must have matched before some tasks. -/
def Task.needsThrough : List Task → Finset Nat
  | [] => ∅
  | .visit node :: rest => node.needs ∪ (Task.needsThrough rest \ node.gains)
  | .capture group :: rest => (Task.needsThrough rest).erase group
  | .reenter _ _ :: rest => Task.needsThrough rest

/-- Visiting nodes one after the other needs what the nodes need, and of what the rest needs what
they do not gain. -/
theorem Task.needsThrough_visit (nodes : List Node) (rest : List Task) :
    Task.needsThrough (nodes.map .visit ++ rest) =
      Node.needsThrough nodes ∪ (Task.needsThrough rest \ Node.gainsThrough nodes) := by
  induction nodes with
  | nil => simp [Node.needsThrough, Node.gainsThrough]
  | cons node nodes ih =>
      rw [List.map_cons, List.cons_append, needsThrough, ih, Node.needsThrough, Node.gainsThrough]
      ext group
      simp only [Finset.mem_union, Finset.mem_sdiff]
      grind

namespace Path

variable {root : Node} {relevant : Node → Bool} {path next : Path} {forks : List Path}

/-- A move does not need more than the paths that come out of it. -/
theorem Moves.needs_subset (h : Moves relevant path next forks)
    (hroot : root.Explorable relevant) (hwithin : path.Within root)
    (hnext : Task.needsThrough next.pending ⊆ next.matched.toFinset)
    (hforks : ∀ fork ∈ forks, Task.needsThrough fork.pending ⊆ fork.matched.toFinset) :
    Task.needsThrough path.pending ⊆ path.matched.toFinset := by
  cases h with
  | skip hskip =>
      have hnode := (List.forall_mem_cons.1 hwithin).1
      have hneeds := Node.needs_eq_empty fun huses => hskip ((hroot.relevant_iff _ hnode).2 huses)
      refine Finset.union_subset ?_ (Finset.sdiff_subset.trans hnext)
      rw [hneeds]
      exact Finset.empty_subset _
  | literal | expressionRef | noBranch =>
      exact Finset.union_subset (Finset.empty_subset _) (Finset.sdiff_subset.trans hnext)
  | read hmatched =>
      refine Finset.union_subset ?_ (Finset.sdiff_subset.trans hnext)
      exact Finset.singleton_subset_iff.2 (GroupSet.mem_toFinset.2 hmatched)
  | sequence | branch | nonCapturing =>
      rw [Task.needsThrough_visit] at hnext
      exact hnext
  | capturing =>
      rw [Task.needsThrough_visit, Task.needsThrough] at hnext
      refine Finset.union_subset (Finset.union_subset_left hnext) fun group hgroup => ?_
      rw [Node.gains, Finset.mem_sdiff, Finset.mem_insert, not_or] at hgroup
      obtain ⟨hrest, hother, hgains⟩ := hgroup
      refine Finset.union_subset_right hnext ?_
      exact Finset.mem_sdiff.2 ⟨Finset.mem_erase.2 ⟨hother, hrest⟩, hgains⟩
  | @alternation label first others matched rest =>
      have hbranches : ∀ branch ∈ first :: others,
          Task.needsThrough (.visit branch :: rest) ⊆ matched.toFinset :=
        List.forall_mem_cons.2 ⟨hnext, fun branch hbranch => hforks _ (List.mem_map_of_mem hbranch)⟩
      refine Finset.union_subset (fun group hgroup => ?_) fun group hgroup => ?_
      · obtain ⟨branch, hbranch, hneeds⟩ := Node.mem_needsOver.1 hgroup
        exact hbranches branch hbranch (Finset.mem_union_left _ hneeds)
      · -- A group that the rest needs is not gained on some branch, whose path needs it then.
        obtain ⟨hrest, hgains⟩ := Finset.mem_sdiff.1 hgroup
        rw [Node.mem_gains_alternation] at hgains
        obtain ⟨branch, hbranch⟩ := not_forall.1 hgains
        obtain ⟨hbranch, hgain⟩ := Classical.not_imp.1 hbranch
        exact hbranches branch hbranch
          (Finset.mem_union_right _ (Finset.mem_sdiff.2 ⟨hrest, hgain⟩))
  | repetition =>
      rw [Task.needsThrough_visit] at hnext
      have hrest := hforks _ (List.mem_singleton.2 rfl)
      exact Finset.union_subset (Finset.union_subset_left hnext)
        (Finset.sdiff_subset.trans hrest)
  | capture =>
      have hgroup := (List.forall_mem_cons.1 hwithin).1
      rw [GroupSet.toFinset_insert _ hgroup] at hnext
      exact Finset.subset_insert_iff.1 hnext
  | leave =>
      -- A further run of the body would start from the same set as the last one.
      exact hnext
  | reenter _ =>
      have hrest := hforks _ (List.mem_singleton.2 rfl)
      exact hrest

/-- When every way of a path comes to its end, what its tasks need has matched. -/
theorem Safe.needs_subset (h : path.Safe relevant) (hroot : root.Explorable relevant)
    (hwithin : path.Within root) :
    Task.needsThrough path.pending ⊆ path.matched.toFinset := by
  induction h with
  | finished hmove =>
      rw [pending_eq_nil_of_move_eq hmove]
      exact Finset.empty_subset _
  | advances hmove _ _ ihnext ihforks =>
      have hmoves := moves_of_move_eq hmove
      have hothers := hmoves.within hroot.groupsFit hwithin
      refine hmoves.needs_subset hroot hwithin (ihnext (hothers _ List.mem_cons_self)) ?_
      intro fork hfork
      exact ihforks fork hfork (hothers fork (List.mem_cons_of_mem _ hfork))

end Path

/-! ## Walks through the tasks of a path -/

/-- A walk through some tasks one after the other. A loop that waits for the end of its body may
run any number of times again. -/
inductive Task.WalkThrough : List Task → Finset Nat → List Violation → Finset Nat → Prop where
  | nil {matched : Finset Nat} : WalkThrough [] matched [] matched
  | visit {node : Node} {rest : List Task} {matched middle matched' : Finset Nat}
      {violations violations' : List Violation} : node.Walk matched violations middle →
        WalkThrough rest middle violations' matched' →
        WalkThrough (.visit node :: rest) matched (violations ++ violations') matched'
  | capture {group : Nat} {rest : List Task} {matched matched' : Finset Nat}
      {violations : List Violation} : WalkThrough rest (insert group matched) violations matched' →
        WalkThrough (.capture group :: rest) matched violations matched'
  | reenter {loop : Node} {entry : GroupSet} {rest : List Task}
      {matched middle matched' : Finset Nat} {violations violations' : List Violation} :
        Node.Iterations loop.children matched violations middle →
        WalkThrough rest middle violations' matched' →
        WalkThrough (.reenter loop entry :: rest) matched (violations ++ violations') matched'

namespace Task

variable {rest : List Task} {matched matched' : Finset Nat} {violations : List Violation}

/-- A walk that visits nodes goes through the nodes and then through the rest. -/
theorem WalkThrough.visit_cases {nodes : List Node}
    (h : WalkThrough (nodes.map .visit ++ rest) matched violations matched') :
    ∃ first last middle, violations = first ++ last ∧
      Node.WalkThrough nodes matched first middle ∧ WalkThrough rest middle last matched' := by
  induction nodes generalizing matched violations with
  | nil => exact ⟨[], violations, matched, rfl, .nil, h⟩
  | cons node nodes ih =>
      cases h with
      | visit hnode hrest =>
          obtain ⟨first, last, middle, rfl, hnodes, hrest⟩ := ih hrest
          exact ⟨_, last, middle, (List.append_assoc _ _ _).symm, .cons hnode hnodes, hrest⟩

/-- A node that can be passed over without a change may come before a walk. -/
theorem WalkThrough.pass {node : Node} (hnode : node.Walk matched [] matched)
    (h : WalkThrough rest matched violations matched') :
    WalkThrough (.visit node :: rest) matched violations matched' := by
  have hpass := WalkThrough.visit hnode h
  exact hpass

/-- A loop need not be run again. -/
theorem WalkThrough.leave (loop : Node) (entry : GroupSet)
    (h : WalkThrough rest matched violations matched') :
    WalkThrough (.reenter loop entry :: rest) matched violations matched' := by
  have hstop : Node.Iterations loop.children matched [] matched := .stop
  have hleave := @WalkThrough.reenter loop entry _ _ _ _ _ _ hstop h
  exact hleave

/-- A walk through the body of a loop, its further runs and the rest is a walk through the runs
of the loop and the rest. -/
theorem WalkThrough.iterate_cases (loop : Node) {entry : GroupSet}
    (h : WalkThrough (loop.children.map .visit ++ .reenter loop entry :: rest) matched violations
      matched') :
    ∃ first last middle, violations = first ++ last ∧
      Node.Iterations loop.children matched first middle ∧
      WalkThrough rest middle last matched' := by
  obtain ⟨first, last, middle, rfl, hbody, hlater⟩ := h.visit_cases
  cases hlater with
  | reenter hiterations hrest =>
      exact ⟨_, _, _, (List.append_assoc _ _ _).symm, .again hbody hiterations, hrest⟩

/-- There is a walk through the tasks of a formed tree, whatever has matched before. -/
theorem exists_walkThrough {root : Node} (hroot : ∀ node ∈ root.subtree, node.IsFormed)
    {tasks : List Task} (htasks : ∀ task ∈ tasks, task.Within root) (matched : Finset Nat) :
    ∃ violations matched', WalkThrough tasks matched violations matched' := by
  induction tasks generalizing matched with
  | nil => exact ⟨_, _, .nil⟩
  | cons task tasks ih =>
      obtain ⟨htask, hrest⟩ := List.forall_mem_cons.1 htasks
      cases task with
      | visit node =>
          obtain ⟨_, middle, hnode⟩ := Node.exists_walk
            (fun inner hinner => hroot inner (Node.subtree_subset htask hinner)) matched
          obtain ⟨_, _, hlater⟩ := ih hrest middle
          exact ⟨_, _, .visit hnode hlater⟩
      | capture group =>
          obtain ⟨_, _, hlater⟩ := ih hrest (insert group matched)
          exact ⟨_, _, .capture hlater⟩
      | reenter loop entry =>
          obtain ⟨_, _, hlater⟩ := ih hrest matched
          exact ⟨_, _, .reenter .stop hlater⟩

end Task

namespace Path

variable {root : Node} {relevant : Node → Bool} {path next : Path} {forks : List Path}

/-- A walk that goes on from a path that comes out of a move is a walk from before the move. -/
theorem Moves.walkThrough (h : Moves relevant path next forks) (hroot : root.Explorable relevant)
    (hwithin : path.Within root) {other : Path} (hother : other ∈ next :: forks)
    {violations : List Violation} {matched' : Finset Nat}
    (hwalk : Task.WalkThrough other.pending other.matched.toFinset violations matched') :
    Task.WalkThrough path.pending path.matched.toFinset violations matched' := by
  cases h with
  | skip hskip =>
      obtain rfl := List.mem_singleton.1 hother
      have hnode := (List.forall_mem_cons.1 hwithin).1
      refine .pass (Node.walk_idle ?_ ?_ _) hwalk
      · exact fun inner hinner => hroot.isFormed inner (Node.subtree_subset hnode hinner)
      · exact fun huses => hskip ((hroot.relevant_iff _ hnode).2 huses)
  | literal =>
      obtain rfl := List.mem_singleton.1 hother
      exact .pass .literal hwalk
  | expressionRef =>
      obtain rfl := List.mem_singleton.1 hother
      exact .pass .expressionRef hwalk
  | read hmatched =>
      obtain rfl := List.mem_singleton.1 hother
      exact .pass (.read (GroupSet.mem_toFinset.2 hmatched)) hwalk
  | sequence =>
      obtain rfl := List.mem_singleton.1 hother
      obtain ⟨_, _, _, rfl, hnodes, hrest⟩ := hwalk.visit_cases
      exact .visit (.sequence hnodes) hrest
  | branch =>
      obtain rfl := List.mem_singleton.1 hother
      obtain ⟨_, _, _, rfl, hnodes, hrest⟩ := hwalk.visit_cases
      exact .visit (.branch hnodes) hrest
  | nonCapturing =>
      obtain rfl := List.mem_singleton.1 hother
      obtain ⟨_, _, _, rfl, hnodes, hrest⟩ := hwalk.visit_cases
      exact .visit (.nonCapturing hnodes) hrest
  | capturing =>
      obtain rfl := List.mem_singleton.1 hother
      obtain ⟨_, _, _, rfl, hnodes, hcapture⟩ := hwalk.visit_cases
      cases hcapture with
      | capture hrest => exact .visit (.capturing hnodes) hrest
  | noBranch =>
      have hnode := (List.forall_mem_cons.1 hwithin).1
      exact absurd (hroot.isFormed _ hnode).1 (Nat.not_succ_le_zero 1)
  | @alternation label first others matched rest =>
      obtain ⟨branch, hbranch, rfl⟩ : ∃ branch ∈ first :: others,
          ⟨matched, .visit branch :: rest⟩ = other := List.mem_map.1 hother
      cases hwalk with
      | visit hnode hrest => exact .visit (.alternation hbranch hnode) hrest
  | @repetition label children =>
      -- Either the first run of the body lies ahead, or the loop is passed over.
      rcases List.mem_cons.1 hother with rfl | hother
      · obtain ⟨_, _, _, rfl, hiterations, hrest⟩ :=
          Task.WalkThrough.iterate_cases ⟨label, .repetition, children⟩ hwalk
        exact .visit (.repetition hiterations) hrest
      · obtain rfl := List.mem_singleton.1 hother
        exact .pass (.repetition .stop) hwalk
  | capture =>
      obtain rfl := List.mem_singleton.1 hother
      have hgroup := (List.forall_mem_cons.1 hwithin).1
      rw [GroupSet.toFinset_insert _ hgroup] at hwalk
      exact .capture hwalk
  | leave =>
      obtain rfl := List.mem_singleton.1 hother
      exact .leave _ _ hwalk
  | reenter _ =>
      rcases List.mem_cons.1 hother with rfl | hother
      · obtain ⟨_, _, _, rfl, hiterations, hrest⟩ := hwalk.iterate_cases
        exact .reenter hiterations hrest
      · obtain rfl := List.mem_singleton.1 hother
        exact .leave _ _ hwalk

/-- When some way of a path violates, so does a walk through its tasks. -/
theorem Violates.exists_walkThrough {group position : Nat}
    (h : path.Violates relevant group position) (hroot : root.Explorable relevant)
    (hwithin : path.Within root) : ∃ violations matched',
      Task.WalkThrough path.pending path.matched.toFinset violations matched' ∧
        ⟨group, position⟩ ∈ violations := by
  induction h with
  | @here path hmove =>
      obtain ⟨id, children, rest, hpending, hmatched⟩ := exists_of_move_eq_violates hmove
      rw [Path.Within, hpending] at hwithin
      have hrest := (List.forall_mem_cons.1 hwithin).2
      obtain ⟨violations, matched', hwalk⟩ := Task.exists_walkThrough hroot.isFormed hrest
        path.matched.toFinset
      have hread : group ∉ path.matched.toFinset := fun h => hmatched (GroupSet.mem_toFinset.1 h)
      rw [hpending]
      exact ⟨_, matched', .visit (.violate hread) hwalk, List.mem_cons_self⟩
  | advances hmove _ ih =>
      have hmoves := moves_of_move_eq hmove
      obtain ⟨violations, matched', hwalk, hmem⟩ :=
        ih (hmoves.within hroot.groupsFit hwithin _ List.mem_cons_self)
      exact ⟨violations, matched', hmoves.walkThrough hroot hwithin List.mem_cons_self hwalk, hmem⟩
  | @fork path next fork forks hmove hfork _ ih =>
      have hmoves := moves_of_move_eq hmove
      have hother := List.mem_cons_of_mem next hfork
      obtain ⟨violations, matched', hwalk, hmem⟩ :=
        ih (hmoves.within hroot.groupsFit hwithin _ hother)
      exact ⟨violations, matched', hmoves.walkThrough hroot hwithin hother hwalk, hmem⟩

end Path

/-! ## The search as a whole -/

/-- A limit with which the search drops no fork: the number of complete ways through the
pattern. -/
def Pattern.forkBound (pattern : Pattern) : Nat :=
  (Path.start pattern).work 0 (Relevance.isMarked pattern.relevance)

namespace Pattern

variable {text : String} {pattern : Pattern} {limit group index : Nat}

/-- A parsed tree can be explored. -/
theorem explorable_of_parse (h : Pattern.parse text = .ok pattern) :
    pattern.root.Explorable (Relevance.isMarked pattern.relevance) := by
  refine ⟨fun node hnode => isFormed_of_parse h hnode, ?_, ?_⟩
  · intro node hnode number hkind
    have hle : number ≤ 9 := group_le_of_parse h hnode hkind
    omega
  · exact fun node hnode => isMarked_relevance_iff (hasDenseIds_of_parse h) hnode

/-- The start of a search lies in the tree. -/
theorem within_start (pattern : Pattern) : (Path.start pattern).Within pattern.root :=
  List.forall_mem_singleton.2 pattern.root.mem_subtree_self

/-- A walk through the tasks at the start is a walk through the root. -/
theorem walk_of_start {matched matched' : Finset Nat} {violations : List Violation}
    (h : Task.WalkThrough (Path.start pattern).pending matched violations matched') :
    pattern.root.Walk matched violations matched' := by
  cases h with
  | visit hnode hrest =>
      cases hrest with
      | nil =>
          rw [List.append_nil]
          exact hnode

/-- A pattern reads a group when one of its sites does. -/
theorem hasStringRef_iff :
    pattern.hasStringRef ↔ ∃ site ∈ pattern.sites, ∃ group, site.kind = .stringRef group := by
  rw [hasStringRef, List.any_eq_true]
  refine exists_congr fun site => and_congr_right fun _ => ?_
  constructor
  · intro hmatches
    cases hkind : site.kind with
    | stringRef group => exact ⟨group, rfl⟩
    | _ =>
        rw [hkind] at hmatches
        cases hmatches
  · rintro ⟨group, hkind⟩
    rw [hkind]

/-- A string reference of the tree is a string reference of the pattern. -/
theorem hasStringRef_of_mem_subtree {node : Node} (hnode : node ∈ pattern.root.subtree)
    (hkind : node.kind = .stringRef group) : pattern.hasStringRef := by
  obtain ⟨site, hsite, rfl⟩ := mem_subtree_root.1 hnode
  exact hasStringRef_iff.2 ⟨site, hsite, group, hkind⟩

/-- A pattern is accepted only if its root needs nothing. -/
theorem needs_eq_empty_of_checkPaths
    (hroot : pattern.root.Explorable (Relevance.isMarked pattern.relevance))
    (h : pattern.checkPaths limit = .ok ()) : pattern.root.needs = ∅ := by
  refine Finset.subset_empty.1 fun group hgroup => ?_
  by_cases href : pattern.hasStringRef
  · rw [checkPaths, if_pos href] at h
    have hsafe := (Search.run_eq_ok h).2 (Path.start pattern) List.mem_cons_self
    rw [← GroupSet.toFinset_empty]
    exact hsafe.needs_subset hroot pattern.within_start (Finset.mem_union_left _ hgroup)
  · -- Without a string reference no group is needed.
    obtain ⟨inner, hinner, hkind⟩ := Node.exists_stringRef_of_mem_needs hgroup
    exact absurd (hasStringRef_of_mem_subtree hinner hkind) href

/-- No walk through a pattern violates when the root needs nothing. -/
theorem neverViolates_of_needs (h : pattern.root.needs = ∅) : pattern.NeverViolates :=
  fun _ _ hwalk => (hwalk.safe (h.le.trans (Finset.empty_subset _))).1

/-- A pattern is rejected only if some walk violates as reported, or if the limit is too small. -/
theorem mayViolate_of_checkPaths
    (hroot : pattern.root.Explorable (Relevance.isMarked pattern.relevance))
    {rejection : Rejection} (h : pattern.checkPaths limit = .error rejection) :
    (∃ group index, rejection = .uninitialized group index ∧ pattern.MayViolate group index) ∨
      rejection = .pathLimit limit := by
  unfold checkPaths at h
  split at h
  · obtain ⟨group, index, rfl, path, hpath, hviolates⟩ | hlimit := Search.run_eq_error h
    · obtain rfl := List.mem_singleton.1 hpath
      obtain ⟨violations, matched, hwalk, hmem⟩ :=
        hviolates.exists_walkThrough hroot pattern.within_start
      have hnode := walk_of_start hwalk
      exact .inl ⟨group, index, rfl, _, _, GroupSet.toFinset_empty ▸ hnode, hmem⟩
    · exact .inr hlimit
  · cases h

/-- With a large limit the search does not give up. -/
theorem checkPaths_ne_pathLimit (h : pattern.forkBound ≤ limit) (given : Nat) :
    pattern.checkPaths limit ≠ .error (.pathLimit given) := by
  unfold checkPaths
  split
  · exact (Search.roomy_start (Nat.le_add_right_of_le h)).run_ne_pathLimit given
  · exact fun h => nomatch h

end Pattern

namespace Config

variable {config : Config} {text : String} {pattern : Pattern}

/-- A text that can be parsed is accepted when its tree passes the check. -/
theorem validate_eq_ok_iff (h : Pattern.parse text = .ok pattern) {accepted : Pattern} :
    config.validate text = .ok accepted ↔ config.check pattern = .ok () ∧ accepted = pattern := by
  rw [validate, h]
  show (config.check pattern >>= fun _ => .ok pattern) = .ok accepted ↔ _
  rw [Except.bind_eq_ok_iff]
  constructor
  · rintro ⟨_, hcheck, haccepted⟩
    exact ⟨hcheck, (Except.ok.inj haccepted).symm⟩
  · rintro ⟨hcheck, rfl⟩
    exact ⟨(), hcheck, rfl⟩

/-- A text that can be parsed is rejected for the reason for which its tree is. -/
theorem validate_eq_error_iff (h : Pattern.parse text = .ok pattern) {rejection : Rejection} :
    config.validate text = .error rejection ↔ config.check pattern = .error rejection := by
  rw [validate, h]
  show (config.check pattern >>= fun _ => .ok pattern) = .error rejection ↔ _
  cases config.check pattern with
  | error other =>
      constructor
      · intro hother
        cases hother
        rfl
      · intro hother
        cases hother
        rfl
  | ok _ => exact iff_of_false (fun h => nomatch h) (fun h => nomatch h)

/-- A text is accepted only if it can be parsed and its tree passes the check. -/
theorem parse_of_validate (h : config.validate text = .ok pattern) :
    Pattern.parse text = .ok pattern ∧ config.check pattern = .ok () := by
  obtain ⟨parsed, hparse, hcheck⟩ := Except.bind_eq_ok_iff.1 h
  obtain ⟨_, hcheck, hsame⟩ := Except.bind_eq_ok_iff.1 hcheck
  cases hsame
  exact ⟨hparse, hcheck⟩

/-- The path-sensitive rule with one worker. -/
def pathSensitive (maxPaths : Nat) : Config := ⟨maxPaths, 1, .pathSensitive⟩

/-- What the search accepts is the pattern, and no walk violates. -/
theorem neverViolates_of_validate (h : Pattern.parse text = .ok pattern) {maxPaths : Nat}
    {accepted : Pattern} (haccepted : (pathSensitive maxPaths).validate text = .ok accepted) :
    accepted = pattern ∧ pattern.NeverViolates := by
  obtain ⟨hcheck, rfl⟩ := (validate_eq_ok_iff h).1 haccepted
  have hneeds := Pattern.needs_eq_empty_of_checkPaths (Pattern.explorable_of_parse h) hcheck
  exact ⟨rfl, Pattern.neverViolates_of_needs hneeds⟩

/-- What the search rejects has a walk that violates as reported, unless the limit is too
small. -/
theorem mayViolate_of_validate (h : Pattern.parse text = .ok pattern) {maxPaths : Nat}
    {rejection : Rejection}
    (hrejected : (pathSensitive maxPaths).validate text = .error rejection) :
    (∃ group index, rejection = .uninitialized group index ∧ pattern.MayViolate group index) ∨
      rejection = .pathLimit maxPaths :=
  Pattern.mayViolate_of_checkPaths (Pattern.explorable_of_parse h)
    ((validate_eq_error_iff h).1 hrejected)

/-- With a large limit the search does not give up. -/
theorem validate_ne_pathLimit (h : Pattern.parse text = .ok pattern) {maxPaths : Nat}
    (hbound : pattern.forkBound ≤ maxPaths) (limit : Nat) :
    (pathSensitive maxPaths).validate text ≠ .error (.pathLimit limit) := fun hrejected =>
  Pattern.checkPaths_ne_pathLimit hbound limit ((validate_eq_error_iff h).1 hrejected)

/-- Unless it gives up, the search accepts a pattern through which no walk violates. -/
theorem validate_eq_ok_of_ne_pathLimit (h : Pattern.parse text = .ok pattern) {maxPaths : Nat}
    (hlimit : (pathSensitive maxPaths).validate text ≠ .error (.pathLimit maxPaths))
    (hnever : pattern.NeverViolates) : (pathSensitive maxPaths).validate text = .ok pattern := by
  cases hresult : (pathSensitive maxPaths).validate text with
  | ok accepted => rw [(neverViolates_of_validate h hresult).1]
  | error rejection =>
      obtain ⟨group, index, _, violations, matched, hwalk, hmem⟩ | rfl :=
        mayViolate_of_validate h hresult
      · rw [hnever violations matched hwalk] at hmem
        cases hmem
      · exact absurd hresult hlimit

/-- With a large limit the search accepts a pattern through which no walk violates. -/
theorem validate_eq_ok_of_neverViolates (h : Pattern.parse text = .ok pattern) {maxPaths : Nat}
    (hbound : pattern.forkBound ≤ maxPaths) (hnever : pattern.NeverViolates) :
    (pathSensitive maxPaths).validate text = .ok pattern :=
  validate_eq_ok_of_ne_pathLimit h (validate_ne_pathLimit h hbound maxPaths) hnever

end Config

/-- The path-sensitive rule is exact for walks. It accepts a pattern only if no walk violates and
names a violation only if some walk makes it. With a limit that depends on the pattern alone, it
never gives up and accepts exactly the patterns through which no walk violates. -/
theorem validate_pathSensitive_exact {text : String} {pattern : Pattern}
    (h : Pattern.parse text = .ok pattern) :
    (∀ maxPaths accepted, (Config.mk maxPaths 1 .pathSensitive).validate text = .ok accepted →
      accepted = pattern ∧ pattern.NeverViolates) ∧
    (∀ maxPaths group index,
      (Config.mk maxPaths 1 .pathSensitive).validate text =
        .error (.uninitialized group index) →
      pattern.MayViolate group index ∧
        ∃ node ∈ pattern.root.subtree, node.kind = .stringRef group ∧ node.position = index) ∧
    ∀ maxPaths, pattern.forkBound ≤ maxPaths →
      (∀ limit, (Config.mk maxPaths 1 .pathSensitive).validate text ≠ .error (.pathLimit limit)) ∧
      ((Config.mk maxPaths 1 .pathSensitive).validate text = .ok pattern ↔
        pattern.NeverViolates) := by
  refine ⟨?_, ?_, fun maxPaths hbound => ⟨?_, ?_, ?_⟩⟩
  · intro maxPaths accepted haccepted
    exact Config.neverViolates_of_validate h haccepted
  · intro maxPaths group index hrejected
    obtain ⟨_, _, hsame, hviolates⟩ | hlimit := Config.mayViolate_of_validate h hrejected
    · cases hsame
      obtain ⟨violations, matched, hwalk, hmem⟩ := hviolates
      exact ⟨⟨violations, matched, hwalk, hmem⟩, hwalk.exists_stringRef hmem⟩
    · cases hlimit
  · intro limit
    exact Config.validate_ne_pathLimit h hbound limit
  · intro haccepted
    exact (Config.neverViolates_of_validate h haccepted).2
  · intro hnever
    exact Config.validate_eq_ok_of_neverViolates h hbound hnever

/-- In `(a|(b)\2)*c` the branch that reads the second group matches it first, so no walk
violates, and the pattern is accepted with every large limit. -/
theorem validate_pathSensitive_exact_loop :
    ∃ pattern, Pattern.parse "(a|(b)\\2)*c" = .ok pattern ∧ pattern.NeverViolates ∧
      ∀ maxPaths, pattern.forkBound ≤ maxPaths →
        (Config.mk maxPaths 1 .pathSensitive).validate "(a|(b)\\2)*c" = .ok pattern := by
  let second : Item := .group true [.letter ⟨'b', by decide⟩ false] [] false
  let reference : Item := .stringRef ⟨2, by decide, by decide⟩
  let loop : Item := .group true [.letter ⟨'a', by decide⟩ false] [[second, reference]] true
  let regex : Regex := ⟨[loop, .letter ⟨'c', by decide⟩ false], []⟩
  have hparse : Pattern.parse "(a|(b)\\2)*c" = .ok regex.build :=
    Pattern.parse_eq_ok_iff.2 ⟨regex, by decide, by decide, rfl⟩
  have hneeds : regex.build.root.needs = ∅ := by decide
  have hnever : regex.build.NeverViolates := fun _ _ hwalk =>
    (hwalk.safe (hneeds ▸ Finset.empty_subset _)).1
  refine ⟨regex.build, hparse, hnever, fun maxPaths hbound => ?_⟩
  exact ((validate_pathSensitive_exact hparse).2.2 maxPaths hbound).2.2 hnever

end Backref
