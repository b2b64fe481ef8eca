import Backref.Proofs.Pattern.Resolution
import Backref.Proofs.Reference.Skeleton

/-!
# Similar patterns are treated alike

Both rules look only at what the skeleton of a pattern keeps. For the path-sensitive rule,
`Path.Pairs` relates two paths that have the same tasks before them once the visits to irrelevant
nodes are left out. Such a visit changes neither the path nor the budget, so one side may pass over
some while the other side waits (`Path.Pairs.cases`); all other moves are made together, with the
same number of forks. For the structural rule, the sites that use a group correspond one to one.
-/

namespace Backref

/-- Two rejections give the same limit or name the same group at references that stand at the same
address. -/
inductive Rejection.Corresponds (root root' : Node) (limit : Nat) : Rejection → Rejection → Prop
  | pathLimit : Corresponds root root' limit (.pathLimit limit) (.pathLimit limit)
  | uninitialized {address : List Nat} {node node' : Node} {group : Nat} :
      root.keptAt? address = some node → root'.keptAt? address = some node' →
      node.kind = .stringRef group → node'.kind = .stringRef group →
      Corresponds root root' limit (.uninitialized group node.position)
        (.uninitialized group node'.position)

/-- Two checks give the same value or corresponding rejections. -/
inductive Node.Agree (root root' : Node) (limit : Nat) {α : Type} :
    Except Rejection α → Except Rejection α → Prop
  | ok (value : α) : Agree root root' limit (.ok value) (.ok value)
  | error {rejection rejection' : Rejection} :
      rejection.Corresponds root root' limit rejection' →
      Agree root root' limit (.error rejection) (.error rejection')

variable {root root' : Node} {limit : Nat}

/-- References at the same address are rejected alike. -/
theorem Node.Pairs.corresponds {node node' : Node} (h : Pairs root root' node node') {group : Nat}
    (hkind : node.kind = .stringRef group) :
    (Rejection.uninitialized group node.position).Corresponds root root' limit
      (.uninitialized group node'.position) := by
  obtain ⟨address, hnode, hnode'⟩ := h.exists_address
  exact .uninitialized hnode hnode' hkind (h.kind_eq ▸ hkind)

/-- Descents that agree come to verdicts that agree. -/
theorem Node.Agree.verdict {result result' : Except Rejection (Budget limit)}
    (h : Agree root root' limit result result') :
    Agree root root' limit (result >>= Budget.verdict) (result' >>= Budget.verdict) := by
  cases h with
  | ok budget =>
      show Agree root root' limit budget.verdict budget.verdict
      unfold Budget.verdict
      split
      · exact .error .pathLimit
      · exact .ok ()
  | error hrejections => exact .error hrejections

/-! ## Tasks -/

/-- Whether a task is more than passing over an irrelevant node. -/
def Task.isEssential : Task → Bool
  | .visit node => node.isRelevant
  | .capture _ | .reenter .. => true

/-- The same task in two trees. -/
inductive Task.Pairs (root root' : Node) : Task → Task → Prop
  | visit {node node' : Node} : Node.Pairs root root' node node' →
      Pairs root root' (.visit node) (.visit node')
  | capture (group : Nat) : Pairs root root' (.capture group) (.capture group)
  | reenter {loop loop' : Node} (entry : GroupSet) : Node.Pairs root root' loop loop' →
      Pairs root root' (.reenter loop entry) (.reenter loop' entry)

/-- The tasks are the same when those that only pass over a node are left out. -/
def Task.AllPair (root root' : Node) (tasks tasks' : List Task) : Prop :=
  List.Forall₂ (Task.Pairs root root') (tasks.filter Task.isEssential)
    (tasks'.filter Task.isEssential)

/-- Of a task in two trees, either both are essential or neither is. -/
theorem Task.Pairs.isEssential_eq {task task' : Task} (h : Task.Pairs root root' task task') :
    task.isEssential = task'.isEssential := by
  cases h with
  | visit hnode => exact hnode.isRelevant_eq
  | capture group => rfl
  | reenter entry hloop => rfl

namespace Task.AllPair

variable {tasks tasks' rest rest' : List Task}

/-- Tasks that are the same one by one. -/
theorem of_forall₂ (h : List.Forall₂ (Task.Pairs root root') tasks tasks') :
    AllPair root root' tasks tasks' :=
  List.rel_filter (fun _ _ htask => Bool.eq_iff_iff.1 htask.isEssential_eq) h

/-- Tasks that are the same, one part after the other. -/
theorem append (h : AllPair root root' tasks tasks') (hrest : AllPair root root' rest rest') :
    AllPair root root' (tasks ++ rest) (tasks' ++ rest') := by
  rw [AllPair, List.filter_append, List.filter_append]
  exact List.rel_append h hrest

/-- One more task before tasks that are the same. -/
theorem cons {task task' : Task} (htask : Task.Pairs root root' task task')
    (hrest : AllPair root root' rest rest') : AllPair root root' (task :: rest) (task' :: rest') :=
  (of_forall₂ (.cons htask .nil)).append hrest

/-- Matching the children of nodes at the same address. -/
theorem children {node node' : Node} (h : Node.Pairs root root' node node')
    (hrest : AllPair root root' rest rest') :
    AllPair root root' (node.children.map .visit ++ rest) (node'.children.map .visit ++ rest') := by
  have hfilter : ∀ nodes : List Node, (nodes.map Task.visit).filter Task.isEssential =
      (nodes.filter Node.isRelevant).map .visit := fun nodes => List.filter_map
  refine append ?_ hrest
  rw [AllPair, hfilter, hfilter, ← node.filter_isRelevant_kept, ← node'.filter_isRelevant_kept,
    List.forall₂_map_left_iff, List.forall₂_map_right_iff]
  exact (List.rel_filter (fun _ _ hchild => Bool.eq_iff_iff.1 hchild.isRelevant_eq) h.kept).imp
    fun _ _ hchild => .visit hchild

/-- Tasks that only pass over a node stand before the others on one side, or both sides have come
to the end, or the first tasks are the same. -/
theorem cases (h : AllPair root root' tasks tasks') :
    (∃ task rest, tasks = task :: rest ∧ ¬ task.isEssential ∧ AllPair root root' rest tasks') ∨
    (∃ task' rest', tasks' = task' :: rest' ∧ ¬ task'.isEssential ∧
      AllPair root root' tasks rest') ∨
    (tasks = [] ∧ tasks' = []) ∨
    ∃ task rest task' rest', tasks = task :: rest ∧ tasks' = task' :: rest' ∧ task.isEssential ∧
      Task.Pairs root root' task task' ∧ AllPair root root' rest rest' := by
  have hpos {task : Task} {rest : List Task} (hessential : task.isEssential) :
      (task :: rest).filter isEssential = task :: rest.filter isEssential :=
    List.filter_cons_of_pos hessential
  have hneg {task : Task} {rest : List Task} (hessential : ¬ task.isEssential) :
      (task :: rest).filter isEssential = rest.filter isEssential :=
    List.filter_cons_of_neg hessential
  rw [AllPair] at h
  rcases tasks with _ | ⟨task, rest⟩
  · rcases tasks' with _ | ⟨task', rest'⟩
    · exact .inr (.inr (.inl ⟨rfl, rfl⟩))
    · by_cases hessential' : task'.isEssential
      · rw [hpos hessential'] at h
        cases h
      · rw [hneg hessential'] at h
        exact .inr (.inl ⟨task', rest', rfl, hessential', h⟩)
  · by_cases hessential : task.isEssential
    · rcases tasks' with _ | ⟨task', rest'⟩
      · rw [hpos hessential] at h
        cases h
      · by_cases hessential' : task'.isEssential
        · rw [hpos hessential, hpos hessential'] at h
          cases h with
          | cons htask hrest =>
              exact .inr (.inr (.inr ⟨_, _, _, _, rfl, rfl, hessential, htask, hrest⟩))
        · rw [hneg hessential'] at h
          exact .inr (.inl ⟨task', rest', rfl, hessential', h⟩)
    · rw [hneg hessential] at h
      exact .inl ⟨task, rest, rfl, hessential, h⟩

end Task.AllPair

/-! ## Moves -/

/-- Two paths have matched the same groups and have the same tasks before them. -/
structure Path.Pairs (root root' : Node) (path path' : Path) : Prop where
  matched_eq : path.matched = path'.matched
  pending : Task.AllPair root root' path.pending path'.pending

/-- The same move in two trees. -/
inductive Move.Pairs (root root' : Node) : Move → Move → Prop
  | finished : Pairs root root' .finished .finished
  | violates {node node' : Node} {group : Nat} : Node.Pairs root root' node node' →
      node.kind = .stringRef group →
      Pairs root root' (.violates group node.position) (.violates group node'.position)
  | advances {next next' : Path} {forks forks' : List Path} : Path.Pairs root root' next next' →
      List.Forall₂ (Path.Pairs root root') forks forks' →
      Pairs root root' (.advances next forks) (.advances next' forks')

namespace Path

variable {matched : GroupSet} {rest rest' : List Task}

/-- Paths that go on without a fork. -/
theorem pairs_follow (hrest : Task.AllPair root root' rest rest') :
    Move.Pairs root root' (follow matched rest) (follow matched rest') :=
  .advances ⟨rfl, hrest⟩ .nil

/-- Loops at the same address are iterated together. -/
theorem pairs_iterate {loop loop' : Node} (h : Node.Pairs root root' loop loop')
    (hrest : Task.AllPair root root' rest rest') :
    Move.Pairs root root' (iterate loop matched rest) (iterate loop' matched rest') :=
  .advances ⟨rfl, .children h (.cons (.reenter matched h) hrest)⟩ (.cons ⟨rfl, hrest⟩ .nil)

/-- Nodes at the same address are entered together. -/
theorem pairs_enter {node node' : Node} (h : Node.Pairs root root' node node')
    (hrest : Task.AllPair root root' rest rest') :
    Move.Pairs root root' (enter node matched rest) (enter node' matched rest') := by
  have hchildren := Task.AllPair.children h hrest
  obtain ⟨label, kind, children⟩ := node
  obtain ⟨label', kind', children'⟩ := node'
  obtain rfl : kind = kind' := h.kind_eq
  cases kind with
  | literal letter => exact pairs_follow hrest
  | expressionRef group => exact pairs_follow hrest
  | stringRef group =>
      simp only [enter]
      split
      · exact pairs_follow hrest
      · exact .violates h rfl
  | sequence => exact pairs_follow hchildren
  | branch => exact pairs_follow hchildren
  | group number =>
      cases number with
      | none => exact pairs_follow hchildren
      | some group => exact pairs_follow (.children h (.cons (.capture group) hrest))
  | alternation =>
      have hbranches : List.Forall₂ (Node.Pairs root root') children children' := by
        have hkept := h.kept
        rwa [Node.kept_eq_children rfl, Node.kept_eq_children rfl] at hkept
      cases hbranches with
      | nil => exact pairs_follow hrest
      | cons hfirst hothers =>
          refine .advances ⟨rfl, .cons (.visit hfirst) hrest⟩ ?_
          rw [List.forall₂_map_left_iff, List.forall₂_map_right_iff]
          exact hothers.imp fun _ _ hbranch => ⟨rfl, .cons (.visit hbranch) hrest⟩
  | repetition => exact pairs_iterate h hrest

/-- The same essential task is performed together. -/
theorem pairs_perform {task task' : Task} (h : Task.Pairs root root' task task')
    (hessential : task.isEssential) (hrest : Task.AllPair root root' rest rest') :
    Move.Pairs root root' (perform Node.isRelevant matched rest task)
      (perform Node.isRelevant matched rest' task') := by
  cases h with
  | visit hnode =>
      have hrelevant : Node.isRelevant _ := hessential
      simp only [perform, ← hnode.isRelevant_eq, if_pos hrelevant]
      exact pairs_enter hnode hrest
  | capture group => exact pairs_follow hrest
  | reenter entry hloop =>
      simp only [perform]
      split
      · exact pairs_follow hrest
      · exact pairs_iterate hloop hrest

/-- A task that only passes over a node changes nothing. -/
theorem move_of_not_isEssential {task : Task} (h : ¬ task.isEssential) (matched : GroupSet)
    (rest : List Task) :
    move Node.isRelevant ⟨matched, task :: rest⟩ = .advances ⟨matched, rest⟩ [] := by
  cases task with
  | visit node => exact move_skip h matched rest
  | capture group => exact absurd rfl h
  | reenter loop entry => exact absurd rfl h

/-- One path passes over a node, or both make the same move. -/
theorem Pairs.cases {path path' : Path} (h : Pairs root root' path path') :
    (∃ next, path.move Node.isRelevant = .advances next [] ∧ Pairs root root' next path') ∨
    (∃ next', path'.move Node.isRelevant = .advances next' [] ∧ Pairs root root' path next') ∨
    Move.Pairs root root' (path.move Node.isRelevant) (path'.move Node.isRelevant) := by
  obtain ⟨matched, pending⟩ := path
  obtain ⟨matched', pending'⟩ := path'
  obtain ⟨rfl, htasks⟩ := h
  obtain ⟨task, rest, rfl, hskip, hrest⟩ | ⟨task', rest', rfl, hskip, hrest⟩ | ⟨rfl, rfl⟩ |
    ⟨task, rest, task', rest', rfl, rfl, hessential, htask, hrest⟩ := htasks.cases
  · exact .inl ⟨_, move_of_not_isEssential hskip matched rest, rfl, hrest⟩
  · exact .inr (.inl ⟨_, move_of_not_isEssential hskip matched rest', rfl, hrest⟩)
  · exact .inr (.inr .finished)
  · exact .inr (.inr (pairs_perform htask hessential hrest))

/-! ## Descents -/

/-- Following some paths begins with the next move of the first one, whose forks come before the
paths that wait. -/
theorem descendAll_cons (path : Path) (paths : List Path) (budget : Budget limit) :
    descendAll (path :: paths) budget =
      match path.move Node.isRelevant with
      | .finished => descendAll paths budget
      | .violates group position => .error (.uninitialized group position)
      | .advances next forks =>
          descendAll (next :: (budget.keep forks ++ paths)) (budget.countAll forks) := by
  rw [descendAll, descend_eq]
  cases path.move Node.isRelevant with
  | finished => rfl
  | violates group position => rfl
  | advances next forks =>
      simp only [descendAll, bind_assoc, descendAll_append]

/-- A path has work to do besides that of others. -/
theorem totalWork_lt_cons (path : Path) (paths : List Path) :
    totalWork 1 Node.isRelevant paths < totalWork 1 Node.isRelevant (path :: paths) :=
  Nat.lt_add_of_pos_left (Task.workThrough_pos 1 Node.isRelevant path.pending path.matched)

/-- A move of the first of some paths lessens their work. -/
theorem totalWork_cons_lt {path next : Path} {forks : List Path}
    (h : path.move Node.isRelevant = .advances next forks) (paths : List Path)
    (budget : Budget limit) :
    totalWork 1 Node.isRelevant (next :: (budget.keep forks ++ paths)) <
      totalWork 1 Node.isRelevant (path :: paths) := by
  have hwork : path.work 1 Node.isRelevant = 1 + next.work 1 Node.isRelevant +
      totalWork 1 Node.isRelevant forks := work_move h
  have hkept := Search.totalWork_kept_le Node.isRelevant limit budget.met forks
  rw [← budget.keep_eq] at hkept
  simp only [totalWork, totalWork_append]
  omega

/-- Of as many forks, the same are kept. -/
theorem pairs_keep {forks forks' : List Path} (h : List.Forall₂ (Pairs root root') forks forks')
    (budget : Budget limit) :
    List.Forall₂ (Pairs root root') (budget.keep forks) (budget.keep forks') := by
  rw [budget.keep_eq, budget.keep_eq]
  exact List.rel_reverse (List.forall₂_take _ h)

/-- As many forks count the same. -/
theorem countAll_eq_of_pairs {forks forks' : List Path}
    (h : List.Forall₂ (Pairs root root') forks forks') (budget : Budget limit) :
    budget.countAll forks = budget.countAll forks' := by
  induction h generalizing budget with
  | nil => rfl
  | cons _ _ ih => exact ih budget.count

/-- Descents along the same paths agree. -/
theorem agree_descendAll {paths paths' : List Path}
    (h : List.Forall₂ (Pairs root root') paths paths') (budget : Budget limit) :
    Node.Agree root root' limit (descendAll paths budget) (descendAll paths' budget) := by
  -- A move on either side lessens the work of that side and leaves the other as it is.
  induction hwork : totalWork 1 Node.isRelevant paths + totalWork 1 Node.isRelevant paths'
    using Nat.strongRecOn generalizing paths paths' budget with
  | ind work ih =>
      subst hwork
      cases h with
      | nil =>
          rw [descendAll]
          exact .ok budget
      | @cons path path' paths paths' hpath hpaths =>
          obtain ⟨next, hmove, hnext⟩ | ⟨next', hmove', hnext'⟩ | hmoves := hpath.cases
          · have hlt := totalWork_cons_lt hmove paths budget
            rw [descendAll_cons path, hmove]
            exact ih _ (Nat.add_lt_add_right hlt _) (.cons hnext hpaths) budget rfl
          · have hlt := totalWork_cons_lt hmove' paths' budget
            rw [descendAll_cons path', hmove']
            exact ih _ (Nat.add_lt_add_left hlt _) (.cons hnext' hpaths) budget rfl
          · rw [descendAll_cons path, descendAll_cons path']
            generalize hmove : path.move Node.isRelevant = move,
              hmove' : path'.move Node.isRelevant = move' at hmoves ⊢
            cases hmoves with
            | finished =>
                have hlt := Nat.add_lt_add (totalWork_lt_cons path paths)
                  (totalWork_lt_cons path' paths')
                exact ih _ hlt hpaths budget rfl
            | violates hnode hkind => exact .error (hnode.corresponds hkind)
            | @advances next next' forks forks' hnext hforks =>
                have hlt := Nat.add_lt_add (totalWork_cons_lt hmove paths budget)
                  (totalWork_cons_lt hmove' paths' budget)
                have hall := List.rel_append (pairs_keep hforks budget) hpaths
                show Node.Agree root root' limit (descendAll _ (budget.countAll forks))
                  (descendAll _ (budget.countAll forks'))
                rw [countAll_eq_of_pairs hforks budget]
                exact ih _ hlt (.cons hnext hall) (budget.countAll forks') rfl

end Path

/-! ## Placement -/

/-- A look-up in tables whose entries are related, key by key. -/
theorem rel_lookup {α β : Type} {relation : α → β → Prop} {table : List (Nat × α)}
    {table' : List (Nat × β)}
    (h : List.Forall₂ (fun entry entry' => entry.1 = entry'.1 ∧ relation entry.2 entry'.2)
      table table') (key : Nat) :
    Option.Rel relation (table.lookup key) (table'.lookup key) := by
  induction h with
  | nil => exact .none
  | @cons entry entry' _ _ hentry _ ih =>
      rw [List.lookup_cons, List.lookup_cons, hentry.1]
      split
      · exact .some hentry.2
      · exact ih

namespace Pattern

variable {text text' : String} {pattern pattern' : Pattern}

/-- A site lies below a group when a group with its number is above the site. -/
theorem isBelow_iff_of_parse (h : Pattern.parse text = .ok pattern) {site target : Site}
    {number : Nat} (hsite : site ∈ pattern.sites) (htarget : pattern.group? number = some target) :
    site.isBelow target.id ↔ .group (some number) ∈ site.ancestors.map Node.kind := by
  obtain ⟨hmem, hkind⟩ := (group?_eq_some_iff_of_parse h).1 htarget
  rw [Site.isBelow, List.contains_iff_mem, Site.ancestorIds, List.mem_map, List.mem_map]
  refine exists_congr fun ancestor => and_congr_right fun hancestor => ?_
  obtain ⟨front, up, hsplit⟩ := List.append_of_mem hancestor
  have hpath : site.path = (site.node :: front) ++ ancestor :: up :=
    congrArg (site.node :: ·) hsplit
  have hup : ⟨ancestor, up⟩ ∈ pattern.sites := (mem_sites_of_path hsite hpath).1
  constructor
  · intro hid
    obtain rfl := (hasDenseIds_of_parse h).eq_of_id_eq hup hmem hid
    exact hkind
  · intro hancestorKind
    have hfound := (group?_eq_some_iff_of_parse h).2 ⟨hup, hancestorKind⟩
    exact congrArg Site.id (Option.some.inj (hfound.symm.trans htarget))

variable (h : Pattern.parse text = .ok pattern) (h' : Pattern.parse text' = .ok pattern')
  (hskeleton : pattern.root.skeleton = pattern'.root.skeleton)

include hskeleton in
/-- Of patterns with the same skeleton, either both read a group or neither does. -/
theorem hasStringRef_eq_of_skeleton : pattern.hasStringRef = pattern'.hasStringRef := by
  have hiff (other : Pattern) : other.hasStringRef ↔
      ∃ group, .stringRef group ∈ (other.root.groupSites []).map Site.kind := by
    rw [hasStringRef_iff]
    constructor
    · rintro ⟨site, hsite, group, hkind⟩
      refine ⟨group, List.mem_map.2 ⟨site, List.mem_filter.2 ⟨hsite, ?_⟩, hkind⟩⟩
      rw [hkind]
      rfl
    · rintro ⟨group, hmem⟩
      obtain ⟨site, hsite, hkind⟩ := List.mem_map.1 hmem
      exact ⟨site, List.mem_of_mem_filter hsite, group, hkind⟩
  have hkinds : (pattern.root.groupSites []).map Site.kind =
      (pattern'.root.groupSites []).map Site.kind := by
    rw [← List.forall₂_eq_eq_eq, List.forall₂_map_left_iff, List.forall₂_map_right_iff]
    exact (pairs_groupSites hskeleton).imp fun _ _ hsites => hsites.kind_eq
  rw [Bool.eq_iff_iff, hiff, hiff, hkinds]

include hskeleton in
/-- The groups of patterns with the same skeleton stand at the same addresses. -/
theorem pairs_groups : List.Forall₂ (fun group group' => group.1 = group'.1 ∧
    Site.Pairs pattern.root pattern'.root group.2 group'.2) pattern.groups pattern'.groups := by
  have hnone (site : Site) (huses : ¬ site.kind.usesGroup) : site.numbered? = none := by
    refine Option.eq_none_iff_forall_ne_some.2 fun entry hentry => huses ?_
    rw [(Site.numbered?_eq_some_iff.1 hentry).2]
    rfl
  have hgroups (other : Pattern) :
      other.groups = (other.root.groupSites []).filterMap Site.numbered? :=
    (other.filterMap_groupSites hnone).symm
  rw [hgroups, hgroups]
  refine List.rel_filterMap (fun site site' hsites => ?_) (pairs_groupSites hskeleton)
  simp only [Site.numbered?, ← hsites.kind_eq]
  split
  · exact .some ⟨rfl, hsites⟩
  · exact .none

include h h' in
/-- References below nodes of the same kinds see groups below nodes of the same kinds alike. -/
theorem maySee_eq {site site' target target' : Site} {number : Nat}
    (hkinds : site.ancestors.map Node.kind = site'.ancestors.map Node.kind)
    (hsite : site ∈ pattern.sites) (hsite' : site' ∈ pattern'.sites)
    (htargetKinds : target.ancestors.map Node.kind = target'.ancestors.map Node.kind)
    (htarget : pattern.group? number = some target)
    (htarget' : pattern'.group? number = some target') :
    site.maySee target = site'.maySee target' := by
  have hbelow : site.isBelow target.id = site'.isBelow target'.id := by
    rw [Bool.eq_iff_iff, isBelow_iff_of_parse h hsite htarget,
      isBelow_iff_of_parse h' hsite' htarget', hkinds]
  rw [Site.maySee, Site.maySee, Site.isConditional_eq htargetKinds, hbelow]

include h h' hskeleton in
/-- References at the same address are misplaced alike. -/
theorem rel_misplaced? {site site' : Site} (limit : Nat)
    (hsites : Site.Pairs pattern.root pattern'.root site site') (hsite : site ∈ pattern.sites)
    (hsite' : site' ∈ pattern'.sites) :
    Option.Rel (Rejection.Corresponds pattern.root pattern'.root limit)
      (site.misplaced? pattern.groups) (site'.misplaced? pattern'.groups) := by
  simp only [Site.misplaced?, ← hsites.kind_eq]
  split
  · next number hkind =>
      have hsafe : (pattern.groups.lookup number).any site.maySee =
          (pattern'.groups.lookup number).any site'.maySee := by
        have hlookup := rel_lookup (pairs_groups hskeleton) number
        generalize htarget : pattern.groups.lookup number = found,
          htarget' : pattern'.groups.lookup number = found' at hlookup ⊢
        cases hlookup with
        | none => rfl
        | some htargets =>
            exact maySee_eq h h' hsites.ancestors hsite hsite' htargets.ancestors htarget htarget'
      rw [hsafe]
      split
      · exact .none
      · exact .some (hsites.node.corresponds hkind)
  · exact .none

include h h' hskeleton in
/-- The structural rule treats patterns with the same skeleton alike. -/
theorem agree_checkPlacement (limit : Nat) :
    Node.Agree pattern.root pattern'.root limit pattern.checkPlacement pattern'.checkPlacement := by
  have hnone (groups : List (Nat × Site)) (site : Site) (huses : ¬ site.kind.usesGroup) :
      site.misplaced? groups = none := by
    unfold Site.misplaced?
    split
    · next number hkind => exact absurd (by rw [hkind]; rfl) huses
    · rfl
  have hfind (other : Pattern) : other.sites.findSome? (Site.misplaced? other.groups) =
      ((other.root.groupSites []).filterMap (Site.misplaced? other.groups)).head? := by
    rw [filterMap_groupSites (hnone other.groups), List.head?_filterMap]
  have hrejections : List.Forall₂ (Rejection.Corresponds pattern.root pattern'.root limit)
      ((pattern.root.groupSites []).filterMap (Site.misplaced? pattern.groups))
      ((pattern'.root.groupSites []).filterMap (Site.misplaced? pattern'.groups)) :=
    List.rel_filterMap
      (fun _ _ hsites => rel_misplaced? h h' hskeleton limit hsites.2.2
        (List.mem_of_mem_filter hsites.1) (List.mem_of_mem_filter hsites.2.1))
      (forall₂_mem (pairs_groupSites hskeleton))
  simp only [checkPlacement, hfind]
  generalize (pattern.root.groupSites []).filterMap (Site.misplaced? pattern.groups) = rejections,
    (pattern'.root.groupSites []).filterMap (Site.misplaced? pattern'.groups) = rejections'
    at hrejections ⊢
  cases hrejections with
  | nil => exact .ok ()
  | cons hfirst _ => exact .error hfirst

include h h' hskeleton in
/-- The path-sensitive rule treats patterns with the same skeleton alike. -/
theorem agree_checkPaths (limit : Nat) :
    Node.Agree pattern.root pattern'.root limit (pattern.checkPaths limit)
      (pattern'.checkPaths limit) := by
  have hsame := hasStringRef_eq_of_skeleton hskeleton
  by_cases href : pattern.hasStringRef
  · have hstart : Path.Pairs pattern.root pattern'.root (.start pattern) (.start pattern') :=
      ⟨rfl, .of_forall₂ (.cons (.visit (.root hskeleton)) .nil)⟩
    have hagree := Path.agree_descendAll (.cons hstart .nil) (Budget.start limit)
    rw [Path.descendAll_singleton, Path.descendAll_singleton] at hagree
    rw [checkPaths_eq_descend h href, checkPaths_eq_descend h' (hsame ▸ href)]
    exact hagree.verdict
  · rw [checkPaths, checkPaths, ← hsame, if_neg href, if_neg href]
    exact .ok ()

end Pattern

/-- What neither sets nor reads a group has no influence. Of two patterns that are the same but for
children of sequences, branches and groups with no capturing group and no string reference in them,
either both are accepted or both are rejected: for the same limit, or for the same group at the same
reference, which may stand at another index. -/
theorem Config.validate_of_skeleton_eq {text text' : String} {pattern pattern' : Pattern}
    (h : Pattern.parse text = .ok pattern) (h' : Pattern.parse text' = .ok pattern')
    (hskeleton : pattern.root.skeleton = pattern'.root.skeleton) (maxPaths : Nat) (rule : Rule) :
    ((Config.mk maxPaths 1 rule).validate text = .ok pattern ∧
      (Config.mk maxPaths 1 rule).validate text' = .ok pattern') ∨
    ∃ rejection rejection',
      rejection.Corresponds pattern.root pattern'.root maxPaths rejection' ∧
      (Config.mk maxPaths 1 rule).validate text = .error rejection ∧
      (Config.mk maxPaths 1 rule).validate text' = .error rejection' := by
  have hagree : Node.Agree pattern.root pattern'.root maxPaths
      ((Config.mk maxPaths 1 rule).check pattern) ((Config.mk maxPaths 1 rule).check pattern') := by
    cases rule with
    | pathSensitive => exact Pattern.agree_checkPaths h h' hskeleton maxPaths
    | structural => exact Pattern.agree_checkPlacement h h' hskeleton maxPaths
  simp only [validate_eq_ok_iff h, validate_eq_ok_iff h', validate_eq_error_iff h,
    validate_eq_error_iff h', and_true]
  generalize (Config.mk maxPaths 1 rule).check pattern = result,
    (Config.mk maxPaths 1 rule).check pattern' = result' at hagree ⊢
  cases hagree with
  | ok value => exact .inl ⟨rfl, rfl⟩
  | error hrejections => exact .inr ⟨_, _, hrejections, rfl, rfl⟩

/-- In `(a)*\1` and `b(?:c|d)*(a(?1))*e\1` the same loop may leave out the group, which is read at
index 4 and at index 18. -/
theorem Config.validate_of_skeleton_eq_loop :
    ∃ pattern pattern', Pattern.parse "(a)*\\1" = .ok pattern ∧
      Pattern.parse "b(?:c|d)*(a(?1))*e\\1" = .ok pattern' ∧
      pattern.root.skeleton = pattern'.root.skeleton ∧
      ((Config.mk 1 1 .pathSensitive).validate "(a)*\\1" = .ok pattern ∧
        (Config.mk 1 1 .pathSensitive).validate "b(?:c|d)*(a(?1))*e\\1" = .ok pattern' ∨
      ∃ rejection rejection', rejection.Corresponds pattern.root pattern'.root 1 rejection' ∧
        (Config.mk 1 1 .pathSensitive).validate "(a)*\\1" = .error rejection ∧
        (Config.mk 1 1 .pathSensitive).validate "b(?:c|d)*(a(?1))*e\\1" = .error rejection') ∧
      (Config.mk 1 1 .structural).check pattern = .error (.uninitialized 1 4) ∧
      (Config.mk 1 1 .structural).check pattern' = .error (.uninitialized 1 18) := by
  obtain ⟨pattern, pattern', h, h', hskeleton, hcheck, hcheck'⟩ : ∃ pattern pattern',
      Pattern.parse "(a)*\\1" = .ok pattern ∧
      Pattern.parse "b(?:c|d)*(a(?1))*e\\1" = .ok pattern' ∧
      pattern.root.skeleton = pattern'.root.skeleton ∧
      (Config.mk 1 1 .structural).check pattern = .error (.uninitialized 1 4) ∧
      (Config.mk 1 1 .structural).check pattern' = .error (.uninitialized 1 18) :=
    ⟨_, _, rfl, rfl, by decide +kernel, by decide +kernel, by decide +kernel⟩
  exact ⟨pattern, pattern', h, h', hskeleton,
    validate_of_skeleton_eq h h' hskeleton 1 .pathSensitive, hcheck, hcheck'⟩

end Backref
