import Backref.Proofs.Pattern.Ancestry
import Backref.Proofs.Reference.Termination

/-!
# The tasks of a path are nested

The pending tasks of a path are a stack. What has to be done after the body of a group or of a loop
lies below the tasks of that body: for each capturing group around a task its capture is pending
below the task, the innermost group first, and no other capture is (`Pattern.Nests`). A capture
itself waits until the tasks above it have come to their end, and these are what is left of a walk
through the body of its group (`Pattern.Awaits`). `Pattern.isNestedIn_of_reaches` says both of every
path in the course of a search, together with the order of the sets with which its loops began.
-/

namespace Backref

/-- The number of a capturing group. -/
def Node.number? (node : Node) : Option Nat :=
  match node.kind with
  | .group number => number
  | _ => none

namespace Task

/-- The group that the task captures. -/
def captured? : Task → Option Nat
  | .capture group => some group
  | .visit _ | .reenter _ _ => none

/-- The task belongs to the node of the site: it visits the node, it captures that group or it comes
back to that loop. -/
def BelongsTo (site : Site) : Task → Prop
  | .visit node => site.node = node
  | .capture group => site.kind = .group (some group)
  | .reenter loop _ => site.node = loop ∧ site.kind = .repetition

/-- Visits capture nothing. -/
theorem filterMap_captured?_visit (nodes : List Node) (rest : List Task) :
    (nodes.map visit ++ rest).filterMap captured? = rest.filterMap captured? := by
  induction nodes with
  | nil => rfl
  | cons node nodes ih => exact ih

theorem mem_filterMap_captured? {tasks : List Task} {number : Nat} :
    number ∈ tasks.filterMap captured? ↔ .capture number ∈ tasks := by
  rw [List.mem_filterMap]
  constructor
  · rintro ⟨task, htask, hnumber⟩
    cases task with
    | capture group =>
        obtain rfl := Option.some.inj hnumber
        exact htask
    | visit node => cases hnumber
    | reenter loop entry => cases hnumber
  · intro htask
    exact ⟨_, htask, rfl⟩

end Task

namespace Pattern

/-- Below each task the captures of the groups around it are pending, innermost first. -/
def Nests (pattern : Pattern) : List Task → Prop
  | [] => True
  | task :: rest =>
      (∃ site ∈ pattern.sites, task.BelongsTo site ∧
        rest.filterMap Task.captured? = site.ancestors.filterMap Node.number?) ∧
      pattern.Nests rest

variable {text : String} {pattern : Pattern} {relevant : Node → Bool} {path next : Path}
  {forks : List Path} {site group : Site} {rest : List Task}

/-! ## Captures lie below the bodies of their groups -/

/-- At first only the root is pending, which lies in no group. -/
theorem nests_start (pattern : Pattern) : pattern.Nests (Path.start pattern).pending :=
  ⟨⟨⟨pattern.root, []⟩, pattern.mem_sites_root, rfl, rfl⟩, trivial⟩

/-- Nodes below a site are nested in what surrounds the site and in the site itself. -/
theorem nests_visit (hsite : site ∈ pattern.sites) (hrest : pattern.Nests rest)
    (hcaptures : rest.filterMap Task.captured? = site.path.filterMap Node.number?)
    {nodes : List Node} (hnodes : ∀ node ∈ nodes, node ∈ site.node.children) :
    pattern.Nests (nodes.map .visit ++ rest) := by
  induction nodes with
  | nil => exact hrest
  | cons node nodes ih =>
      obtain ⟨hnode, hnodes⟩ := List.forall_mem_cons.1 hnodes
      refine ⟨⟨⟨node, site.path⟩, mem_sites_of_child hsite hnode, rfl, ?_⟩, ih hnodes⟩
      exact (Task.filterMap_captured?_visit nodes rest).trans hcaptures

/-- A move keeps the tasks nested, and so do the forks. -/
theorem nests_of_moves (h : Path.Moves relevant path next forks)
    (hpath : pattern.Nests path.pending) :
    ∀ other ∈ next :: forks, pattern.Nests other.pending := by
  cases h with
  | skip _ | literal | expressionRef | read _ | noBranch | leave | capture =>
      exact List.forall_mem_singleton.2 hpath.2
  | sequence | branch | nonCapturing =>
      obtain ⟨⟨⟨node, ancestors⟩, hsite, rfl, hcaptures⟩, hrest⟩ := hpath
      exact List.forall_mem_singleton.2 (nests_visit hsite hrest hcaptures fun _ => id)
  | @capturing label number children matched rest =>
      obtain ⟨⟨⟨node, ancestors⟩, hsite, rfl, hcaptures⟩, hrest⟩ := hpath
      have hcapture : pattern.Nests (.capture number :: rest) :=
        ⟨⟨_, hsite, rfl, hcaptures⟩, hrest⟩
      exact List.forall_mem_singleton.2
        (nests_visit hsite hcapture (congrArg (number :: ·) hcaptures) fun _ => id)
  | alternation =>
      obtain ⟨⟨⟨node, ancestors⟩, hsite, rfl, hcaptures⟩, hrest⟩ := hpath
      refine List.forall_mem_cons.2 ⟨⟨⟨_, mem_sites_of_child hsite List.mem_cons_self, rfl,
        hcaptures⟩, hrest⟩, fun other hother => ?_⟩
      obtain ⟨branch, hbranch, rfl⟩ := List.mem_map.1 hother
      have hchild := mem_sites_of_child hsite (List.mem_cons_of_mem _ hbranch)
      exact ⟨⟨_, hchild, rfl, hcaptures⟩, hrest⟩
  | @repetition label children matched rest =>
      obtain ⟨⟨⟨node, ancestors⟩, hsite, rfl, hcaptures⟩, hrest⟩ := hpath
      have hreenter : pattern.Nests (.reenter ⟨label, .repetition, children⟩ matched :: rest) :=
        ⟨⟨_, hsite, ⟨rfl, rfl⟩, hcaptures⟩, hrest⟩
      exact List.forall_mem_cons.2 ⟨nests_visit hsite hreenter hcaptures fun _ => id,
        List.forall_mem_singleton.2 hrest⟩
  | @reenter loop entry matched rest =>
      obtain ⟨⟨⟨⟨label, kind, children⟩, ancestors⟩, hsite, ⟨rfl, hkind⟩, hcaptures⟩, hrest⟩ :=
        hpath
      obtain rfl : kind = .repetition := hkind
      have hreenter : pattern.Nests (.reenter ⟨label, .repetition, children⟩ matched :: rest) :=
        ⟨⟨_, hsite, ⟨rfl, rfl⟩, hcaptures⟩, hrest⟩
      exact List.forall_mem_cons.2 ⟨nests_visit hsite hreenter hcaptures fun _ => id,
        List.forall_mem_singleton.2 hrest⟩

/-- The site of a task that is nested, wherever it is pending. -/
theorem Nests.exists_site {above : List Task} {task : Task}
    (h : pattern.Nests (above ++ task :: rest)) : ∃ site ∈ pattern.sites, task.BelongsTo site ∧
      rest.filterMap Task.captured? = site.ancestors.filterMap Node.number? := by
  induction above with
  | nil => exact h.1
  | cons first above ih => exact ih h.2

section Parsed

variable (h : Pattern.parse text = .ok pattern)
include h

/-- No two groups have the same number. -/
theorem eq_of_number_eq {other : Site} {number : Nat} (hgroup : group ∈ pattern.sites)
    (hnumber : group.kind = .group (some number)) (hother : other ∈ pattern.sites)
    (hnumber' : other.kind = .group (some number)) : other = group := by
  have hfound := (group?_eq_some_iff_of_parse h).2 ⟨hgroup, hnumber⟩
  have hfound' := (group?_eq_some_iff_of_parse h).2 ⟨hother, hnumber'⟩
  exact Option.some.inj (hfound'.symm.trans hfound)

/-- The groups around a site are those with whose numbers it lies in a group. -/
theorem isBelow_iff_mem_numbers {number : Nat} (hsite : site ∈ pattern.sites)
    (hgroup : group ∈ pattern.sites) (hnumber : group.kind = .group (some number)) :
    site.isBelow group.id ↔ number ∈ site.ancestors.filterMap Node.number? := by
  rw [List.mem_filterMap]
  constructor
  · intro hbelow
    have hmem : group.node ∈ site.ancestors :=
      ((hasDenseIds_of_parse h).path_suffix hsite hgroup hbelow).mem List.mem_cons_self
    refine ⟨group.node, hmem, ?_⟩
    rw [Node.number?, show group.node.kind = .group (some number) from hnumber]
  · rintro ⟨node, hnode, hkind⟩
    obtain ⟨front, up, hancestors⟩ := List.append_of_mem hnode
    have hpath : site.path = (site.node :: front) ++ node :: up := by
      rw [Site.path, hancestors, List.cons_append]
    have hnodeKind : node.kind = .group (some number) := by
      rw [Node.number?] at hkind
      split at hkind
      · next own hown => rw [hown, hkind]
      · cases hkind
    obtain rfl := eq_of_number_eq h hgroup hnumber (mem_sites_of_path hsite hpath).1 hnodeKind
    exact List.contains_iff_mem.2 (List.mem_map_of_mem hnode)

/-- A task belongs to one site only. -/
theorem eq_of_belongsTo {task : Task} {other : Site} (hsite : site ∈ pattern.sites)
    (hother : other ∈ pattern.sites) (htask : task.BelongsTo site)
    (htask' : task.BelongsTo other) : other = site := by
  have hids := hasDenseIds_of_parse h
  cases task with
  | visit node => exact hids.eq_of_id_eq hother hsite (congrArg Node.id (htask'.trans htask.symm))
  | capture number => exact eq_of_number_eq h hsite htask hother htask'
  | reenter loop entry =>
      exact hids.eq_of_id_eq hother hsite (congrArg Node.id (htask'.1.trans htask.1.symm))

/-- The captures pending below a nested task are those of the groups around it. -/
theorem Nests.capture_mem_iff {above : List Task} {task : Task} {number : Nat}
    (hnests : pattern.Nests (above ++ task :: rest)) (hsite : site ∈ pattern.sites)
    (htask : task.BelongsTo site) (hgroup : group ∈ pattern.sites)
    (hnumber : group.kind = .group (some number)) :
    .capture number ∈ rest ↔ site.isBelow group.id := by
  obtain ⟨own, hown, hbelongs, hcaptures⟩ := hnests.exists_site
  obtain rfl := eq_of_belongsTo h hsite hown htask hbelongs
  rw [isBelow_iff_mem_numbers h hsite hgroup hnumber, ← hcaptures, Task.mem_filterMap_captured?]

/-- When a group is to be captured next, nothing in its body is pending. -/
theorem Nests.not_isBelow {number : Nat} (hnests : pattern.Nests (.capture number :: rest))
    (hgroup : group ∈ pattern.sites) (hnumber : group.kind = .group (some number)) {task : Task}
    (htask : task ∈ rest) (hsite : site ∈ pattern.sites) (hbelongs : task.BelongsTo site) :
    ¬site.isBelow group.id := by
  intro hbelow
  obtain ⟨above, below, rfl⟩ := List.append_of_mem htask
  -- Otherwise the same group would be captured below, and so lie in itself.
  have hcapture : .capture number ∈ below :=
    (Nests.capture_mem_iff h hnests.2 hsite hbelongs hgroup hnumber).2 hbelow
  have hfirst : pattern.Nests ([] ++ .capture number :: (above ++ task :: below)) := hnests
  have hself : group.isBelow group.id :=
    (Nests.capture_mem_iff h hfirst hgroup hnumber hgroup hnumber).1
      (List.mem_append_right _ (List.mem_cons_of_mem _ hcapture))
  exact (hasDenseIds_of_parse h).id_notMem_ancestorIds hgroup (List.contains_iff_mem.1 hself)

end Parsed

end Pattern

/-! ## Captures wait for walks through the bodies of their groups -/

/-- The path with more to do afterwards. -/
def Path.andThen (path : Path) (tasks : List Task) : Path := ⟨path.matched, path.pending ++ tasks⟩

/-- The same move with more to do afterwards. -/
def Move.andThen (tasks : List Task) : Move → Move
  | .finished => .finished
  | .violates group position => .violates group position
  | .advances path forks => .advances (path.andThen tasks) (forks.map (·.andThen tasks))

namespace Path

variable {relevant : Node → Bool} {next : Path} {forks : List Path} {matched : GroupSet}
  {task : Task} {rest : List Task}

theorem follow_append (matched : GroupSet) (tasks rest : List Task) :
    follow matched (tasks ++ rest) = (follow matched tasks).andThen rest := rfl

theorem iterate_eq (loop : Node) (matched : GroupSet) (rest : List Task) :
    iterate loop matched rest = (iterate loop matched []).andThen rest := by
  rw [iterate, iterate, Move.andThen, andThen, List.append_assoc]
  rfl

theorem enter_eq (node : Node) (matched : GroupSet) (rest : List Task) :
    enter node matched rest = (enter node matched []).andThen rest := by
  obtain ⟨label, kind, children⟩ := node
  cases kind with
  | literal letter => rfl
  | expressionRef group => rfl
  | stringRef group =>
      simp only [enter]
      split
      · rfl
      · rfl
  | sequence | branch => rw [enter, enter, List.append_nil, follow_append]
  | group number =>
      cases number with
      | none => rw [enter, enter, List.append_nil, follow_append]
      | some number => rw [enter, enter, ← follow_append, List.append_assoc, List.singleton_append]
  | alternation =>
      cases children with
      | nil => rfl
      | cons first others =>
          rw [enter, enter, Move.andThen, List.map_map]
          rfl
  | repetition => exact iterate_eq _ _ _

/-- What is pending below a task does not matter when it is performed. -/
theorem perform_eq (relevant : Node → Bool) (matched : GroupSet) (rest : List Task) (task : Task) :
    perform relevant matched rest task = (perform relevant matched [] task).andThen rest := by
  cases task with
  | capture group => rfl
  | reenter loop entry =>
      simp only [perform]
      split
      · rfl
      · exact iterate_eq loop matched rest
  | visit node =>
      simp only [perform]
      split
      · exact enter_eq node matched rest
      · rfl

/-- Only a move into a capturing group makes a capture pending, below the nodes of its body. -/
theorem Moves.eq_of_capture {other : Path} {above below : List Task} {number : Nat}
    (h : Moves relevant ⟨matched, [task]⟩ next forks) (hother : other ∈ next :: forks)
    (hpending : other.pending = above ++ .capture number :: below) :
    ∃ label children, task = .visit ⟨label, .group (some number), children⟩ ∧
      above = children.map .visit ∧ other.matched = matched := by
  have hvisits : ∀ nodes : List Node, .capture number ∉ nodes.map Task.visit := by
    intro nodes hmem
    obtain ⟨node, _, hnode⟩ := List.mem_map.1 hmem
    cases hnode
  have hcapture : .capture number ∈ other.pending := by
    rw [hpending]
    exact List.mem_append_right _ List.mem_cons_self
  cases h with
  | skip _ | literal | expressionRef | read _ | noBranch | leave | capture =>
      obtain rfl := List.mem_singleton.1 hother
      cases hcapture
  | sequence | branch | nonCapturing =>
      obtain rfl := List.mem_singleton.1 hother
      rw [List.append_nil] at hcapture
      exact absurd hcapture (hvisits _)
  | @capturing label group children =>
      obtain rfl := List.mem_singleton.1 hother
      obtain ⟨front, rfl, hback⟩ | ⟨back, hfront, hback⟩ := List.append_eq_append_iff.1 hpending
      · obtain ⟨rfl, hhead⟩ : front = [] ∧ _ := by
          cases front with
          | nil => exact ⟨rfl, hback⟩
          | cons first front => cases front <;> cases hback
        cases hhead
        exact ⟨label, children, rfl, List.append_nil _, rfl⟩
      · cases back with
        | nil =>
            cases hback
            exact ⟨label, children, rfl, (hfront.trans (List.append_nil _)).symm, rfl⟩
        | cons first back =>
            obtain ⟨rfl, _⟩ := List.cons.inj hback
            exact absurd (hfront ▸ List.mem_append_right _ List.mem_cons_self) (hvisits children)
  | alternation =>
      obtain rfl | hother := List.mem_cons.1 hother
      · exact absurd hcapture (hvisits [_])
      · obtain ⟨branch, _, rfl⟩ := List.mem_map.1 hother
        exact absurd hcapture (hvisits [branch])
  | repetition | reenter _ =>
      obtain rfl | hother := List.mem_cons.1 hother
      · obtain hmem | hmem := List.mem_append.1 hcapture
        · exact absurd hmem (hvisits _)
        · cases List.mem_singleton.1 hmem
      · obtain rfl := List.mem_singleton.1 hother
        cases hcapture

end Path

namespace Pattern

/-- The tasks above a pending capture are what is left of a way through the body of its group. -/
def Awaits (pattern : Pattern) (relevant : Node → Bool) (path : Path) : Prop :=
  ∀ above number below, path.pending = above ++ .capture number :: below →
    ∃ group ∈ pattern.sites, group.kind = .group (some number) ∧ ∃ before : GroupSet,
      (Path.mk before (group.node.children.map .visit)).Leads relevant ⟨path.matched, above⟩

variable {text : String} {pattern : Pattern} {relevant : Node → Bool} {path next : Path}
  {forks : List Path}

/-- At first no capture is pending. -/
theorem awaits_start (pattern : Pattern) : pattern.Awaits relevant (Path.start pattern) := by
  intro above number below hpending
  obtain hnil | ⟨rest, _, hcapture⟩ := List.cons_eq_append_iff.1 hpending
  · cases hnil.2
  · cases List.append_eq_nil_iff.1 hcapture.symm |>.2

/-- A move goes on along the ways for which captures wait, and so do the forks. -/
theorem Awaits.of_move (hpath : pattern.Awaits relevant path)
    (hnests : pattern.Nests path.pending) (hmove : path.move relevant = .advances next forks) :
    ∀ other ∈ next :: forks, pattern.Awaits relevant other := by
  obtain ⟨matched, pending⟩ := path
  cases pending with
  | nil => cases hmove
  | cons task rest =>
      have hperform : ∀ tasks, Path.move relevant ⟨matched, task :: tasks⟩ =
          (Path.perform relevant matched [] task).andThen tasks :=
        fun tasks => Path.perform_eq relevant matched tasks task
      have halone : Path.move relevant ⟨matched, [task]⟩ = Path.perform relevant matched [] task :=
        rfl
      rw [hperform] at hmove
      cases hadvances : Path.perform relevant matched [] task with
      | finished =>
          rw [hadvances] at hmove
          cases hmove
      | violates group position =>
          rw [hadvances] at hmove
          cases hmove
      | advances next' forks' =>
          rw [hadvances] at hmove halone hperform
          obtain ⟨rfl, rfl⟩ := Move.advances.inj hmove
          intro other hother
          obtain ⟨other', hother', rfl⟩ : ∃ other' ∈ next' :: forks', other'.andThen rest = other :=
            List.mem_map.1 hother
          -- A capture below the task still waits, for what the task has left.
          have hbelow : ∀ above number below, rest = above ++ .capture number :: below →
              ∃ group ∈ pattern.sites, group.kind = .group (some number) ∧ ∃ before : GroupSet,
                (Path.mk before (group.node.children.map .visit)).Leads relevant
                  (other'.andThen above) := by
            intro above number below hrest
            obtain ⟨group, hgroup, hnumber, before, hleads⟩ :=
              hpath (task :: above) number below (congrArg (task :: ·) hrest)
            refine ⟨group, hgroup, hnumber, before, hleads.tail ⟨_, _, hperform above, ?_⟩⟩
            exact List.mem_map_of_mem (f := (Path.andThen · above)) hother'
          intro above number below hpending
          obtain ⟨front, rfl, hrest⟩ | ⟨back, hpushed, hback⟩ :=
            List.append_eq_append_iff.1 hpending
          · exact hbelow front number below hrest
          · cases back with
            | nil =>
                obtain rfl : above = other'.pending := (hpushed.trans (List.append_nil _)).symm
                obtain ⟨group, hgroup, hnumber, before, hleads⟩ := hbelow [] number below hback.symm
                rw [Path.andThen, List.append_nil] at hleads
                exact ⟨group, hgroup, hnumber, before, hleads⟩
            | cons first back =>
                obtain ⟨rfl, _⟩ := List.cons.inj hback
                obtain ⟨label, children, rfl, rfl, hmatched⟩ :=
                  (Path.moves_of_move_eq halone).eq_of_capture hother' hpushed
                obtain ⟨⟨⟨node, ancestors⟩, hsite, rfl, _⟩, _⟩ := hnests
                refine ⟨_, hsite, rfl, matched, ?_⟩
                rw [Path.andThen, hmatched]
                exact .refl

end Pattern

/-! ## Paths in the course of a search -/

/-- The pending tasks of the path are nested as their places in the pattern are. -/
structure Path.IsNestedIn (pattern : Pattern) (path : Path) : Prop where
  /-- Every task belongs to a place in the pattern. -/
  exists_site : ∀ task ∈ path.pending, ∃ site ∈ pattern.sites, task.BelongsTo site
  /-- An iteration that lies higher in the stack began with a larger set. -/
  entries_pairwise : (path.pending.filterMap Task.entry?).Pairwise fun inner outer => outer ⊆ inner
  /-- No group is lost after an iteration began. -/
  entry_subset : ∀ loop entry, .reenter loop entry ∈ path.pending → entry ⊆ path.matched
  /-- The set has changed since an iteration began only if it has grown. -/
  ne_entry_iff : ∀ loop entry, .reenter loop entry ∈ path.pending →
    (path.matched ≠ entry ↔ ∃ group, path.matched.contains group ∧ ¬entry.contains group)
  /-- The captures that lie below a task are those of the groups around its place. -/
  capture_mem_iff : ∀ above task below, path.pending = above ++ task :: below →
    ∀ site ∈ pattern.sites, task.BelongsTo site →
    ∀ group ∈ pattern.sites, ∀ number, group.kind = .group (some number) →
      (.capture number ∈ below ↔ site.isBelow group.id)
  /-- When a group is captured next, nothing of its body is left, and the path has come through the
  whole body without reading a group too early. -/
  capture_walked : ∀ number rest, path.pending = .capture number :: rest →
    ∃ group ∈ pattern.sites, group.kind = .group (some number) ∧
      (∀ task ∈ rest, ∀ site ∈ pattern.sites, task.BelongsTo site → ¬site.isBelow group.id) ∧
      ∃ before : GroupSet,
        Node.WalkThrough group.node.children before.toFinset [] path.matched.toFinset
  /-- Only a capture adds a group. -/
  capture_of_gain : ∀ next forks,
    path.move (Relevance.isMarked pattern.relevance) = .advances next forks →
    ∀ other ∈ next :: forks, ∀ number, other.matched.contains number →
      ¬path.matched.contains number → ∃ rest, path.pending = .capture number :: rest

namespace Path

variable {relevant : Node → Bool} {path next : Path} {forks : List Path}

/-- A set that changes while it keeps its groups gets a new one. -/
theorem Ascends.ne_entry_iff (h : path.Ascends) {loop : Node} {entry : GroupSet}
    (hentry : .reenter loop entry ∈ path.pending) : entry ⊆ path.matched ∧
      (path.matched ≠ entry ↔ ∃ group, path.matched.contains group ∧ ¬entry.contains group) := by
  have hsubset : entry ⊆ path.matched :=
    (List.pairwise_cons.1 h).1 entry (List.mem_filterMap.2 ⟨_, hentry, rfl⟩)
  refine ⟨hsubset, fun hne => ?_, ?_⟩
  · by_contra hnone
    refine hne (GroupSet.ext_contains fun group => Bool.eq_iff_iff.2 ⟨fun hgroup => ?_, hsubset _⟩)
    exact Decidable.byContradiction fun hnew => hnone ⟨group, hgroup, hnew⟩
  · rintro ⟨group, hgroup, hnew⟩ rfl
    exact hnew hgroup

/-- Only a capture adds a group, and only its own. -/
theorem Moves.exists_capture (h : Moves relevant path next forks) {other : Path}
    (hother : other ∈ next :: forks) {number : Nat} (hgain : other.matched.contains number)
    (hnew : ¬path.matched.contains number) : ∃ rest, path.pending = .capture number :: rest := by
  cases h with
  | skip _ | literal | expressionRef | read _ | sequence | branch | nonCapturing | capturing
  | noBranch | leave =>
      obtain rfl := List.mem_singleton.1 hother
      exact absurd hgain hnew
  | alternation =>
      obtain rfl | hother := List.mem_cons.1 hother
      · exact absurd hgain hnew
      · obtain ⟨branch, _, rfl⟩ := List.mem_map.1 hother
        exact absurd hgain hnew
  | repetition | reenter _ =>
      obtain rfl | hother := List.mem_cons.1 hother
      · exact absurd hgain hnew
      · obtain rfl := List.mem_singleton.1 hother
        exact absurd hgain hnew
  | @capture group matched rest =>
      obtain rfl := List.mem_singleton.1 hother
      rw [GroupSet.contains_insert] at hgain
      simp only [Bool.or_eq_true, Bool.and_eq_true, decide_eq_true_eq] at hgain
      obtain hold | ⟨_, rfl⟩ := hgain
      · exact absurd hold hnew
      · exact ⟨rest, rfl⟩

end Path

namespace Pattern

variable {text : String} {pattern : Pattern} {limit : Nat} {search : Search}

/-- What surrounds the tasks of a path and what its captures wait for, in the course of a search. -/
theorem nests_of_reaches
    (h : (Search.start pattern).Reaches (Relevance.isMarked pattern.relevance) limit search) :
    ∀ path ∈ search.paths, pattern.Nests path.pending ∧
      pattern.Awaits (Relevance.isMarked pattern.relevance) path := by
  refine h.forall_paths ?_ ?_
  · rintro path next forks hmove ⟨hnests, hawaits⟩ other hother
    exact ⟨nests_of_moves (Path.moves_of_move_eq hmove) hnests other hother,
      hawaits.of_move hnests hmove other hother⟩
  · exact List.forall_mem_singleton.2 ⟨pattern.nests_start, pattern.awaits_start⟩

/-- A capture that comes next has waited for a walk through the body of its group. -/
theorem Awaits.exists_walkThrough (h : Pattern.parse text = .ok pattern) {path : Path}
    (hawaits : pattern.Awaits (Relevance.isMarked pattern.relevance) path) {number : Nat}
    {rest : List Task} (hpending : path.pending = .capture number :: rest) :
    ∃ group ∈ pattern.sites, group.kind = .group (some number) ∧ ∃ before : GroupSet,
      Node.WalkThrough group.node.children before.toFinset [] path.matched.toFinset := by
  obtain ⟨group, hgroup, hnumber, before, hleads⟩ := hawaits [] number rest hpending
  refine ⟨group, hgroup, hnumber, before, ?_⟩
  have hwithin : (Path.mk before (group.node.children.map .visit)).Within pattern.root := by
    intro task htask
    obtain ⟨child, hchild, rfl⟩ := List.mem_map.1 htask
    exact Node.children_subset (mem_subtree_root.2 ⟨group, hgroup, rfl⟩) child hchild
  have hwalk := hleads.walkThrough (explorable_of_parse h) hwithin
  rw [← List.append_nil (group.node.children.map Task.visit)] at hwalk
  obtain ⟨first, last, middle, hviolations, hbody, hrest⟩ := hwalk.visit_cases
  obtain ⟨rfl, rfl⟩ := List.append_eq_nil_iff.1 hviolations.symm
  cases hrest
  exact hbody

/-- On every path in the course of a search, whatever its limit is, the pending tasks are nested as
their places in the pattern are: loops that lie higher in the stack began with larger sets, all of
them within the present set, so that an iteration has changed the set exactly when it has added a
group; below whatever a path visits in the body of a group lies the capture of that group; and a
group is added only by its capture, after the whole body of the group. -/
theorem isNestedIn_of_reaches (h : Pattern.parse text = .ok pattern)
    (hreaches :
      (Search.start pattern).Reaches (Relevance.isMarked pattern.relevance) limit search) :
    ∀ path ∈ search.paths, path.IsNestedIn pattern := by
  intro path hpath
  have hascends := ascends_of_reaches hreaches path hpath
  obtain ⟨hnests, hawaits⟩ := nests_of_reaches hreaches path hpath
  refine
    { exists_site := fun task htask => ?_
      entries_pairwise := (List.pairwise_cons.1 hascends).2
      entry_subset := fun loop entry hentry => (hascends.ne_entry_iff hentry).1
      ne_entry_iff := fun loop entry hentry => (hascends.ne_entry_iff hentry).2
      capture_mem_iff := fun above task below hpending site hsite htask group hgroup number =>
        Nests.capture_mem_iff h (hpending ▸ hnests) hsite htask hgroup
      capture_walked := fun number rest hpending => ?_
      capture_of_gain := fun next forks hmove other hother number =>
        (Path.moves_of_move_eq hmove).exists_capture hother }
  · obtain ⟨above, below, hpending⟩ := List.append_of_mem htask
    obtain ⟨site, hsite, hbelongs, _⟩ := Nests.exists_site (hpending ▸ hnests)
    exact ⟨site, hsite, hbelongs⟩
  · obtain ⟨group, hgroup, hnumber, hwalk⟩ := hawaits.exists_walkThrough h hpending
    refine ⟨group, hgroup, hnumber, fun task htask site hsite hbelongs => ?_, hwalk⟩
    exact Nests.not_isBelow h (hpending ▸ hnests) hgroup hnumber htask hsite hbelongs

/-- After fourteen steps in `(?:(a)((b)*\1)*)*` the first path is in all three loops, whose present
iterations began with more and more groups, and it stands before the letter `b`. -/
theorem isNestedIn_of_reaches_three_loops :
    ∃ pattern, Pattern.parse "(?:(a)((b)*\\1)*)*" = .ok pattern ∧
      ∃ search, (Search.start pattern).Reaches (Relevance.isMarked pattern.relevance) 4 search ∧
        ∃ path ∈ search.paths, path.IsNestedIn pattern ∧ path.matched.members = [1, 3] ∧
          (path.pending.filterMap Task.entry?).map GroupSet.members = [[1, 3], [1], []] ∧
          path.pending.filterMap Task.captured? = [3, 2] := by
  obtain ⟨pattern, hparse, hafter⟩ : ∃ pattern,
      Pattern.parse "(?:(a)((b)*\\1)*)*" = .ok pattern ∧
        ((Search.start pattern).after? (Relevance.isMarked pattern.relevance) 4 14).any
          (fun search => search.paths.any fun path => path.matched.members = [1, 3] ∧
            (path.pending.filterMap Task.entry?).map GroupSet.members = [[1, 3], [1], []] ∧
            path.pending.filterMap Task.captured? = [3, 2]) :=
    ⟨_, rfl, by decide +kernel⟩
  rw [Option.any_eq_true] at hafter
  obtain ⟨search, hsearch, hpaths⟩ := hafter
  obtain ⟨path, hpath, hsets⟩ := List.any_eq_true.1 hpaths
  have hreaches := Search.reaches_of_after? hsearch
  exact ⟨pattern, hparse, search, hreaches, path, hpath,
    isNestedIn_of_reaches hparse hreaches path hpath, of_decide_eq_true hsets⟩

end Pattern

end Backref
