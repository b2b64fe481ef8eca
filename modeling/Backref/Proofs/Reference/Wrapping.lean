import Backref.Proofs.Pattern.GroupTable
import Backref.Proofs.Pattern.Wrapping
import Backref.Proofs.Reference.Limit

/-!
# Rules for a pattern inside a group

Both rules treat a pattern in `(?:` and `)` as they treat the pattern itself. For the path-sensitive
rule `Path.wrap` and `Search.wrap` map what is searched in one tree to what is searched in the
other; every move commutes with them (`Path.move_wrap`), so the two searches are in step once the
longer one has entered its root. For the structural rule the sites are mapped one by one
(`Pattern.sites_wrap`). Read `Config.check_wrap` first.
-/

namespace Backref

/-- The same rejection of a rule, for a pattern in `(?:` and `)`. -/
def Rejection.wrap : Rejection → Rejection
  | .uninitialized group index => .uninitialized group (index + 3)
  | rejection => rejection

@[simp] theorem Kind.usesGroup_wrap (kind : Kind) : kind.wrap.usesGroup = kind.usesGroup := by
  cases kind <;> rfl

@[simp] theorem Kind.isOptional_wrap (kind : Kind) : kind.wrap.isOptional = kind.isOptional := by
  cases kind <;> rfl

namespace Node

mutual

/-- The nodes at and below a wrapped node. -/
theorem subtree_wrap : ∀ node : Node, node.wrap.subtree = node.subtree.map wrap
  | ⟨label, kind, children⟩ => by
      rw [wrap_mk, subtree, subtrees_wrap children, subtree, List.map_cons, wrap_mk]

/-- The nodes at and below wrapped nodes. -/
theorem subtrees_wrap : ∀ nodes : List Node, subtrees (nodes.map wrap) = (subtrees nodes).map wrap
  | [] => rfl
  | node :: nodes => by
      rw [List.map_cons, subtrees, subtree_wrap node, subtrees_wrap nodes, subtrees,
        List.map_append]

end

/-- A node sets and reads the same groups as before. -/
@[simp] theorem isRelevant_wrap (node : Node) : node.wrap.isRelevant = node.isRelevant := by
  rw [isRelevant, isRelevant, decide_eq_decide]
  simp [UsesGroups, subtree_wrap]

end Node

/-! ## The path-sensitive rule -/

/-- The same task in the wrapped tree. -/
def Task.wrap : Task → Task
  | .visit node => .visit node.wrap
  | .capture group => .capture group
  | .reenter loop entry => .reenter loop.wrap entry

/-- The same path through the wrapped tree. -/
def Path.wrap (path : Path) : Path := ⟨path.matched, path.pending.map Task.wrap⟩

/-- The same move in the wrapped tree. -/
def Move.wrap : Move → Move
  | .finished => .finished
  | .violates group position => .violates group (position + 3)
  | .advances path forks => .advances path.wrap (forks.map Path.wrap)

namespace Path

/-- Going on without a fork is the same in the wrapped tree. -/
theorem follow_wrap (matched : GroupSet) (pending : List Task) :
    follow matched (pending.map Task.wrap) = (follow matched pending).wrap := rfl

/-- Visits of wrapped nodes are wrapped visits. -/
theorem map_visit_wrap (nodes : List Node) (rest : List Task) :
    (nodes.map Node.wrap).map Task.visit ++ rest.map Task.wrap =
      (nodes.map Task.visit ++ rest).map Task.wrap := by
  simp [Task.wrap]

/-- A wrapped loop is iterated like the loop. -/
theorem iterate_wrap (loop : Node) (matched : GroupSet) (rest : List Task) :
    iterate loop.wrap matched (rest.map Task.wrap) = (iterate loop matched rest).wrap := by
  have hbody := map_visit_wrap loop.children (.reenter loop matched :: rest)
  rw [List.map_cons] at hbody
  rw [iterate, Node.wrap_children]
  exact congrArg (fun pending => Move.advances ⟨matched, pending⟩ _) hbody

/-- A wrapped node is entered like the node. -/
theorem enter_wrap (node : Node) (matched : GroupSet) (rest : List Task) :
    enter node.wrap matched (rest.map Task.wrap) = (enter node matched rest).wrap := by
  obtain ⟨label, kind, children⟩ := node
  have hchildren := map_visit_wrap children rest
  rw [Node.wrap_mk]
  cases kind with
  | literal letter => rfl
  | expressionRef group => rfl
  | stringRef group =>
      simp only [enter, Kind.wrap]
      split <;> rfl
  | sequence => exact congrArg (follow matched) hchildren
  | branch => exact congrArg (follow matched) hchildren
  | group number =>
      cases number with
      | none => exact congrArg (follow matched) hchildren
      | some group =>
          exact congrArg (follow matched) (map_visit_wrap children (.capture group :: rest))
  | alternation =>
      cases children with
      | nil => rfl
      | cons first others => simp [enter, Kind.wrap, Move.wrap, wrap, Task.wrap]
  | repetition =>
      have hloop := iterate_wrap ⟨label, .repetition, children⟩ matched rest
      rw [Node.wrap_mk] at hloop
      exact hloop

/-- A move in the wrapped tree is the wrapped move. -/
theorem move_wrap (path : Path) :
    path.wrap.move Node.isRelevant = (path.move Node.isRelevant).wrap := by
  obtain ⟨matched, pending⟩ := path
  cases pending with
  | nil => rfl
  | cons task rest =>
      simp only [wrap, List.map_cons, move]
      cases task with
      | visit node =>
          simp only [Task.wrap, perform, Node.isRelevant_wrap]
          split
          · exact enter_wrap node matched rest
          · exact follow_wrap matched rest
      | capture group => exact follow_wrap (matched.insert group) rest
      | reenter loop entry =>
          simp only [Task.wrap, perform]
          split
          · exact follow_wrap matched rest
          · exact iterate_wrap loop matched rest

end Path

namespace Search

variable {limit : Nat}

/-- The same search in the wrapped tree. -/
def wrap (search : Search) : Search := { search with paths := search.paths.map Path.wrap }

/-- The same progress in the wrapped tree. -/
def Progress.wrap : Progress → Progress
  | .exhausted => .exhausted
  | .violated group position => .violated group (position + 3)
  | .running search => .running search.wrap

/-- The same forks are kept. -/
theorem kept_wrap (met : Nat) (forks : List Path) :
    kept limit met (forks.map Path.wrap) = (kept limit met forks).map Path.wrap := by
  rw [kept, kept, List.map_reverse, List.map_take]

/-- A step in the wrapped tree is the wrapped step. -/
theorem next_wrap (search : Search) :
    search.wrap.next Node.isRelevant limit = (search.next Node.isRelevant limit).wrap := by
  obtain ⟨paths, met, dropped⟩ := search
  cases paths with
  | nil => rfl
  | cons path waiting =>
      simp only [wrap, List.map_cons, next, Path.move_wrap]
      cases path.move Node.isRelevant with
      | finished => rfl
      | violates group position => rfl
      | advances next forks =>
          simp only [Move.wrap, List.length_map, kept_wrap, Progress.wrap, wrap, List.map_cons,
            List.map_append]

/-- A run in the wrapped tree finds what the run finds, three characters further to the right. -/
theorem run_wrap (search : Search) :
    search.wrap.run Node.isRelevant limit =
      (search.run Node.isRelevant limit).mapError Rejection.wrap := by
  -- The induction is on the run in the smaller tree; the other run makes a step for each of its
  -- steps, and no other.
  induction search using Search.run.induct Node.isRelevant limit with
  | case1 search hnext hdropped =>
      have hwrap := (next_wrap search).trans (congrArg Progress.wrap hnext)
      rw [run_of_exhausted hnext, run_of_exhausted hwrap, if_pos hdropped]
      exact if_pos hdropped
  | case2 search hnext hdropped =>
      have hwrap := (next_wrap search).trans (congrArg Progress.wrap hnext)
      rw [run_of_exhausted hnext, run_of_exhausted hwrap, if_neg hdropped]
      exact if_neg hdropped
  | case3 search group position hnext =>
      have hwrap := (next_wrap search).trans (congrArg Progress.wrap hnext)
      rw [run_of_violated hnext, run_of_violated hwrap]
      rfl
  | case4 search search' hnext ih =>
      have hwrap := (next_wrap search).trans (congrArg Progress.wrap hnext)
      rw [run_of_running hnext, run_of_running hwrap, ih]

end Search

/-! ## The sites of the wrapped tree -/

/-- The same place in the tree with the given root around it. -/
def Site.wrap (root : Node) (site : Site) : Site :=
  ⟨site.node.wrap, site.ancestors.map Node.wrap ++ [root]⟩

namespace Node

variable (root : Node)

mutual

/-- The sites at and below a wrapped node. -/
theorem sitesOnto_wrap : ∀ (node : Node) (ancestors : List Node) (rest : List Site),
    node.wrap.sitesOnto (ancestors.map wrap ++ [root]) (rest.map (Site.wrap root)) =
      (node.sitesOnto ancestors rest).map (Site.wrap root)
  | ⟨label, kind, children⟩, ancestors, rest => by
      have hchildren := childSitesOnto_wrap children (⟨label, kind, children⟩ :: ancestors) rest
      rw [List.map_cons, wrap_mk, List.cons_append] at hchildren
      rw [wrap_mk, sitesOnto, hchildren, sitesOnto, List.map_cons, Site.wrap, wrap_mk]

/-- The sites at and below wrapped nodes. -/
theorem childSitesOnto_wrap : ∀ (nodes ancestors : List Node) (rest : List Site),
    childSitesOnto (nodes.map wrap) (ancestors.map wrap ++ [root]) (rest.map (Site.wrap root)) =
      (childSitesOnto nodes ancestors rest).map (Site.wrap root)
  | [], ancestors, rest => rfl
  | node :: nodes, ancestors, rest => by
      rw [List.map_cons, childSitesOnto, childSitesOnto_wrap nodes, sitesOnto_wrap node,
        childSitesOnto]

end

end Node

/-- A group that captures has the same number in the wrapped tree. -/
theorem Site.numbered?_wrap (root : Node) (site : Site) :
    (site.wrap root).numbered? =
      site.numbered?.map fun group => (group.1, group.2.wrap root) := by
  obtain ⟨⟨label, kind, children⟩, ancestors⟩ := site
  cases kind with
  | group number => cases number <;> rfl
  | _ => rfl

/-- What is found in a table of wrapped sites. -/
theorem Site.lookup_wrap (root : Node) (groups : List (Nat × Site)) (number : Nat) :
    (groups.map fun group => (group.1, group.2.wrap root)).lookup number =
      (groups.lookup number).map (Site.wrap root) := by
  induction groups with
  | nil => rfl
  | cons entry groups ih =>
      rw [List.map_cons, List.lookup_cons, List.lookup_cons, ih]
      split <;> rfl

section Root

-- The identifier of the root is zero, and it is neither an alternation nor a repetition.
variable {root : Node} (hid : root.id = 0) (hkind : ¬ root.kind.isOptional)
include hid hkind

/-- In the wrapped tree a reference sees what it saw before. -/
theorem Site.maySee_wrap (site group : Site) :
    (site.wrap root).maySee (group.wrap root) = site.maySee group := by
  have hconditional : (group.wrap root).isConditional = group.isConditional := by
    simp [isConditional, wrap, hkind, Function.comp_def]
  have hbelow : (site.wrap root).isBelow (group.wrap root).id = site.isBelow group.id := by
    rw [Bool.eq_iff_iff]
    simp [isBelow, wrap, ancestorIds, id, hid]
  rw [maySee, maySee, hconditional, hbelow]

/-- The same references are misplaced in the wrapped tree. -/
theorem Site.misplaced?_wrap (groups : List (Nat × Site)) (site : Site) :
    (site.wrap root).misplaced? (groups.map fun group => (group.1, group.2.wrap root)) =
      (site.misplaced? groups).map Rejection.wrap := by
  have hsafe (number : Nat) :
      ((groups.lookup number).map (Site.wrap root)).any (site.wrap root).maySee =
        (groups.lookup number).any site.maySee := by
    cases groups.lookup number with
    | none => rfl
    | some group => exact site.maySee_wrap hid hkind group
  simp only [misplaced?, Site.lookup_wrap, hsafe]
  obtain ⟨⟨label, kind, children⟩, ancestors⟩ := site
  cases kind with
  | stringRef number =>
      simp only [kind, wrap, Node.wrap_kind, Kind.wrap]
      split <;> rfl
  | _ => rfl

end Root

namespace Pattern

variable (pattern : Pattern)

/-- The sites of the wrapped tree are the new root and the wrapped sites. -/
theorem sites_wrap :
    pattern.wrap.sites =
      ⟨pattern.wrap.root, []⟩ :: pattern.sites.map (Site.wrap pattern.wrap.root) := by
  rw [sites, Node.sitesOnto_eq_cons, sites, ← Node.sitesOnto_wrap]
  rfl

/-- The table of groups of the wrapped tree. -/
theorem groups_wrap :
    pattern.wrap.groups =
      pattern.groups.map fun group => (group.1, group.2.wrap pattern.wrap.root) := by
  have hgroups (other : Pattern) : other.groups = other.sites.filterMap Site.numbered? := rfl
  have hroot : (Site.mk pattern.wrap.root []).numbered? = none := rfl
  rw [hgroups, sites_wrap, List.filterMap_cons_none hroot, List.filterMap_map, hgroups,
    List.map_filterMap]
  exact List.filterMap_congr fun site _ => site.numbered?_wrap pattern.wrap.root

/-- A group stands three characters further to the right in the wrapped tree. -/
theorem positions_wrap :
    pattern.wrap.groups.map (fun group => (group.1, group.2.position)) =
      pattern.groups.map fun group => (group.1, group.2.position + 3) := by
  rw [groups_wrap, List.map_map]
  refine List.map_congr_left fun ⟨number, site⟩ hmem => ?_
  have hkind : site.node.kind = .group (some number) := (mem_groups_iff.1 hmem).2
  have hposition : site.node.wrap.position = site.node.position + 3 :=
    Node.wrap_position fun hsequence => nomatch hkind.symm.trans hsequence
  exact congrArg (Prod.mk number) hposition

/-- The wrapped tree has a string reference if the tree has one. -/
theorem hasStringRef_wrap : pattern.wrap.hasStringRef = pattern.hasStringRef := by
  rw [hasStringRef, sites_wrap, List.any_cons, List.any_map]
  refine (Bool.false_or _).trans (congrArg pattern.sites.any (funext fun site => ?_))
  obtain ⟨⟨label, kind, children⟩, ancestors⟩ := site
  cases kind <;> rfl

variable {pattern}

/-- The structural rule rejects the same references, three characters further to the right. -/
theorem checkPlacement_wrap :
    pattern.wrap.checkPlacement = pattern.checkPlacement.mapError Rejection.wrap := by
  have hroot (groups : List (Nat × Site)) :
      (Site.mk pattern.wrap.root []).misplaced? groups = none := rfl
  have hfind : pattern.wrap.sites.findSome? (Site.misplaced? pattern.wrap.groups) =
      (pattern.sites.findSome? (Site.misplaced? pattern.groups)).map Rejection.wrap := by
    rw [sites_wrap, List.findSome?_cons, hroot, groups_wrap, List.findSome?_map,
      List.map_findSome?]
    have hkind : ¬ pattern.wrap.root.kind.isOptional := Bool.false_ne_true
    refine congrArg (List.findSome? · pattern.sites) (funext fun site => ?_)
    exact site.misplaced?_wrap rfl hkind pattern.groups
  rw [checkPlacement, checkPlacement]
  simp only [hfind]
  cases pattern.sites.findSome? (Site.misplaced? pattern.groups) <;> rfl

/-- The path-sensitive rule finds the same, three characters further to the right. Entering the new
root takes one move and no fork. -/
theorem checkPaths_wrap {text : String} (h : Pattern.parse text = .ok pattern) (limit : Nat) :
    pattern.wrap.checkPaths limit = (pattern.checkPaths limit).mapError Rejection.wrap := by
  by_cases href : pattern.hasStringRef
  · have href' : pattern.wrap.hasStringRef := pattern.hasStringRef_wrap.trans href
    have hrelevant : pattern.wrap.root.isRelevant := by
      obtain ⟨site, hsite, group, hkind⟩ := hasStringRef_iff.1 href'
      refine decide_eq_true ⟨site.node, mem_subtree_root.2 ⟨site, hsite, rfl⟩, ?_⟩
      rw [show site.node.kind = _ from hkind]
      rfl
    have hnext : (Search.start pattern.wrap).next Node.isRelevant limit =
        .running (Search.start pattern).wrap := by
      have hmove : (Path.start pattern.wrap).move Node.isRelevant =
          .advances (Path.start pattern).wrap [] := if_pos hrelevant
      simp [Search.start, Search.next, hmove, Search.kept, Search.wrap]
    rw [checkPaths_eq_run (parse_wrap h) href', checkPaths_eq_run h href,
      Search.run_of_running hnext, Search.run_wrap]
  · -- Without a string reference nothing is searched in either tree.
    have href' : ¬ pattern.wrap.hasStringRef := by rwa [hasStringRef_wrap]
    rw [checkPaths, checkPaths, if_neg href, if_neg href']
    rfl

end Pattern

namespace Config

/-- Both rules find the same in the wrapped tree, three characters further to the right. -/
theorem check_wrap {text : String} {pattern : Pattern} (h : Pattern.parse text = .ok pattern)
    (config : Config) :
    config.check pattern.wrap = (config.check pattern).mapError Rejection.wrap := by
  obtain ⟨maxPaths, workers, rule⟩ := config
  cases rule with
  | pathSensitive => exact Pattern.checkPaths_wrap h maxPaths
  | structural => exact Pattern.checkPlacement_wrap

/-- A group that does not capture makes no difference. The pattern in `(?:` and `)` is accepted by
the same rule with the same limit, or rejected for the same limit, or for the same group at the same
reference, which stands three characters further to the right. If it is accepted, its groups have
the same numbers, and each of them starts three characters further to the right. -/
theorem validate_wrap {text : String} {pattern : Pattern} (h : Pattern.parse text = .ok pattern)
    (maxPaths : Nat) (rule : Rule) :
    ((∃ accepted, (Config.mk maxPaths 1 rule).validate ("(?:" ++ text ++ ")") = .ok accepted) ↔
      ∃ accepted, (Config.mk maxPaths 1 rule).validate text = .ok accepted) ∧
    (∀ limit,
      (Config.mk maxPaths 1 rule).validate ("(?:" ++ text ++ ")") = .error (.pathLimit limit) ↔
        (Config.mk maxPaths 1 rule).validate text = .error (.pathLimit limit)) ∧
    (∀ group index,
      (Config.mk maxPaths 1 rule).validate ("(?:" ++ text ++ ")") =
          .error (.uninitialized group (index + 3)) ↔
        (Config.mk maxPaths 1 rule).validate text = .error (.uninitialized group index)) ∧
    (∀ group index,
      (Config.mk maxPaths 1 rule).validate ("(?:" ++ text ++ ")") =
        .error (.uninitialized group index) → 3 ≤ index) ∧
    ∀ accepted wrapped, (Config.mk maxPaths 1 rule).validate text = .ok accepted →
      (Config.mk maxPaths 1 rule).validate ("(?:" ++ text ++ ")") = .ok wrapped →
      wrapped.groups.map (fun group => (group.1, group.2.position)) =
        accepted.groups.map fun group => (group.1, group.2.position + 3) := by
  have hwrap := Pattern.parse_wrap h
  simp only [validate_eq_ok_iff h, validate_eq_ok_iff hwrap, validate_eq_error_iff h,
    validate_eq_error_iff hwrap, check_wrap h]
  have hgroups := pattern.positions_wrap
  cases (Config.mk maxPaths 1 rule).check pattern with
  | ok _ => simp [Except.mapError, hgroups]
  | error rejection =>
      cases rejection <;> simp [Except.mapError, Rejection.wrap]

/-- In `a|(b)(?:(c)|d)\2` the reference at index 14 can be reached without the group that it names.
Inside a group it stands at index 17, and the first bar belongs to that group. -/
theorem validate_wrap_alternation :
    ∃ pattern, Pattern.parse "a|(b)(?:(c)|d)\\2" = .ok pattern ∧
      (Config.mk 2 1 .pathSensitive).validate "a|(b)(?:(c)|d)\\2" =
        .error (.uninitialized 2 14) ∧
      (Config.mk 2 1 .pathSensitive).validate ("(?:" ++ "a|(b)(?:(c)|d)\\2" ++ ")") =
        .error (.uninitialized 2 17) := by
  obtain ⟨pattern, hparse, hcheck⟩ : ∃ pattern,
      Pattern.parse "a|(b)(?:(c)|d)\\2" = .ok pattern ∧
        (Config.mk 2 1 .pathSensitive).check pattern = .error (.uninitialized 2 14) :=
    ⟨_, rfl, by decide +kernel⟩
  have hrejected : (Config.mk 2 1 .pathSensitive).validate "a|(b)(?:(c)|d)\\2" =
      .error (.uninitialized 2 14) := (validate_eq_error_iff hparse).2 hcheck
  obtain ⟨_, _, huninitialized, _⟩ := validate_wrap hparse 2 .pathSensitive
  exact ⟨pattern, hparse, hrejected, (huninitialized 2 14).2 hrejected⟩

end Config

end Backref
