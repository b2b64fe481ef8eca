import Backref.Proofs.Reference.Flow
import Mathlib.Logic.Relation

/-!
# The ends of paths

The search keeps one set for each path, and it runs a loop again only after the set has grown.
Still its paths end with the same sets as the walks that violate nothing: a run of a loop that does
not change the set can be left out (`Path.Runs.again`). So the search and the analysis
over sets of states come to the same verdict and, if they accept, to the same sets, which is what
`Config.check_eq_ok_iff_flow` says.
-/

namespace Backref

/-- Sets with the same members are equal. -/
theorem GroupSet.toFinset_injective {first second : GroupSet}
    (h : first.toFinset = second.toFinset) : first = second := by
  refine ext_contains fun group => ?_
  rw [Bool.eq_iff_iff, ← mem_toFinset, ← mem_toFinset, h]

namespace Path

/-- One of the ways that part from the first path comes to the second one. -/
def Leads (relevant : Node → Bool) : Path → Path → Prop :=
  Relation.ReflTransGen fun path other =>
    ∃ next forks, path.move relevant = .advances next forks ∧ other ∈ next :: forks

variable {root : Node} {relevant : Node → Bool} {path next other last : Path} {forks : List Path}

/-- A way that goes on after a move. -/
theorem Leads.of_move (hmove : path.move relevant = .advances next forks)
    (hother : other ∈ next :: forks) (h : other.Leads relevant last) :
    path.Leads relevant last :=
  .head ⟨next, forks, hmove, hother⟩ h

/-- A way that goes on after a move without forks. -/
theorem Leads.of_follow (hmove : path.move relevant = .advances next [])
    (h : next.Leads relevant last) : path.Leads relevant last :=
  h.of_move hmove List.mem_cons_self

/-- From a path that has come to its end there is no way on. -/
theorem leads_iff_of_finished (hmove : path.move relevant = .finished) :
    path.Leads relevant last ↔ last = path := by
  constructor
  · intro h
    rcases Relation.ReflTransGen.cases_head h with hsame | ⟨_, ⟨_, _, hother, _⟩, _⟩
    · exact hsame.symm
    · exact nomatch hmove.symm.trans hother
  · intro h
    exact h ▸ .refl

/-- The ways from a path to an end are those of the paths that come out of its move. -/
theorem leads_iff_of_advances (hmove : path.move relevant = .advances next forks)
    {matched : GroupSet} :
    path.Leads relevant ⟨matched, []⟩ ↔
      ∃ other ∈ next :: forks, other.Leads relevant ⟨matched, []⟩ := by
  constructor
  · intro h
    rcases Relation.ReflTransGen.cases_head h with rfl | ⟨other, ⟨_, _, hmoves, hother⟩, h⟩
    · cases hmove
    · obtain ⟨rfl, rfl⟩ := Move.advances.inj (hmove.symm.trans hmoves)
      exact ⟨other, hother, h⟩
  · intro h
    obtain ⟨other, hother, h⟩ := h
    exact h.of_move hmove hother

/-! ## Ways are walks -/

/-- A way that comes to its end is a walk through the tasks that violates nothing. -/
theorem Leads.walkThrough {matched : GroupSet} (h : path.Leads relevant ⟨matched, []⟩)
    (hroot : root.Explorable relevant) (hwithin : path.Within root) :
    Task.WalkThrough path.pending path.matched.toFinset [] matched.toFinset := by
  induction h using Relation.ReflTransGen.head_induction_on with
  | refl => exact .nil
  | head hstep _ ih =>
      obtain ⟨next, forks, hmove, hother⟩ := hstep
      have hmoves := moves_of_move_eq hmove
      exact hmoves.walkThrough hroot hwithin hother
        (ih (hmoves.within hroot.groupsFit hwithin _ hother))

/-! ## Walks are ways -/

/-- Some way performs the tasks, whatever comes after them, and turns the first set into the second
one. -/
def Performs (relevant : Node → Bool) (tasks : List Task) (matched : GroupSet)
    (matched' : Finset Nat) : Prop :=
  ∃ after : GroupSet, after.toFinset = matched' ∧
    ∀ rest, (Path.mk matched (tasks ++ rest)).Leads relevant ⟨after, rest⟩

namespace Performs

variable {node : Node} {matched : GroupSet} {middle matched' : Finset Nat}

/-- Tasks are performed one after the other. -/
theorem append {tasks tasks' : List Task} (h : Performs relevant tasks matched middle)
    (h' : ∀ after : GroupSet, after.toFinset = middle → Performs relevant tasks' after matched') :
    Performs relevant (tasks ++ tasks') matched matched' := by
  obtain ⟨after, hafter, hfirst⟩ := h
  obtain ⟨last, hlast, hsecond⟩ := h' after hafter
  refine ⟨last, hlast, fun rest => ?_⟩
  rw [List.append_assoc]
  exact (hfirst (tasks' ++ rest)).trans (hsecond rest)

/-- A node that is not relevant is passed over, and a walk through it changes nothing either. -/
theorem of_relevant (hroot : root.Explorable relevant) (hnode : node ∈ root.subtree)
    (hwalk : node.Walk matched.toFinset [] matched')
    (h : relevant node → Performs relevant [.visit node] matched matched') :
    Performs relevant [.visit node] matched matched' := by
  by_cases hrelevant : relevant node
  · exact h hrelevant
  · obtain ⟨_, rfl⟩ := hwalk.idle fun huses => hrelevant ((hroot.relevant_iff _ hnode).2 huses)
    exact ⟨matched, rfl, fun rest => .of_follow (move_skip hrelevant matched rest) .refl⟩

/-- A node that is entered without a change. -/
theorem of_enter (hrelevant : relevant node)
    (henter : ∀ rest, enter node matched rest = follow matched rest) :
    Performs relevant [.visit node] matched matched.toFinset := by
  refine ⟨matched, rfl, fun rest => ?_⟩
  exact .of_follow ((move_visit hrelevant matched rest).trans (henter rest)) .refl

/-- A node that does what its children do. -/
theorem of_children (hrelevant : relevant node)
    (henter : ∀ rest, enter node matched rest = follow matched (node.children.map .visit ++ rest))
    (h : Performs relevant (node.children.map .visit) matched matched') :
    Performs relevant [.visit node] matched matched' := by
  obtain ⟨after, hafter, hbody⟩ := h
  refine ⟨after, hafter, fun rest => ?_⟩
  exact .of_follow ((move_visit hrelevant matched rest).trans (henter rest)) (hbody rest)

/-- A capturing group records itself after its body. -/
theorem capturing {label : Label} {group : Nat} {children : List Node}
    (hrelevant : relevant ⟨label, .group (some group), children⟩) (hgroup : group < 16)
    (h : Performs relevant (children.map .visit) matched matched') :
    Performs relevant [.visit ⟨label, .group (some group), children⟩] matched
      (insert group matched') := by
  obtain ⟨after, rfl, hbody⟩ := h
  refine ⟨after.insert group, GroupSet.toFinset_insert after hgroup, fun rest => ?_⟩
  have hcapture : (Path.mk after (.capture group :: rest)).Leads relevant
      ⟨after.insert group, rest⟩ := .of_follow rfl .refl
  exact .of_follow (move_visit hrelevant matched rest)
    ((hbody (.capture group :: rest)).trans hcapture)

/-- An alternation offers each of its branches. -/
theorem alternation {label : Label} {children : List Node} {branch : Node}
    (hrelevant : relevant ⟨label, .alternation, children⟩) (hbranch : branch ∈ children)
    (h : Performs relevant [.visit branch] matched matched') :
    Performs relevant [.visit ⟨label, .alternation, children⟩] matched matched' := by
  obtain ⟨after, hafter, hways⟩ := h
  refine ⟨after, hafter, fun rest => ?_⟩
  cases children with
  | nil => cases hbranch
  | cons first others =>
      have hother : Path.mk matched (.visit branch :: rest) ∈
          (first :: others).map fun child => Path.mk matched (.visit child :: rest) :=
        List.mem_map_of_mem hbranch
      exact (hways rest).of_move (move_visit hrelevant matched rest) hother

end Performs

/-- The ways from the start of a loop's body to the end of the loop turn the first set into the
second one, or both are the same and the loop can be passed over. -/
def Runs (relevant : Node → Bool) (loop : Node) (matched : GroupSet) (matched' : Finset Nat) :
    Prop :=
  ∃ after : GroupSet, after.toFinset = matched' ∧ (after = matched ∨ ∀ rest,
    (Path.mk matched (loop.children.map .visit ++ .reenter loop matched :: rest)).Leads relevant
      ⟨after, rest⟩)

/-- A loop that is offered is left at once or after its runs. -/
theorem Runs.exists_leads {loop : Node} {matched : GroupSet} {matched' : Finset Nat}
    (h : Runs relevant loop matched matched') :
    ∃ after : GroupSet, after.toFinset = matched' ∧ ∀ (path : Path) (rest : List Task),
      path.move relevant = iterate loop matched rest → path.Leads relevant ⟨after, rest⟩ := by
  obtain ⟨after, hafter, hways⟩ := h
  refine ⟨after, hafter, fun path rest hoffer => ?_⟩
  rcases hways with rfl | hways
  · exact Leads.of_move hoffer (List.mem_cons_of_mem _ List.mem_cons_self) .refl
  · exact (hways rest).of_move hoffer List.mem_cons_self

/-- A run of the body that does not change the set is not needed, and when one has changed the set
the loop is offered again. -/
theorem Runs.again {loop : Node} {matched : GroupSet} {middle matched' : Finset Nat}
    (hbody : Performs relevant (loop.children.map .visit) matched middle)
    (hlater : ∀ after : GroupSet, after.toFinset = middle → Runs relevant loop after matched') :
    Runs relevant loop matched matched' := by
  obtain ⟨after, hafter, hbody⟩ := hbody
  by_cases hgrown : after = matched
  · exact hgrown ▸ hlater after hafter
  · obtain ⟨last, hlast, hways⟩ := (hlater after hafter).exists_leads
    refine ⟨last, hlast, .inr fun rest => ?_⟩
    exact (hbody (.reenter loop matched :: rest)).trans (hways _ rest (move_reenter hgrown rest))

/-- A loop that is relevant is offered. -/
theorem Performs.repetition {label : Label} {children : List Node} {matched : GroupSet}
    {matched' : Finset Nat} (hrelevant : relevant ⟨label, .repetition, children⟩)
    (h : Runs relevant ⟨label, .repetition, children⟩ matched matched') :
    Performs relevant [.visit ⟨label, .repetition, children⟩] matched matched' := by
  obtain ⟨after, hafter, hways⟩ := h.exists_leads
  exact ⟨after, hafter, fun rest => hways _ rest (move_visit hrelevant matched rest)⟩

end Path

mutual

/-- A walk through a node that violates nothing is one of the ways of a path. -/
theorem Node.Walk.performs {root : Node} {relevant : Node → Bool}
    (hroot : root.Explorable relevant) :
    ∀ {node : Node} {matched matched' : Finset Nat} {violations : List Violation},
      node.Walk matched violations matched' → node ∈ root.subtree → violations = [] →
      ∀ set : GroupSet, set.toFinset = matched → Path.Performs relevant [.visit node] set matched'
  | _, _, _, _, .literal, hnode, _, set, hset => by
      subst hset
      refine .of_relevant hroot hnode .literal fun hrelevant => ?_
      exact .of_enter hrelevant fun _ => rfl
  | _, _, _, _, .expressionRef, hnode, _, set, hset => by
      subst hset
      refine .of_relevant hroot hnode .expressionRef fun hrelevant => ?_
      exact .of_enter hrelevant fun _ => rfl
  | _, _, _, _, .read hread, hnode, _, set, hset => by
      subst hset
      refine .of_relevant hroot hnode (.read hread) fun hrelevant => ?_
      exact .of_enter hrelevant fun _ => if_pos (GroupSet.mem_toFinset.1 hread)
  | _, _, _, _, .violate _, _, hnone, _, _ => nomatch hnone
  | _, _, _, _, .sequence hwalk, hnode, hnone, set, hset => by
      have hbody := hwalk.performs hroot (Node.children_subset hnode) hnone set hset
      subst hset hnone
      refine .of_relevant hroot hnode (.sequence hwalk) fun hrelevant => ?_
      exact .of_children hrelevant (fun _ => rfl) hbody
  | _, _, _, _, .branch hwalk, hnode, hnone, set, hset => by
      have hbody := hwalk.performs hroot (Node.children_subset hnode) hnone set hset
      subst hset hnone
      refine .of_relevant hroot hnode (.branch hwalk) fun hrelevant => ?_
      exact .of_children hrelevant (fun _ => rfl) hbody
  | _, _, _, _, .nonCapturing hwalk, hnode, hnone, set, hset => by
      have hbody := hwalk.performs hroot (Node.children_subset hnode) hnone set hset
      subst hset hnone
      refine .of_relevant hroot hnode (.nonCapturing hwalk) fun hrelevant => ?_
      exact .of_children hrelevant (fun _ => rfl) hbody
  | _, _, _, _, .capturing hwalk, hnode, hnone, set, hset => by
      have hbody := hwalk.performs hroot (Node.children_subset hnode) hnone set hset
      have hgroup := hroot.groupsFit _ hnode _ rfl
      subst hset hnone
      refine .of_relevant hroot hnode (.capturing hwalk) fun hrelevant => ?_
      exact .capturing hrelevant hgroup hbody
  | _, _, _, _, .alternation hbranch hwalk, hnode, hnone, set, hset => by
      have hinner := hwalk.performs hroot (Node.children_subset hnode _ hbranch) hnone set hset
      subst hset hnone
      refine .of_relevant hroot hnode (.alternation hbranch hwalk) fun hrelevant => ?_
      exact .alternation hrelevant hbranch hinner
  | ⟨label, _, _⟩, _, _, _, .repetition hiterations, hnode, hnone, set, hset => by
      have hruns := hiterations.runs hroot label (Node.children_subset hnode) hnone set hset
      subst hset hnone
      refine .of_relevant hroot hnode (.repetition hiterations) fun hrelevant => ?_
      exact .repetition hrelevant hruns

/-- A walk through some nodes that violates nothing is one of the ways of a path. -/
theorem Node.WalkThrough.performs {root : Node} {relevant : Node → Bool}
    (hroot : root.Explorable relevant) :
    ∀ {nodes : List Node} {matched matched' : Finset Nat} {violations : List Violation},
      WalkThrough nodes matched violations matched' → (∀ node ∈ nodes, node ∈ root.subtree) →
      violations = [] → ∀ set : GroupSet, set.toFinset = matched →
      Path.Performs relevant (nodes.map .visit) set matched'
  | _, _, _, _, .nil, _, _, set, hset => ⟨set, hset, fun _ => .refl⟩
  | _, _, _, _, .cons hnode hnodes, hwithin, hnone, set, hset => by
      obtain ⟨hfirst, hothers⟩ := List.forall_mem_cons.1 hwithin
      obtain ⟨hnone, hnone'⟩ := List.append_eq_nil_iff.1 hnone
      exact (hnode.performs hroot hfirst hnone set hset).append
        (hnodes.performs hroot hothers hnone')

/-- When the runs of a loop violate nothing, the ways of a path come to the same set. -/
theorem Node.Iterations.runs {root : Node} {relevant : Node → Bool}
    (hroot : root.Explorable relevant) (label : Label) :
    ∀ {body : List Node} {matched matched' : Finset Nat} {violations : List Violation},
      Iterations body matched violations matched' → (∀ node ∈ body, node ∈ root.subtree) →
      violations = [] → ∀ set : GroupSet, set.toFinset = matched →
      Path.Runs relevant ⟨label, .repetition, body⟩ set matched'
  | _, _, _, _, .stop, _, _, set, hset => ⟨set, hset, .inl rfl⟩
  | _, _, _, _, .again hbody hiterations, hwithin, hnone, set, hset => by
      obtain ⟨hnone, hnone'⟩ := List.append_eq_nil_iff.1 hnone
      exact .again (hbody.performs hroot hwithin hnone set hset)
        (hiterations.runs hroot label hwithin hnone')

end

/-! ## The ends of a search -/

namespace Search

variable {relevant : Node → Bool} {limit : Nat} {search search' : Search} {matched : GroupSet}

/-- The searches that a search comes to, step after step. -/
def Reaches (relevant : Node → Bool) (limit : Nat) : Search → Search → Prop :=
  Relation.ReflTransGen fun search search' => search.next relevant limit = .running search'

/-- The sets with which paths come to their end in the course of a search. -/
def finals (relevant : Node → Bool) (limit : Nat) (search : Search) : Set GroupSet :=
  {matched | ∃ later waiting,
    search.Reaches relevant limit later ∧ later.paths = ⟨matched, []⟩ :: waiting}

/-- No path comes to its end after a search is exhausted. -/
theorem notMem_finals_of_exhausted (hnext : search.next relevant limit = .exhausted) :
    matched ∉ search.finals relevant limit := by
  intro h
  obtain ⟨later, waiting, hreaches, hpaths⟩ := h
  rcases Relation.ReflTransGen.cases_head hreaches with rfl | ⟨_, hother, _⟩
  · exact nomatch (exhausted_cases hnext).symm.trans hpaths
  · exact nomatch hnext.symm.trans hother

/-- Before a step either the first path has come to its end, or one does after the step. -/
theorem mem_finals_of_running (hnext : search.next relevant limit = .running search') :
    matched ∈ search.finals relevant limit ↔
      (∃ waiting, search.paths = ⟨matched, []⟩ :: waiting) ∨
        matched ∈ search'.finals relevant limit := by
  constructor
  · intro h
    obtain ⟨later, waiting, hreaches, hpaths⟩ := h
    rcases Relation.ReflTransGen.cases_head hreaches with rfl | ⟨_, hother, hreaches⟩
    · exact .inl ⟨waiting, hpaths⟩
    · cases hnext.symm.trans hother
      exact .inr ⟨later, waiting, hreaches, hpaths⟩
  · intro h
    rcases h with ⟨waiting, hpaths⟩ | ⟨later, waiting, hreaches, hpaths⟩
    · exact ⟨search, waiting, .refl, hpaths⟩
    · exact ⟨later, waiting, .head hnext hreaches, hpaths⟩

/-- When a step drops no fork, the paths before it lead to the end that the first one has come to
and to those to which the paths after it lead. -/
theorem exists_leads_of_running (hnext : search.next relevant limit = .running search')
    (hdropped : search'.dropped = false) :
    (∃ path ∈ search.paths, path.Leads relevant ⟨matched, []⟩) ↔
      (∃ waiting, search.paths = ⟨matched, []⟩ :: waiting) ∨
        ∃ path ∈ search'.paths, path.Leads relevant ⟨matched, []⟩ := by
  obtain ⟨path, waiting, hpaths, ⟨hmove, rfl⟩ | ⟨path', forks, hmove, rfl⟩⟩ := next_cases hnext
  · rw [hpaths, List.exists_mem_cons_iff, Path.leads_iff_of_finished hmove]
    refine or_congr_left ⟨fun hsame => ⟨waiting, hsame ▸ rfl⟩, fun hfirst => ?_⟩
    obtain ⟨_, hfirst⟩ := hfirst
    exact (List.cons.inj hfirst).1.symm
  · replace hdropped := of_decide_eq_false (Bool.or_eq_false_iff.1 hdropped).2
    have hkept := Nat.not_lt.1 hdropped
    have hafter : ∀ other, other ∈ path' :: (kept limit search.forks forks ++ waiting) ↔
        other ∈ path' :: forks ∨ other ∈ waiting := by
      intro other
      rw [List.mem_cons, List.mem_append, mem_kept hkept, List.mem_cons, or_assoc]
    have hfirst : ¬ ∃ others, search.paths = ⟨matched, []⟩ :: others := by
      intro hfirst
      obtain ⟨_, hfirst⟩ := hfirst
      obtain ⟨rfl, _⟩ := List.cons.inj (hpaths.symm.trans hfirst)
      cases hmove
    rw [or_iff_right hfirst, hpaths, List.exists_mem_cons_iff, Path.leads_iff_of_advances hmove]
    simp only [hafter, or_and_right, exists_or]

/-- A search that accepts has followed every way to its end. -/
theorem mem_finals_of_run_eq_ok (h : search.run relevant limit = .ok ()) :
    matched ∈ search.finals relevant limit ↔
      ∃ path ∈ search.paths, path.Leads relevant ⟨matched, []⟩ := by
  induction h using run_ok_induction with
  | exhausted search _ hnext _ =>
      rw [exhausted_cases hnext]
      refine iff_of_false (notMem_finals_of_exhausted hnext) fun hpath => ?_
      obtain ⟨_, hpath, _⟩ := hpath
      cases hpath
  | running search search' _ h' hnext ih =>
      have hdropped := (run_eq_ok h').1
      rw [mem_finals_of_running hnext, ih, exists_leads_of_running hnext hdropped]

/-- A search that gives up has dropped a fork. -/
theorem exists_dropped_of_run_eq {given : Nat}
    (h : search.run relevant limit = .error (.pathLimit given)) :
    ∃ later, search.Reaches relevant limit later ∧ later.dropped := by
  induction search using Search.run.induct relevant limit with
  | case1 search hnext hdropped => exact ⟨search, .refl, hdropped⟩
  | case2 search hnext hdropped =>
      rw [run_of_exhausted hnext, if_neg hdropped] at h
      cases h
  | case3 search group position hnext =>
      rw [run_of_violated hnext] at h
      cases h
  | case4 search search' hnext ih =>
      rw [run_of_running hnext] at h
      obtain ⟨later, hreaches, hdropped⟩ := ih h
      exact ⟨later, .head hnext hreaches, hdropped⟩

/-- A search with enough room has it in its whole course. -/
theorem Roomy.reaches {later : Search} (h : search.Roomy relevant limit)
    (hreaches : search.Reaches relevant limit later) : later.Roomy relevant limit := by
  induction hreaches with
  | refl => exact h
  | tail _ hnext ih => exact ih.next hnext

end Search

namespace Pattern

variable {text : String} {pattern : Pattern} {limit : Nat}

/-- The sets with which paths through the pattern come to their end in its search. -/
def finals (pattern : Pattern) (limit : Nat) : Set GroupSet :=
  (Search.start pattern).finals (Relevance.isMarked pattern.relevance) limit

/-- The search of the pattern drops no fork in its whole course. -/
def KeepsForks (pattern : Pattern) (limit : Nat) : Prop :=
  ∀ search, (Search.start pattern).Reaches (Relevance.isMarked pattern.relevance) limit search →
    search.dropped = false

/-- A search whose limit is the number of complete ways drops no fork. -/
theorem keepsForks_of_forkBound_le (h : pattern.forkBound ≤ limit) : pattern.KeepsForks limit := by
  intro search hreaches
  have hstart : (Search.start pattern).Roomy (Relevance.isMarked pattern.relevance) limit :=
    Search.roomy_start (Nat.le_add_right_of_le h)
  exact (hstart.reaches hreaches).dropped_eq

/-- A search that drops no fork does not give up. -/
theorem KeepsForks.checkPaths_ne (h : pattern.KeepsForks limit) (given : Nat) :
    pattern.checkPaths limit ≠ .error (.pathLimit given) := by
  intro hlimit
  rw [checkPaths] at hlimit
  split at hlimit
  · obtain ⟨later, hreaches, hdropped⟩ := Search.exists_dropped_of_run_eq hlimit
    rw [h later hreaches] at hdropped
    cases hdropped
  · cases hlimit

/-- The ways from the start of the pattern to an end are the walks that violate nothing. -/
theorem leads_start_iff {relevant : Node → Bool} (hroot : pattern.root.Explorable relevant)
    {matched : GroupSet} :
    (Path.start pattern).Leads relevant ⟨matched, []⟩ ↔
      pattern.root.Walk ∅ [] matched.toFinset := by
  constructor
  · intro h
    exact GroupSet.toFinset_empty ▸ walk_of_start (h.walkThrough hroot pattern.within_start)
  · intro hwalk
    obtain ⟨last, hlast, hways⟩ := hwalk.performs hroot pattern.root.mem_subtree_self rfl .empty
      GroupSet.toFinset_empty
    exact GroupSet.toFinset_injective hlast ▸ hways []

/-- If the search accepts, its paths end with the sets with which the walks end. -/
theorem mem_finals_iff (h : Pattern.parse text = .ok pattern) (href : pattern.hasStringRef)
    (haccepted : pattern.checkPaths limit = .ok ()) {matched : GroupSet} :
    matched ∈ pattern.finals limit ↔ pattern.root.Walk ∅ [] matched.toFinset := by
  rw [checkPaths, if_pos href] at haccepted
  rw [finals, Search.mem_finals_of_run_eq_ok haccepted, ← leads_start_iff (explorable_of_parse h)]
  constructor
  · intro hpath
    obtain ⟨path, hpath, hleads⟩ := hpath
    obtain rfl := List.mem_singleton.1 hpath
    exact hleads
  · intro hleads
    exact ⟨Path.start pattern, List.mem_cons_self, hleads⟩

/-- The analysis that starts with the empty set collects the walks through the pattern. -/
theorem collects_flow (h : Pattern.parse text = .ok pattern) :
    Collects pattern.root.Walk {.empty} (pattern.root.flow {.empty}) :=
  Node.collects_flow (explorable_of_parse h) pattern.root pattern.root.mem_subtree_self _

/-- The analysis has a result exactly if no walk violates. -/
theorem exists_flow_iff (h : Pattern.parse text = .ok pattern) :
    (∃ states, pattern.root.flow {.empty} = some states) ↔ pattern.NeverViolates := by
  have hcollects := collects_flow h
  generalize pattern.root.flow {.empty} = outcome at hcollects ⊢
  cases hcollects with
  | fails hmatched hviolates hne =>
      obtain rfl := Finset.mem_singleton.1 hmatched
      rw [GroupSet.toFinset_empty] at hviolates
      exact iff_of_false (fun hsome => nomatch hsome) fun hnever => hne (hnever _ _ hviolates)
  | ends hsound _ =>
      refine iff_of_true ⟨_, rfl⟩ fun violations matched hwalk => ?_
      rw [← GroupSet.toFinset_empty] at hwalk
      exact (hsound _ (Finset.mem_singleton_self _) _ _ hwalk).1

/-- The result of the analysis are the sets with which the walks end. -/
theorem mem_flow_iff (h : Pattern.parse text = .ok pattern) {states : Finset GroupSet}
    (hflow : pattern.root.flow {.empty} = some states) {matched : GroupSet} :
    matched ∈ states ↔ pattern.root.Walk ∅ [] matched.toFinset := by
  have hcollects := collects_flow h
  rw [hflow] at hcollects
  cases hcollects with
  | ends hsound hcomplete =>
      rw [← GroupSet.toFinset_empty]
      constructor
      · intro hmatched
        obtain ⟨first, hfirst, hwalk⟩ := hcomplete matched hmatched
        obtain rfl := Finset.mem_singleton.1 hfirst
        exact hwalk
      · intro hwalk
        obtain ⟨_, after, hafter, hsame⟩ := hsound _ (Finset.mem_singleton_self _) _ _ hwalk
        exact GroupSet.toFinset_injective hsame ▸ hafter

end Pattern

/-- The search agrees with the analysis. The loops of the analysis come to an end from whatever
states. With one worker, and with a limit that drops no fork, a pattern that reads a group is
accepted exactly if the analysis has a result, and then the paths of the search end with the sets of
that result. -/
theorem Config.check_eq_ok_iff_flow {text : String} {pattern : Pattern}
    (h : Pattern.parse text = .ok pattern) (href : pattern.hasStringRef) {maxPaths : Nat}
    (hkept : pattern.KeepsForks maxPaths) :
    (∀ node ∈ pattern.root.subtree, node.kind = .repetition → ∀ states,
      Rounds (Node.flowThrough node.children) states (node.flow states)) ∧
    ((Config.mk maxPaths 1 .pathSensitive).check pattern = .ok () ↔
      ∃ states, pattern.root.flow {.empty} = some states) ∧
    ∀ states, pattern.root.flow {.empty} = some states → pattern.finals maxPaths = ↑states := by
  have hverdict : (Config.mk maxPaths 1 .pathSensitive).check pattern = .ok () ↔
      ∃ states, pattern.root.flow {.empty} = some states := by
    rw [Pattern.exists_flow_iff h]
    constructor
    · intro haccepted
      exact (neverViolates_of_validate h ((validate_eq_ok_iff h).2 ⟨haccepted, rfl⟩)).2
    · intro hnever
      have hlimit : (pathSensitive maxPaths).validate text ≠ .error (.pathLimit maxPaths) :=
        fun hrejected => hkept.checkPaths_ne maxPaths ((validate_eq_error_iff h).1 hrejected)
      have haccepted := validate_eq_ok_of_ne_pathLimit h hlimit hnever
      exact ((validate_eq_ok_iff h).1 haccepted).1
  refine ⟨?_, hverdict, ?_⟩
  · intro node _ hkind states
    obtain ⟨label, kind, children⟩ := node
    cases hkind
    exact rounds_closeUnder (Node.flowThrough children) states
  · intro states hflow
    have haccepted := hverdict.2 ⟨states, hflow⟩
    ext matched
    rw [Pattern.mem_finals_iff h href haccepted, Finset.mem_coe, Pattern.mem_flow_iff h hflow]

/-- In `(?:(a)*(?:(b)\2)*)*` the inner loops run again after the outer one has come round, and the
paths end with every set of the two groups. -/
theorem Config.check_eq_ok_iff_flow_nested :
    ∃ pattern, Pattern.parse "(?:(a)*(?:(b)\\2)*)*" = .ok pattern ∧ pattern.hasStringRef = true ∧
      pattern.KeepsForks pattern.forkBound ∧
      (Config.mk pattern.forkBound 1 .pathSensitive).check pattern = .ok () ∧
      pattern.finals pattern.forkBound = {.empty, GroupSet.empty.insert 1,
        GroupSet.empty.insert 2, (GroupSet.empty.insert 1).insert 2} := by
  obtain ⟨pattern, hparse, href, hflow⟩ : ∃ pattern,
      Pattern.parse "(?:(a)*(?:(b)\\2)*)*" = .ok pattern ∧ pattern.hasStringRef = true ∧
        pattern.root.flow {.empty} = some {.empty, GroupSet.empty.insert 1,
          GroupSet.empty.insert 2, (GroupSet.empty.insert 1).insert 2} :=
    ⟨_, rfl, by decide +kernel, by decide +kernel⟩
  have hkept := Pattern.keepsForks_of_forkBound_le (Nat.le_refl pattern.forkBound)
  obtain ⟨_, hverdict, hfinals⟩ := Config.check_eq_ok_iff_flow hparse href hkept
  refine ⟨pattern, hparse, href, hkept, hverdict.2 ⟨_, hflow⟩, ?_⟩
  rw [hfinals _ hflow]
  simp

end Backref
