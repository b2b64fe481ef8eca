import Backref.Proofs.Pattern.Subtree
import Backref.Reference.Relevance

/-!
# Relevant nodes are marked

The way up from a group or a reference stops at the first marked node, because the nodes above a
marked node are marked as well. `Pattern.isMarked_relevance_iff` says that nothing is missed: a
node is marked exactly when its subtree uses a group.
-/

namespace Backref

/-- A group is set or read at the node or below it. -/
def Node.UsesGroups (node : Node) : Prop := ∃ inner ∈ node.subtree, inner.kind.usesGroup

namespace Relevance

/-- Setting one mark adds the nodes with that identifier. -/
theorem isMarked_setIfInBounds {marks : Array Bool} {id : Nat} (hid : id < marks.size)
    (node : Node) :
    isMarked (marks.setIfInBounds id true) node ↔ node.id = id ∨ isMarked marks node := by
  unfold isMarked
  rw [Array.getD_eq_getD_getElem?, Array.getD_eq_getD_getElem?, Array.getElem?_setIfInBounds]
  by_cases hsame : id = node.id
  · simp [← hsame, hid]
  · simp [hsame, Ne.symm hsame]

/-- Marking upwards keeps the size of the marks. -/
theorem size_markUp (marks : Array Bool) (path : List Node) :
    (markUp marks path).size = marks.size := by
  induction path generalizing marks with
  | nil => rfl
  | cons node path ih =>
      unfold markUp
      split
      · rfl
      · rw [ih, Array.size_setIfInBounds]

/-- The nodes above a marked node of the path are marked. -/
def ClosedAlong (marks : Array Bool) (path : List Node) : Prop :=
  ∀ front node up, path = front ++ node :: up → isMarked marks node →
    ∀ above ∈ up, isMarked marks above

section

variable {pattern : Pattern} (hids : pattern.HasDenseIds)

include hids

/-- Marking a node keeps the nodes above it closed. -/
theorem ClosedAlong.setIfInBounds {marks : Array Bool} {node : Node} {path : List Node}
    (hclosed : ClosedAlong marks (node :: path)) (hsize : marks.size = pattern.size)
    (hsite : ⟨node, path⟩ ∈ pattern.sites) :
    ClosedAlong (marks.setIfInBounds node.id true) path := by
  have hid : node.id < marks.size := hsize ▸ hids.id_lt hsite
  intro front inner up hpath hinner above habove
  rw [isMarked_setIfInBounds hid] at hinner ⊢
  rcases hinner with hinner | hinner
  · -- A node above cannot have the identifier of the node itself.
    have hinnerSite : ⟨inner, up⟩ ∈ pattern.sites := by
      have hbelow : Site.path ⟨node, path⟩ = (node :: front) ++ inner :: up := by
        rw [Site.path, hpath, List.cons_append]
      exact (Pattern.mem_sites_of_path hsite hbelow).1
    have hsame := hids.eq_of_id_eq hinnerSite hsite hinner
    obtain ⟨_, hup⟩ := Site.mk.inj hsame
    have hlength := congrArg List.length hpath
    rw [List.length_append, List.length_cons, ← hup] at hlength
    omega
  · refine .inr (hclosed (node :: front) inner up ?_ hinner above habove)
    rw [hpath, List.cons_append]

/-- Marking upwards marks the whole path. -/
theorem isMarked_markUp {marks : Array Bool} {path : List Node}
    (hclosed : ClosedAlong marks path) (hsize : marks.size = pattern.size) {bottom : Site}
    (hbottom : bottom ∈ pattern.sites) (hpath : path <:+ bottom.path) {site : Site}
    (hsite : site ∈ pattern.sites) :
    isMarked (markUp marks path) site.node ↔
      isMarked marks site.node ∨ site.node ∈ path := by
  induction path generalizing marks with
  | nil => simp [markUp]
  | cons node path ih =>
      have hnode : ⟨node, path⟩ ∈ pattern.sites := by
        obtain ⟨front, hfront⟩ := hpath
        exact (Pattern.mem_sites_of_path hbottom hfront.symm).1
      have hid : node.id < marks.size := hsize ▸ hids.id_lt hnode
      unfold markUp
      split
      · next hmarked =>
          have habove := hclosed [] node path rfl hmarked
          constructor
          · exact .inl
          · rintro (hmem | hmem)
            · exact hmem
            · rcases List.mem_cons.1 hmem with heq | hmem
              · exact heq ▸ hmarked
              · exact habove _ hmem
      · rw [ih (hclosed.setIfInBounds hids hsize hnode) (by simpa using hsize)
          ((List.suffix_cons node path).trans hpath), isMarked_setIfInBounds hid, List.mem_cons]
        have hsame : site.node.id = node.id ↔ site.node = node := by
          constructor
          · intro h
            have heq := hids.eq_of_id_eq hsite hnode h
            rw [heq]
          · exact fun h => by rw [h]
        rw [hsame, or_comm (a := site.node = node), or_assoc]

end

/-- The marks of a pattern after the given sites: the nodes from each site that uses a group
upwards. -/
structure Marked (pattern : Pattern) (marks : Array Bool) (done : List Site) : Prop where
  size_eq : marks.size = pattern.size
  isMarked_iff : ∀ site ∈ pattern.sites, isMarked marks site.node ↔
    ∃ user ∈ done, user.kind.usesGroup ∧ site.node ∈ user.path

namespace Marked

variable {pattern : Pattern} {marks : Array Bool} {done : List Site}

/-- At first nothing is marked. -/
theorem start (pattern : Pattern) : Marked pattern (Array.replicate pattern.size false) [] := by
  refine ⟨Array.size_replicate, fun site _ => iff_of_false ?_ ?_⟩
  · intro h
    rw [isMarked, Array.getD_eq_getD_getElem?, Array.getElem?_replicate] at h
    split at h <;> cases h
  · rintro ⟨user, hmem, _⟩
    cases hmem

/-- The marks are closed upwards along the path of each site. -/
theorem closedAlong (h : Marked pattern marks done) (hids : pattern.HasDenseIds)
    (hdone : done ⊆ pattern.sites) {site : Site} (hsite : site ∈ pattern.sites) :
    ClosedAlong marks site.path := by
  intro front node up hpath hnode above habove
  have hnodeSite := (Pattern.mem_sites_of_path hsite hpath).1
  obtain ⟨user, huser, huses, hmem⟩ := (h.isMarked_iff ⟨node, up⟩ hnodeSite).1 hnode
  obtain ⟨before, after, huserPath⟩ := List.append_of_mem hmem
  -- Both paths go on in the same way above the node.
  have hsame := hids.eq_of_id_eq (Pattern.mem_sites_of_path (hdone huser) huserPath).1 hnodeSite rfl
  obtain rfl : after = up := (Site.mk.inj hsame).2
  have haboveUser : above ∈ user.path := by
    rw [huserPath]
    exact List.mem_append_right _ (List.mem_cons_of_mem _ habove)
  obtain ⟨lower, upper, hsplit⟩ := List.append_of_mem haboveUser
  have haboveSite := (Pattern.mem_sites_of_path (hdone huser) hsplit).1
  exact (h.isMarked_iff ⟨above, upper⟩ haboveSite).2 ⟨user, huser, huses, haboveUser⟩

/-- One more site adds its path if it uses a group. -/
theorem markSite (h : Marked pattern marks done) (hids : pattern.HasDenseIds)
    (hdone : done ⊆ pattern.sites) {next : Site} (hnext : next ∈ pattern.sites) :
    Marked pattern (markSite marks next) (done ++ [next]) := by
  unfold Relevance.markSite
  by_cases huses : next.kind.usesGroup
  · rw [if_pos huses]
    refine ⟨(size_markUp _ _).trans h.size_eq, fun site hsite => ?_⟩
    have hclosed := h.closedAlong hids hdone hnext
    have hmarks := isMarked_markUp hids hclosed h.size_eq hnext (List.suffix_refl _) hsite
    refine hmarks.trans ?_
    rw [h.isMarked_iff site hsite]
    constructor
    · rintro (⟨user, huser, hmem⟩ | hmem)
      · exact ⟨user, List.mem_append_left _ huser, hmem⟩
      · exact ⟨next, List.mem_append_right _ (List.mem_singleton.2 rfl), huses, hmem⟩
    · rintro ⟨user, huser, hmem⟩
      rcases List.mem_append.1 huser with huser | huser
      · exact .inl ⟨user, huser, hmem⟩
      · obtain rfl := List.mem_singleton.1 huser
        exact .inr hmem.2
  · rw [if_neg huses]
    refine ⟨h.size_eq, fun site hsite => ?_⟩
    rw [h.isMarked_iff site hsite]
    constructor
    · rintro ⟨user, huser, hmem⟩
      exact ⟨user, List.mem_append_left _ huser, hmem⟩
    · rintro ⟨user, huser, hmem⟩
      rcases List.mem_append.1 huser with huser | huser
      · exact ⟨user, huser, hmem⟩
      · obtain rfl := List.mem_singleton.1 huser
        exact absurd hmem.1 huses

/-- Some more sites add their paths. -/
theorem foldl (h : Marked pattern marks done) (hids : pattern.HasDenseIds)
    (hdone : done ⊆ pattern.sites) {sites : List Site} (hsites : sites ⊆ pattern.sites) :
    Marked pattern (sites.foldl Relevance.markSite marks) (done ++ sites) := by
  induction sites generalizing marks done with
  | nil => rwa [List.append_nil]
  | cons next sites ih =>
      obtain ⟨hnext, hsites⟩ := List.cons_subset.1 hsites
      rw [List.foldl_cons, List.append_cons]
      refine ih (h.markSite hids hdone hnext) ?_ hsites
      exact List.append_subset.2 ⟨hdone, List.cons_subset.2 ⟨hnext, List.nil_subset _⟩⟩

end Marked

end Relevance

/-- A node is marked exactly when a group is set or read at it or below it. -/
theorem Pattern.isMarked_relevance_iff {pattern : Pattern} (hids : pattern.HasDenseIds)
    {node : Node} (hnode : node ∈ pattern.root.subtree) :
    Relevance.isMarked pattern.relevance node ↔ node.UsesGroups := by
  obtain ⟨site, hsite, rfl⟩ := mem_subtree_root.1 hnode
  have hmarked := (Relevance.Marked.start pattern).foldl hids (List.nil_subset _)
    (List.Subset.refl pattern.sites)
  rw [List.nil_append] at hmarked
  refine (hmarked.isMarked_iff site hsite).trans ?_
  constructor
  · rintro ⟨user, huser, huses, hmem⟩
    obtain ⟨front, up, hpath⟩ := List.append_of_mem hmem
    exact ⟨user.node, (Pattern.mem_sites_of_path huser hpath).2, huses⟩
  · rintro ⟨inner, hinner, huses⟩
    obtain ⟨user, huser, rfl, hmem⟩ := Pattern.exists_site_of_mem_subtree hsite hinner
    exact ⟨user, huser, huses, hmem⟩

end Backref
