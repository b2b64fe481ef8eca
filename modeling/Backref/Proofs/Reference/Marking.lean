import Backref.Proofs.Pattern.Ancestry
import Backref.Proofs.Reference.Relevance

/-!
# Marking in any order

`Pattern.relevance_exact` says which identifiers are marked as relevant: those from which lists of
children lead to a capturing group or a string reference. It does not matter in which order the
sites are gone through, and at any time the marks are closed upwards (`Pattern.MarksUpwards`), so
that a way up which stops at the first mark leaves out nothing.
-/

namespace Backref

/-- The identifier is marked. -/
def Relevance.Marks (marks : Array Bool) (id : Nat) : Prop := marks[id]? = some true

theorem Relevance.isMarked_iff_marks {marks : Array Bool} {node : Node} :
    isMarked marks node ↔ Marks marks node.id := by
  rw [isMarked, Marks, Array.getD_eq_getD_getElem?]
  cases marks[node.id]? <;> simp

theorem Kind.usesGroup_iff {kind : Kind} : kind.usesGroup ↔
    ∃ number, kind = .group (some number) ∨ kind = .stringRef number := by
  constructor
  · intro huses
    cases kind with
    | group number =>
        cases number with
        | none => cases huses
        | some number => exact ⟨number, .inl rfl⟩
    | stringRef group => exact ⟨group, .inr rfl⟩
    | sequence | alternation | branch | repetition | literal _ | expressionRef _ => cases huses
  · rintro ⟨number, rfl | rfl⟩
    · rfl
    · rfl

namespace Pattern

/-- The node with the given identifier is a capturing group or a string reference. -/
def UsesGroup (pattern : Pattern) (id : Nat) : Prop :=
  ∃ number, pattern.kind? id = some (.group (some number)) ∨
    pattern.kind? id = some (.stringRef number)

/-- The marks when the given sites have been gone through. -/
def marksAfter (pattern : Pattern) (done : List Site) : Array Bool :=
  done.foldl Relevance.markSite (Array.replicate pattern.size false)

/-- At any time while the sites are gone through in the given order, the nodes above a marked node
are marked, and the next site marks itself and everything above it if it uses a group, although the
way up stops at the first mark. -/
structure MarksUpwards (pattern : Pattern) (order : List Site) : Prop where
  closed (done rest : List Site) (horder : order = done ++ rest) (id : Nat)
    (hid : Relevance.Marks (pattern.marksAfter done) id) :
    ∀ above ∈ pattern.ancestorIds id, Relevance.Marks (pattern.marksAfter done) above
  next_iff (done rest : List Site) (next : Site) (horder : order = done ++ next :: rest)
    (id : Nat) : Relevance.Marks (pattern.marksAfter (done ++ [next])) id ↔
      Relevance.Marks (pattern.marksAfter done) id ∨
        pattern.UsesGroup next.id ∧ (id = next.id ∨ id ∈ pattern.ancestorIds next.id)

variable {text : String} {pattern : Pattern} {done : List Site} {site : Site} {id : Nat}

namespace HasDenseIds

theorem usesGroup_iff (h : pattern.HasDenseIds) (hsite : site ∈ pattern.sites) :
    pattern.UsesGroup site.id ↔ site.kind.usesGroup := by
  rw [UsesGroup, h.kind?_id hsite, Kind.usesGroup_iff]
  simp only [Option.some.injEq]

/-- The identifiers are those of the sites in their order. -/
theorem map_id_sitesById (h : pattern.HasDenseIds) :
    pattern.sitesById.map Site.id = List.range pattern.size := by
  have hids : (pattern.sites.map Site.id).Perm (List.range pattern.size) := by
    have hmap : pattern.sites.map Site.id = pattern.root.subtree.map Node.id := by
      rw [← pattern.map_node_sites, List.map_map]
      rfl
    rw [hmap]
    exact h
  have hperm : (pattern.sitesById.map Site.id).Perm (List.range pattern.size) :=
    ((List.mergeSort_perm _ _).map _).trans hids
  have hsorted : (pattern.sitesById.map Site.id).Pairwise (· ≤ ·) :=
    List.pairwise_map.2 pattern.pairwise_sitesById
  exact hperm.eq_of_pairwise (fun _ _ _ _ => Nat.le_antisymm) hsorted
    (List.pairwise_le_range)

/-- The identifiers marked are those of the sites that use a group and of the nodes above them. -/
theorem marks_marksAfter_iff (h : pattern.HasDenseIds) (hdone : done ⊆ pattern.sites) :
    Relevance.Marks (pattern.marksAfter done) id ↔
      ∃ user ∈ done, user.kind.usesGroup ∧ id ∈ user.id :: user.ancestorIds := by
  have hmarked := (Relevance.Marked.start pattern).foldl h (List.nil_subset _) hdone
  rw [List.nil_append] at hmarked
  constructor
  · intro hid
    have hlt : id < pattern.size := by
      obtain ⟨hlt, _⟩ := Array.getElem?_eq_some_iff.1 hid
      exact Nat.lt_of_lt_of_eq hlt hmarked.size_eq
    obtain ⟨site, hsite, rfl⟩ := h.exists_site hlt
    obtain ⟨user, huser, huses, hmem⟩ :=
      (hmarked.isMarked_iff site hsite).1 (Relevance.isMarked_iff_marks.2 hid)
    exact ⟨user, huser, huses, List.mem_map_of_mem (f := Node.id) hmem⟩
  · rintro ⟨user, huser, huses, hid⟩
    obtain ⟨node, hnode, rfl⟩ : ∃ node ∈ user.path, node.id = id := List.mem_map.1 hid
    obtain ⟨front, up, hpath⟩ := List.append_of_mem hnode
    have hsite := (mem_sites_of_path (hdone huser) hpath).1
    exact Relevance.isMarked_iff_marks.1
      ((hmarked.isMarked_iff ⟨node, up⟩ hsite).2 ⟨user, huser, huses, hnode⟩)

/-- What is above a node that is above a site is above the site. -/
theorem mem_ancestorIds_trans (h : pattern.HasDenseIds) (hsite : site ∈ pattern.sites)
    {owner above : Nat} (howner : owner ∈ site.ancestorIds)
    (habove : above ∈ pattern.ancestorIds owner) : above ∈ site.ancestorIds := by
  obtain ⟨node, hnode, rfl⟩ := List.mem_map.1 howner
  obtain ⟨front, up, hancestors⟩ := List.append_of_mem hnode
  have hpath : site.path = (site.node :: front) ++ node :: up := by
    rw [Site.path, hancestors, List.cons_append]
  have hup : pattern.ancestorIds node.id = up.map Node.id :=
    h.ancestorIds_id (mem_sites_of_path hsite hpath).1
  rw [hup] at habove
  rw [Site.ancestorIds, hancestors, List.map_append]
  exact List.mem_append_right _ (List.mem_cons_of_mem _ habove)

/-- The sites that have been gone through may be in any order. -/
theorem marksAfter_eq_of_perm (h : pattern.HasDenseIds) {order : List Site}
    (horder : order.Perm pattern.sites) : pattern.marksAfter order = pattern.relevance := by
  have hsize : ∀ {done : List Site}, done ⊆ pattern.sites →
      (pattern.marksAfter done).size = pattern.size := fun hdone =>
    ((Relevance.Marked.start pattern).foldl h (List.nil_subset _) hdone).size_eq
  have hmarks : ∀ id, Relevance.Marks (pattern.marksAfter order) id ↔
      Relevance.Marks (pattern.marksAfter pattern.sites) id := by
    intro id
    rw [h.marks_marksAfter_iff horder.subset, h.marks_marksAfter_iff (List.Subset.refl _)]
    exact exists_congr fun user => and_congr_left fun _ => horder.mem_iff
  refine Array.ext ((hsize horder.subset).trans (hsize (List.Subset.refl _)).symm) ?_
  intro id hid hid'
  have hmark : Relevance.Marks (pattern.marksAfter order) id ↔
      Relevance.Marks pattern.relevance id := hmarks id
  rw [Relevance.Marks, Relevance.Marks, Array.getElem?_eq_getElem hid,
    Array.getElem?_eq_getElem hid', Option.some.injEq, Option.some.injEq] at hmark
  exact Bool.eq_iff_iff.2 hmark

/-- Marking upwards leaves out nothing, in whatever order the sites are gone through. -/
theorem marksUpwards (h : pattern.HasDenseIds) {order : List Site}
    (horder : order.Perm pattern.sites) : pattern.MarksUpwards order where
  closed done rest hsplit id hid above habove := by
    have hdone : done ⊆ pattern.sites := fun site hsite =>
      horder.mem_iff.1 (hsplit ▸ List.mem_append_left rest hsite)
    rw [h.marks_marksAfter_iff hdone] at hid ⊢
    obtain ⟨user, huser, huses, hmem⟩ := hid
    refine ⟨user, huser, huses, List.mem_cons_of_mem _ ?_⟩
    have hup := h.ancestorIds_id (hdone huser)
    obtain rfl | hmem := List.mem_cons.1 hmem
    · rwa [hup] at habove
    · exact h.mem_ancestorIds_trans (hdone huser) hmem habove
  next_iff done rest next hsplit id := by
    have hall : ∀ site ∈ done ++ next :: rest, site ∈ pattern.sites := fun site hsite =>
      horder.mem_iff.1 (hsplit ▸ hsite)
    have hnext : next ∈ pattern.sites := hall next (by simp)
    have hdone : done ⊆ pattern.sites := fun site hsite => hall site (by simp [hsite])
    have hboth : done ++ [next] ⊆ pattern.sites :=
      List.append_subset.2 ⟨hdone, List.cons_subset.2 ⟨hnext, List.nil_subset _⟩⟩
    rw [h.marks_marksAfter_iff hdone, h.marks_marksAfter_iff hboth, h.usesGroup_iff hnext,
      h.ancestorIds_id hnext, ← List.mem_cons]
    simp only [List.mem_append, List.mem_singleton, or_and_right, exists_or, exists_eq_left]

end HasDenseIds

/-- An identifier is marked as relevant exactly when it is that of a capturing group or a string
reference or lists of children lead from it to one. The marks are the same in whatever order the
sites are gone through, such as that of their identifiers; and at any time on the way, each marked
node has only marked nodes above it, so that nothing is left out by stopping at the first one. -/
theorem relevance_exact (h : Pattern.parse text = .ok pattern) :
    pattern.relevance.size = pattern.size ∧
    (∀ id, Relevance.Marks pattern.relevance id ↔ ∃ user, pattern.UsesGroup user ∧
      Relation.ReflTransGen (fun owner child => child ∈ pattern.childIds owner) id user) ∧
    pattern.sitesById.map Site.id = List.range pattern.size ∧
    pattern.marksAfter pattern.sitesById = pattern.relevance ∧
    ∀ order : List Site, order.Perm pattern.sites →
      pattern.marksAfter order = pattern.relevance ∧ pattern.MarksUpwards order := by
  have hids := hasDenseIds_of_parse h
  have hsites := List.Subset.refl pattern.sites
  refine ⟨((Relevance.Marked.start pattern).foldl hids (List.nil_subset _) hsites).size_eq,
    fun id => (hids.marks_marksAfter_iff hsites).trans ?_, hids.map_id_sitesById,
    hids.marksAfter_eq_of_perm (List.mergeSort_perm _ _), fun order horder =>
      ⟨hids.marksAfter_eq_of_perm horder, hids.marksUpwards horder⟩⟩
  constructor
  · rintro ⟨user, huser, huses, hmem⟩
    refine ⟨user.id, (hids.usesGroup_iff huser).2 huses, ?_⟩
    obtain rfl | hmem := List.mem_cons.1 hmem
    · exact .refl
    · exact ((hids.mem_ancestorIds_iff_transGen huser).1 hmem).to_reflTransGen
  · rintro ⟨user, huses, hpath⟩
    obtain ⟨number, hkind⟩ := huses
    obtain ⟨site, hsite, rfl⟩ : ∃ site ∈ pattern.sites, site.id = user := by
      obtain hkind | hkind := hkind
      · obtain ⟨site, hsite, hid, _⟩ := exists_of_kind? hkind
        exact ⟨site, hsite, hid⟩
      · obtain ⟨site, hsite, hid, _⟩ := exists_of_kind? hkind
        exact ⟨site, hsite, hid⟩
    refine ⟨site, hsite, (hids.usesGroup_iff hsite).1 ⟨number, hkind⟩, List.mem_cons.2 ?_⟩
    obtain hsame | hpath := Relation.reflTransGen_iff_eq_or_transGen.1 hpath
    · exact .inl hsame.symm
    · exact .inr ((hids.mem_ancestorIds_iff_transGen hsite).2 hpath)

/-- In `(?:a*)*(?:(b)|c)` the way up from the only group passes an alternation whose identifier is
larger than that of the group, and leaves the repetitions unmarked. -/
theorem relevance_exact_late_parent :
    ∃ pattern, Pattern.parse "(?:a*)*(?:(b)|c)" = .ok pattern ∧
      pattern.relevance = #[true, false, false, false, false, true, true, false, true, true, false,
        false] ∧
      (∀ id, Relevance.Marks pattern.relevance id ↔ ∃ user, pattern.UsesGroup user ∧
        Relation.ReflTransGen (fun owner child => child ∈ pattern.childIds owner) id user) := by
  obtain ⟨pattern, hparse, hmarks⟩ : ∃ pattern, Pattern.parse "(?:a*)*(?:(b)|c)" = .ok pattern ∧
      pattern.relevance = #[true, false, false, false, false, true, true, false, true, true, false,
        false] := ⟨_, rfl, by decide +kernel⟩
  obtain ⟨_, hexact, _⟩ := relevance_exact hparse
  exact ⟨pattern, hparse, hmarks, hexact⟩

end Pattern

end Backref
