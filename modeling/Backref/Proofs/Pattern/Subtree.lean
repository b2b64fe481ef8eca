import Backref.Pattern.Site
import Mathlib.Data.List.Nodup

/-!
# The nodes of a tree in order

`Node.subtree` lists a node and everything below it, parents before children and children from
left to right. `Pattern.map_node_sites` says that the sites of a pattern are these nodes;
`Node.Occurs` says which site belongs to which node.
-/

namespace Backref

mutual

/-- A node and everything below it. -/
def Node.subtree : Node → List Node
  | ⟨label, kind, children⟩ => ⟨label, kind, children⟩ :: Node.subtrees children

/-- The nodes of a list and everything below them. -/
def Node.subtrees : List Node → List Node
  | [] => []
  | node :: nodes => node.subtree ++ Node.subtrees nodes

end

/-- A node comes before what lies below it. -/
theorem Node.subtree_eq (node : Node) : node.subtree = node :: Node.subtrees node.children := by
  obtain ⟨label, kind, children⟩ := node
  rw [subtree]

/-- What lies below two lists of nodes. -/
theorem Node.subtrees_append (nodes nodes' : List Node) :
    Node.subtrees (nodes ++ nodes') = Node.subtrees nodes ++ Node.subtrees nodes' := by
  induction nodes with
  | nil => rfl
  | cons node nodes ih => rw [List.cons_append, subtrees, ih, subtrees, List.append_assoc]

/-- What lies below a list lies below one of its nodes. -/
theorem Node.mem_subtrees {nodes : List Node} {inner : Node} :
    inner ∈ Node.subtrees nodes ↔ ∃ node ∈ nodes, inner ∈ node.subtree := by
  induction nodes with
  | nil => simp [subtrees]
  | cons node nodes ih => simp [subtrees, ih]

/-- A node lies in its own subtree. -/
theorem Node.mem_subtree_self (node : Node) : node ∈ node.subtree := by
  rw [node.subtree_eq]
  exact List.mem_cons_self

/-- What lies in the subtree of a child lies in the subtree of the parent. -/
theorem Node.mem_subtree_of_child {node child inner : Node} (hchild : child ∈ node.children)
    (h : inner ∈ child.subtree) : inner ∈ node.subtree := by
  rw [node.subtree_eq]
  exact List.mem_cons_of_mem node (Node.mem_subtrees.2 ⟨child, hchild, h⟩)

mutual

/-- A subtree holds the subtrees of its nodes. -/
theorem Node.subtree_sublist : ∀ {node inner : Node}, inner ∈ node.subtree →
    inner.subtree.Sublist node.subtree
  | ⟨label, kind, children⟩, inner, h => by
      rw [Node.subtree, List.mem_cons] at h
      rcases h with rfl | h
      · exact List.Sublist.refl _
      · rw [Node.subtree]
        exact (Node.subtree_sublist_subtrees h).cons _

/-- The subtrees of some nodes hold the subtrees of their nodes. -/
theorem Node.subtree_sublist_subtrees : ∀ {nodes : List Node} {inner : Node},
    inner ∈ Node.subtrees nodes → inner.subtree.Sublist (Node.subtrees nodes)
  | [], _, h => by simp [Node.subtrees] at h
  | node :: nodes, inner, h => by
      rw [Node.subtrees, List.mem_append] at h
      rw [Node.subtrees]
      rcases h with h | h
      · exact (Node.subtree_sublist h).trans (List.sublist_append_left _ _)
      · exact (Node.subtree_sublist_subtrees h).trans (List.sublist_append_right _ _)

end

/-- What lies below a node of a subtree lies in the subtree. -/
theorem Node.subtree_subset {node inner : Node} (h : inner ∈ node.subtree) :
    inner.subtree ⊆ node.subtree :=
  (Node.subtree_sublist h).subset

/-- The children of a node of a tree are nodes of the tree. -/
theorem Node.children_subset {root node : Node} (h : node ∈ root.subtree) :
    ∀ child ∈ node.children, child ∈ root.subtree := fun child hchild =>
  Node.subtree_subset h (Node.mem_subtree_of_child hchild child.mem_subtree_self)

/-- The nodes of a list come in their order among what lies below them. -/
theorem Node.sublist_subtrees (nodes : List Node) : nodes.Sublist (Node.subtrees nodes) := by
  induction nodes with
  | nil => exact List.Sublist.refl _
  | cons node nodes ih =>
      rw [subtrees, subtree_eq, List.cons_append]
      exact (ih.trans (List.sublist_append_right _ _)).cons_cons node

/-! ## Sites -/

mutual

/-- The sites of a node belong to the nodes of its subtree. -/
theorem Node.map_node_sitesOnto : ∀ (node : Node) (ancestors : List Node) (rest : List Site),
    (node.sitesOnto ancestors rest).map Site.node = node.subtree ++ rest.map Site.node
  | ⟨label, kind, children⟩, ancestors, rest => by
      rw [Node.sitesOnto, List.map_cons, Node.map_node_childSitesOnto children, Node.subtree,
        List.cons_append]

/-- The sites of some nodes belong to the nodes of their subtrees. -/
theorem Node.map_node_childSitesOnto : ∀ (nodes ancestors : List Node) (rest : List Site),
    (Node.childSitesOnto nodes ancestors rest).map Site.node =
      Node.subtrees nodes ++ rest.map Site.node
  | [], _, _ => rfl
  | node :: nodes, ancestors, rest => by
      rw [Node.childSitesOnto, Node.map_node_sitesOnto node, Node.map_node_childSitesOnto nodes,
        Node.subtrees, List.append_assoc]

end

/-- The nodes of the sites of a pattern, in order. -/
theorem Pattern.map_node_sites (pattern : Pattern) :
    pattern.sites.map Site.node = pattern.root.subtree := by
  rw [Pattern.sites, Node.map_node_sitesOnto]
  exact List.append_nil _

/-- The nodes below the root are those of the sites. -/
theorem Pattern.mem_subtree_root {pattern : Pattern} {node : Node} :
    node ∈ pattern.root.subtree ↔ ∃ site ∈ pattern.sites, site.node = node := by
  rw [← pattern.map_node_sites, List.mem_map]

/-- A pattern has as many nodes as the subtree of its root. -/
theorem Pattern.size_eq (pattern : Pattern) : pattern.size = pattern.root.subtree.length := by
  rw [← pattern.map_node_sites, List.length_map]
  rfl

/-- The identifiers of the nodes are the numbers below the size, each of them once. -/
def Pattern.HasDenseIds (pattern : Pattern) : Prop :=
  (pattern.root.subtree.map Node.id).Perm (List.range pattern.size)

/-- The identifiers of the nodes are all different. -/
theorem Pattern.HasDenseIds.nodup {pattern : Pattern} (h : pattern.HasDenseIds) :
    (pattern.root.subtree.map Node.id).Nodup :=
  h.nodup_iff.2 List.nodup_range

/-- Identifiers lie below the size. -/
theorem Pattern.HasDenseIds.id_lt {pattern : Pattern} (h : pattern.HasDenseIds) {site : Site}
    (hsite : site ∈ pattern.sites) : site.node.id < pattern.size := by
  have hnode : site.node ∈ pattern.root.subtree := mem_subtree_root.2 ⟨site, hsite, rfl⟩
  exact List.mem_range.1 (h.mem_iff.1 (List.mem_map_of_mem hnode))

/-- Every number below the size is an identifier. -/
theorem Pattern.HasDenseIds.exists_site {pattern : Pattern} (h : pattern.HasDenseIds) {id : Nat}
    (hid : id < pattern.size) : ∃ site ∈ pattern.sites, site.id = id := by
  obtain ⟨node, hnode, rfl⟩ := List.mem_map.1 (h.mem_iff.2 (List.mem_range.2 hid))
  obtain ⟨site, hsite, rfl⟩ := mem_subtree_root.1 hnode
  exact ⟨site, hsite, rfl⟩

/-- Sites with the same identifier are the same. -/
theorem Pattern.HasDenseIds.eq_of_id_eq {pattern : Pattern} (h : pattern.HasDenseIds)
    {site site' : Site} (hsite : site ∈ pattern.sites) (hsite' : site' ∈ pattern.sites)
    (hid : site.node.id = site'.node.id) : site = site' := by
  have hnodup : (pattern.sites.map fun site => site.node.id).Nodup := by
    have hmap : (pattern.sites.map fun site => site.node.id) =
        pattern.root.subtree.map Node.id := by
      rw [← pattern.map_node_sites, List.map_map]
      rfl
    rw [hmap]
    exact h.nodup
  exact List.inj_on_of_nodup_map hnodup hsite hsite' hid

/-- The sites are listed in the order of their identifiers. -/
theorem Pattern.pairwise_sitesById (pattern : Pattern) :
    pattern.sitesById.Pairwise fun site later => site.id ≤ later.id := by
  have hpairwise : pattern.sitesById.Pairwise fun site later : Site =>
      decide (site.id ≤ later.id) :=
    List.pairwise_mergeSort (fun _ _ _ => by simpa using Nat.le_trans)
      (fun _ _ => by simpa using Nat.le_total _ _) pattern.sites
  exact hpairwise.imp of_decide_eq_true

/-- The site is that of a node or lies below it, where the given nodes are above the node. -/
inductive Node.Occurs : Node → List Node → Site → Prop where
  | self (node : Node) (ancestors : List Node) : Occurs node ancestors ⟨node, ancestors⟩
  | child {node child : Node} {ancestors : List Node} {site : Site} :
      child ∈ node.children → Occurs child (node :: ancestors) site → Occurs node ancestors site

mutual

/-- The sites of a node are those that occur at it or below it. -/
theorem Node.mem_sitesOnto : ∀ {node : Node} {ancestors : List Node} {rest : List Site}
    {site : Site}, site ∈ node.sitesOnto ancestors rest ↔ node.Occurs ancestors site ∨ site ∈ rest
  | ⟨label, kind, children⟩, ancestors, rest, site => by
      rw [Node.sitesOnto, List.mem_cons, Node.mem_childSitesOnto, ← or_assoc]
      refine or_congr_left ?_
      constructor
      · rintro (rfl | ⟨child, hchild, hoccurs⟩)
        · exact .self _ _
        · exact .child hchild hoccurs
      · intro h
        cases h with
        | self => exact .inl rfl
        | child hchild hoccurs => exact .inr ⟨_, hchild, hoccurs⟩

/-- The sites of some nodes are those that occur at one of them or below it. -/
theorem Node.mem_childSitesOnto : ∀ {nodes ancestors : List Node} {rest : List Site}
    {site : Site}, site ∈ Node.childSitesOnto nodes ancestors rest ↔
      (∃ node ∈ nodes, node.Occurs ancestors site) ∨ site ∈ rest
  | [], ancestors, rest, site => by simp [Node.childSitesOnto]
  | node :: nodes, ancestors, rest, site => by
      rw [Node.childSitesOnto, Node.mem_sitesOnto, Node.mem_childSitesOnto, ← or_assoc]
      simp

end

/-- The sites of a node occur in it. -/
theorem Node.occurs_of_mem_sitesOnto {node : Node} {ancestors : List Node} {site : Site}
    (h : site ∈ node.sitesOnto ancestors []) : node.Occurs ancestors site := by
  simpa using Node.mem_sitesOnto.1 h

/-- The sites of some nodes occur in one of them. -/
theorem Node.exists_occurs_of_mem_childSitesOnto {nodes ancestors : List Node} {site : Site}
    (h : site ∈ Node.childSitesOnto nodes ancestors []) :
    ∃ node ∈ nodes, node.Occurs ancestors site := by
  simpa using Node.mem_childSitesOnto.1 h

mutual

/-- What comes after the sites of a node has no part in them. -/
theorem Node.sitesOnto_eq_append : ∀ (node : Node) (ancestors : List Node) (rest : List Site),
    node.sitesOnto ancestors rest = node.sitesOnto ancestors [] ++ rest
  | ⟨label, kind, children⟩, ancestors, rest => by
      rw [Node.sitesOnto, Node.childSitesOnto_eq_append children, Node.sitesOnto, List.cons_append]

/-- What comes after the sites of some nodes has no part in them. -/
theorem Node.childSitesOnto_eq_append : ∀ (nodes ancestors : List Node) (rest : List Site),
    Node.childSitesOnto nodes ancestors rest = Node.childSitesOnto nodes ancestors [] ++ rest
  | [], _, _ => rfl
  | node :: nodes, ancestors, rest => by
      rw [Node.childSitesOnto, Node.sitesOnto_eq_append node, Node.childSitesOnto_eq_append nodes,
        Node.childSitesOnto, Node.sitesOnto_eq_append node ancestors
          (Node.childSitesOnto nodes ancestors []), List.append_assoc]

end

/-- The sites of some nodes are those of the first one and those of the others. -/
theorem Node.childSitesOnto_cons (node : Node) (nodes ancestors : List Node) :
    Node.childSitesOnto (node :: nodes) ancestors [] =
      node.sitesOnto ancestors [] ++ Node.childSitesOnto nodes ancestors [] := by
  rw [Node.childSitesOnto, Node.sitesOnto_eq_append]

/-- The sites of a node are its own and those of its children. -/
theorem Node.sitesOnto_eq_cons (node : Node) (ancestors : List Node) :
    node.sitesOnto ancestors [] =
      ⟨node, ancestors⟩ :: Node.childSitesOnto node.children (node :: ancestors) [] := by
  obtain ⟨label, kind, children⟩ := node
  rw [Node.sitesOnto]

/-- The sites of a pattern are those that occur in its root. -/
theorem Pattern.mem_sites {pattern : Pattern} {site : Site} :
    site ∈ pattern.sites ↔ pattern.root.Occurs [] site := by
  rw [Pattern.sites, Node.mem_sitesOnto]
  simp

/-- The node of a site and those above it. -/
def Site.path (site : Site) : List Node := site.node :: site.ancestors

namespace Node.Occurs

variable {node : Node} {ancestors : List Node} {site : Site}

/-- Occurrences can be followed one after the other. -/
theorem trans {inner : Site} (h : node.Occurs ancestors site)
    (h' : site.node.Occurs site.ancestors inner) : node.Occurs ancestors inner := by
  induction h with
  | self => exact h'
  | child hchild _ ih => exact .child hchild (ih h')

/-- What occurs below a node has the node and those above it in its path. -/
theorem suffix (h : node.Occurs ancestors site) : node :: ancestors <:+ site.path := by
  induction h with
  | self => exact List.suffix_refl _
  | child _ _ ih => exact (List.suffix_cons _ _).trans ih

/-- What occurs below a node has the ancestors of the node among its own. -/
theorem ancestors_suffix (h : node.Occurs ancestors site) : ancestors <:+ site.ancestors := by
  induction h with
  | self => exact List.suffix_refl _
  | child _ _ ih => exact (List.suffix_cons _ _).trans ih

/-- The parent of a site that occurs below a node occurs there as well. -/
theorem parent (h : node.Occurs ancestors site) {parent : Node} {up : List Node}
    (hup : site.ancestors = parent :: up) :
    site = ⟨node, ancestors⟩ ∨
      node.Occurs ancestors ⟨parent, up⟩ ∧ site.node ∈ parent.children := by
  induction h with
  | self => exact .inl rfl
  | child hchild _ ih =>
      rcases ih hup with rfl | ⟨hparent, hmem⟩
      · obtain ⟨rfl, rfl⟩ := List.cons.inj hup
        exact .inr ⟨.self _ _, hchild⟩
      · exact .inr ⟨.child hchild hparent, hmem⟩

end Node.Occurs

namespace Pattern

variable {pattern : Pattern}

/-- The nodes above a site are sites themselves, and the site lies in their subtrees. -/
theorem mem_sites_of_path {site : Site} (h : site ∈ pattern.sites) {front up : List Node}
    {inner : Node} (hpath : site.path = front ++ inner :: up) :
    ⟨inner, up⟩ ∈ pattern.sites ∧ site.node ∈ inner.subtree := by
  induction front generalizing site with
  | nil =>
      obtain ⟨rfl, rfl⟩ := List.cons.inj hpath
      exact ⟨h, site.node.mem_subtree_self⟩
  | cons head front ih =>
      obtain ⟨rfl, hup⟩ := List.cons.inj hpath
      obtain ⟨parent, rest, hparent⟩ : ∃ parent rest, front ++ inner :: up = parent :: rest :=
        List.exists_cons_of_ne_nil (by simp)
      replace hup : site.ancestors = parent :: rest := hup.trans hparent
      rcases (Pattern.mem_sites.1 h).parent hup with rfl | ⟨hoccurs, hchild⟩
      · cases hup
      · obtain ⟨hsite, hmem⟩ := ih (Pattern.mem_sites.2 hoccurs) hparent.symm
        exact ⟨hsite, Node.subtree_subset hmem
          (Node.mem_subtree_of_child hchild (Node.mem_subtree_self _))⟩

/-- What lies in the subtree of a site is a site whose path goes through it. -/
theorem exists_site_of_mem_subtree {site : Site} (h : site ∈ pattern.sites) {inner : Node}
    (hinner : inner ∈ site.node.subtree) :
    ∃ below ∈ pattern.sites, below.node = inner ∧ site.node ∈ below.path := by
  have hsites : (site.node.sitesOnto site.ancestors []).map Site.node = site.node.subtree := by
    rw [Node.map_node_sitesOnto]
    exact List.append_nil _
  rw [← hsites] at hinner
  obtain ⟨below, hbelow, rfl⟩ := List.mem_map.1 hinner
  have hoccurs : site.node.Occurs site.ancestors below := by
    simpa using Node.mem_sitesOnto.1 hbelow
  refine ⟨below, Pattern.mem_sites.2 ((Pattern.mem_sites.1 h).trans hoccurs), rfl, ?_⟩
  exact hoccurs.suffix.mem List.mem_cons_self

end Pattern

end Backref
