import Backref.Proofs.Pattern.Draft
import Backref.Proofs.Pattern.Run

/-!
# The stack of open nodes

Before every round of a builder the stack of open nodes has the shape `Arena.OpenStack`: at the
bottom the root, above it groups, and above the root or a group at most one branch. An open branch
is not yet listed in its alternation, and every other node but the root is listed in its parent. A
capturing group is either open or in the table of groups.
`Builder.consistent_of_reaches` says this of every text and every round, and that the builder is
never stuck.
-/

namespace Backref

/-- Whether the node is a group. -/
def Kind.isGroup : Kind → Bool
  | .group _ => true
  | .sequence | .alternation | .branch | .repetition | .literal _ | .expressionRef _
  | .stringRef _ => false

namespace Arena

variable {arena : Arena}

/-- The kind of the node with the index. -/
def kind? (arena : Arena) (id : Nat) : Option Kind := arena[id]?.map Entry.kind

/-- Whether the node with the index is a group. -/
def isGroup (arena : Arena) (id : Nat) : Bool := (arena.kind? id).any Kind.isGroup

/-- The node is among the children of its parent. -/
def IsListed (arena : Arena) (id : Nat) : Prop :=
  ∃ entry parent owner, arena[id]? = some entry ∧ entry.parent = some parent ∧
    arena[parent]? = some owner ∧ id ∈ owner.children

/-- The branch is being read: its alternation, which does not list it, is the only child of the
owner. -/
structure OpenBranch (arena : Arena) (branch alternation owner : Nat) : Prop where
  exists_branch : ∃ entry, arena[branch]? = some entry ∧ entry.kind = .branch ∧
    entry.parent = some alternation
  exists_alternation : ∃ entry, arena[alternation]? = some entry ∧ entry.kind = .alternation ∧
    entry.parent = some owner ∧ branch ∉ entry.children
  exists_owner : ∃ entry, arena[owner]? = some entry ∧ entry.kind ≠ .branch ∧
    entry.children = [alternation]

/-- `OpenStack arena depth openNodes` says that the open nodes, innermost first, are groups above
the root, `depth` in number, and that at most one branch is open above each of them and above the
root. -/
inductive OpenStack (arena : Arena) : Nat → List Nat → Prop
  | root {entry : Entry} (hentry : arena[0]? = some entry) (hkind : entry.kind = .sequence)
      (hparent : entry.parent = none) : OpenStack arena 0 [0]
  | group {depth group : Nat} {number : Option Nat} {below : List Nat}
      (hkind : arena.kind? group = some (.group number)) (hbelow : OpenStack arena depth below) :
      OpenStack arena (depth + 1) (group :: below)
  | branch {depth branch alternation owner : Nat} {below : List Nat}
      (hbranch : arena.OpenBranch branch alternation owner)
      (hbelow : OpenStack arena depth (owner :: below)) :
      OpenStack arena depth (branch :: owner :: below)

section Parts

variable {cells cells' : Multiset (Entry × Nat)}

/-- What has two parts has the first one. -/
theorem subset_of_add_left (h : cells + cells' ⊆ arena.cells) : cells ⊆ arena.cells :=
  fun _ hmem => h (Multiset.mem_add.2 (.inl hmem))

/-- What has two parts has the second one. -/
theorem subset_of_add_right (h : cells + cells' ⊆ arena.cells) : cells' ⊆ arena.cells :=
  fun _ hmem => h (Multiset.mem_add.2 (.inr hmem))

end Parts

/-- The kind of a node that is found. -/
theorem kind?_eq {id : Nat} {entry : Entry} (h : arena[id]? = some entry) :
    arena.kind? id = some entry.kind := by
  rw [kind?, h, Option.map_some]

/-- A branch that is being read is not among the children of its parent. -/
theorem OpenBranch.not_isListed {branch alternation owner : Nat}
    (h : arena.OpenBranch branch alternation owner) : ¬arena.IsListed branch := by
  rintro ⟨entry, parent, lister, hentry, hparent, hlister, hlisted⟩
  obtain ⟨_, hbranch, _, halternation⟩ := h.exists_branch
  cases hentry.symm.trans hbranch
  cases hparent.symm.trans halternation
  obtain ⟨_, hlister', _, _, hnew⟩ := h.exists_alternation
  cases hlister.symm.trans hlister'
  exact hnew hlisted

namespace OpenStack

variable {depth : Nat} {openNodes : List Nat}

/-- The root is not a group. -/
theorem not_isGroup_zero (h : arena.OpenStack depth openNodes) : ¬arena.isGroup 0 := by
  induction h with
  | root hentry hkind _ =>
      rw [isGroup, kind?_eq hentry, hkind]
      exact Bool.false_ne_true
  | group _ _ ih => exact ih
  | branch _ _ ih => exact ih

/-- The depth is the number of groups on the stack. -/
theorem countP_isGroup (h : arena.OpenStack depth openNodes) :
    openNodes.countP arena.isGroup = depth := by
  have hroot := h.not_isGroup_zero
  induction h with
  | root => rw [List.countP_cons_of_neg hroot, List.countP_nil]
  | @group _ group _ _ hkind _ ih =>
      have hgroup : arena.isGroup group := by
        rw [isGroup, hkind]
        rfl
      rw [List.countP_cons_of_pos hgroup, ih]
  | @branch _ branch _ _ _ hbranch _ ih =>
      obtain ⟨entry, hentry, hkind, _⟩ := hbranch.exists_branch
      have hnot : ¬arena.isGroup branch := by
        rw [isGroup, kind?_eq hentry, hkind]
        exact Bool.false_ne_true
      rw [List.countP_cons_of_neg hnot, ih]

/-- The branches on the stack are being read. -/
theorem exists_openBranch {id : Nat} (h : arena.OpenStack depth openNodes) (hmem : id ∈ openNodes)
    (hkind : arena.kind? id = some .branch) :
    ∃ alternation owner, arena.OpenBranch id alternation owner := by
  induction h with
  | root hentry hroot _ =>
      obtain rfl := List.mem_singleton.1 hmem
      rw [kind?_eq hentry, hroot] at hkind
      cases hkind
  | group hgroup _ ih =>
      obtain rfl | hbelow := List.mem_cons.1 hmem
      · cases hkind.symm.trans hgroup
      · exact ih hbelow
  | branch hbranch _ ih =>
      obtain rfl | hbelow := List.mem_cons.1 hmem
      · exact ⟨_, _, hbranch⟩
      · exact ih hbelow

end OpenStack

end Arena

/-! ## The nodes that are listed -/

mutual

/-- Below a listed node every node is listed. -/
theorem Node.isListed_of_mem_cells {arena : Arena} : ∀ {node : Node} {parent : Nat} {owner : Entry}
    {cell : Entry × Nat}, node.cells parent ⊆ arena.cells → arena[parent]? = some owner →
    node.id ∈ owner.children → cell ∈ node.cells parent → arena.IsListed cell.2
  | ⟨label, kind, children⟩, parent, owner, cell, hcells, howner, hlisted, hcell => by
      rw [Node.cells_mk] at hcells hcell
      have hnode : arena[label.id]? =
          some ⟨kind, children.map Node.id, some parent, label.position⟩ :=
        Arena.mem_cells.1 (hcells (Multiset.mem_add.2 (.inl (Multiset.mem_singleton_self _))))
      obtain hself | hbelow := Multiset.mem_add.1 hcell
      · obtain rfl := Multiset.mem_singleton.1 hself
        exact ⟨_, _, _, hnode, rfl, howner, hlisted⟩
      · exact Node.isListed_of_mem_cellsAll (Arena.subset_of_add_right hcells) hnode
          (fun node hmem => List.mem_map_of_mem hmem) hbelow

/-- Below listed nodes every node is listed. -/
theorem Node.isListed_of_mem_cellsAll {arena : Arena} : ∀ {nodes : List Node} {parent : Nat}
    {owner : Entry} {cell : Entry × Nat}, Node.cellsAll parent nodes ⊆ arena.cells →
    arena[parent]? = some owner → (∀ node ∈ nodes, node.id ∈ owner.children) →
    cell ∈ Node.cellsAll parent nodes → arena.IsListed cell.2
  | [], _, _, _, _, _, _, hcell => absurd hcell (Multiset.notMem_zero _)
  | node :: nodes, parent, owner, cell, hcells, howner, hlisted, hcell => by
      rw [Node.cellsAll_cons] at hcells hcell
      obtain hfirst | hothers := Multiset.mem_add.1 hcell
      · exact Node.isListed_of_mem_cells (Arena.subset_of_add_left hcells) howner
          (hlisted node List.mem_cons_self) hfirst
      · exact Node.isListed_of_mem_cellsAll (Arena.subset_of_add_right hcells) howner
          (fun node hmem => hlisted node (List.mem_cons_of_mem _ hmem)) hothers

end

/-! ## The stack of a parser -/

namespace Level

variable {level : Level} {owner : Entry × Nat} {more : List Nat} {arena : Arena}

/-- The owner of a level is among its nodes. -/
theorem exists_owner_mem (level : Level) (owner : Entry × Nat) (more : List Nat) :
    ∃ children, (owner.1.withChildren children, owner.2) ∈ level.cells owner more := by
  obtain ⟨items, choice⟩ := level
  cases choice with
  | none =>
      refine ⟨items.reverse.map Node.id ++ more, ?_⟩
      rw [cells_none]
      exact Multiset.mem_add.2 (.inl (Multiset.mem_singleton_self _))
  | some choice =>
      refine ⟨[choice.label.id], ?_⟩
      rw [cells_some]
      simp only [Multiset.mem_add, Multiset.mem_singleton, true_or, or_true]

/-- The node that holds the items of a level is among its nodes. -/
theorem holder_mem (level : Level) (owner : Entry × Nat) (more : List Nat) :
    ((level.holder owner).1.withChildren (level.items.reverse.map Node.id ++ more),
      (level.holder owner).2) ∈ level.cells owner more := by
  rw [cells, Multiset.mem_add, Multiset.mem_add]
  exact .inl (.inl (Multiset.mem_singleton_self _))

/-- After a bar the current branch is being read. -/
theorem openBranch {items : List Node} {choice : Choice} (hkind : owner.1.kind ≠ .branch)
    (h : (Level.mk items (some choice)).cells owner more ≤ arena.cells) :
    arena.OpenBranch choice.current.id choice.label.id owner.2 := by
  have hnew := current_notMem h
  have hfind {entry : Entry} {id : Nat}
      (hmem : (entry, id) ∈ (Level.mk items (some choice)).cells owner more) :
      arena[id]? = some entry := Arena.mem_cells.1 (Multiset.mem_of_le h hmem)
  rw [cells_some] at hfind
  refine ⟨⟨⟨.branch, items.reverse.map Node.id ++ more, some choice.label.id,
      choice.current.position⟩, hfind ?_, rfl, rfl⟩,
    ⟨⟨.alternation, choice.closed.reverse.map Node.id, some owner.2, choice.label.position⟩,
      hfind ?_, rfl, rfl, hnew⟩,
    ⟨owner.1.withChildren [choice.label.id], hfind ?_, hkind, rfl⟩⟩
  all_goals simp only [Multiset.mem_add, Multiset.mem_singleton, true_or, or_true]

/-- A level goes on from its owner with the branch that is being read. -/
theorem openStack {depth : Nat} {below : List Nat} (hkind : owner.1.kind ≠ .branch)
    (hbelow : arena.OpenStack depth (owner.2 :: below)) (h : level.cells owner more ≤ arena.cells) :
    arena.OpenStack depth ((level.holder owner).2 :: level.openBelow owner.2 ++ below) := by
  obtain ⟨items, choice⟩ := level
  cases choice with
  | none => exact hbelow
  | some choice => exact .branch (openBranch hkind h) hbelow

/-- A node of a level is its owner, the branch that is being read or listed. -/
theorem mem_cells_cases {cell : Entry × Nat} (hcells : level.cells owner more ⊆ arena.cells)
    (h : cell ∈ level.cells owner more) : cell.2 = owner.2 ∨ arena.IsListed cell.2 ∨
      cell.1.kind = .branch ∧ cell.2 = (level.holder owner).2 := by
  have hholder := Arena.mem_cells.1 (hcells (level.holder_mem owner more))
  have hitems {cell : Entry × Nat}
      (hmem : cell ∈ Node.cellsAll (level.holder owner).2 level.items) : arena.IsListed cell.2 := by
    refine Node.isListed_of_mem_cellsAll (fun cell hmem => hcells ?_) hholder
      (fun node hnode => ?_) hmem
    · exact Multiset.mem_add.2 (.inl (Multiset.mem_add.2 (.inr hmem)))
    · exact List.mem_append_left _ (List.mem_map_of_mem (List.mem_reverse.2 hnode))
  obtain ⟨items, choice⟩ := level
  cases choice with
  | none =>
      rw [cells_none, Multiset.mem_add, Multiset.mem_singleton] at h
      obtain rfl | hmem := h
      · exact .inl rfl
      · exact .inr (.inl (hitems hmem))
  | some choice =>
      rw [cells_some] at hcells h
      have howner : arena[owner.2]? = some (owner.1.withChildren [choice.label.id]) := by
        refine Arena.mem_cells.1 (hcells ?_)
        simp only [Multiset.mem_add, Multiset.mem_singleton, true_or, or_true]
      have halternation : arena[choice.label.id]? = some ⟨.alternation,
          choice.closed.reverse.map Node.id, some owner.2, choice.label.position⟩ := by
        refine Arena.mem_cells.1 (hcells ?_)
        simp only [Multiset.mem_add, Multiset.mem_singleton, true_or, or_true]
      simp only [Multiset.mem_add, Multiset.mem_singleton] at h
      obtain rfl | rfl | (rfl | hmem) | hmem := h
      · exact .inr (.inr ⟨rfl, rfl⟩)
      · exact .inr (.inl ⟨_, _, _, halternation, rfl, howner, List.mem_singleton_self _⟩)
      · exact .inl rfl
      · refine .inr (.inl (Node.isListed_of_mem_cellsAll (fun cell hmem => hcells ?_) halternation
          (fun node hnode => List.mem_map_of_mem (List.mem_reverse.2 hnode)) hmem))
        simp only [Multiset.mem_add, hmem, true_or, or_true]
      · exact .inr (.inl (hitems hmem))

end Level

namespace OpenGroup

variable {level : Level} {enclosing : List OpenGroup} {more : List Nat} {arena : Arena}

/-- The open nodes of a parser are a stack. -/
theorem openStack (h : level.cells (owner enclosing) more + cells enclosing ≤ arena.cells) :
    arena.OpenStack enclosing.length ((level.holder (owner enclosing)).2 ::
      level.openBelow (owner enclosing).2 ++ openNodes enclosing) := by
  induction enclosing generalizing level more with
  | nil =>
      have hlevel := (Multiset.le_add_right _ _).trans h
      obtain ⟨children, hroot⟩ := level.exists_owner_mem (owner []) more
      have hentry := Arena.mem_cells.1 (Multiset.mem_of_le hlevel hroot)
      exact Level.openStack (kind_owner_ne_branch []) (.root hentry rfl rfl) hlevel
  | cons group enclosing ih =>
      have hlevel := (Multiset.le_add_right _ _).trans h
      obtain ⟨children, hgroup⟩ := level.exists_owner_mem (owner (group :: enclosing)) more
      have hentry := Arena.mem_cells.1 (Multiset.mem_of_le hlevel hgroup)
      have hbelow := ih ((Multiset.le_add_left _ _).trans h)
      exact Level.openStack (kind_owner_ne_branch _) (.group (Arena.kind?_eq hentry) hbelow) hlevel

/-- A node of a parser is the root, a branch that is being read or listed. -/
theorem mem_cells_cases {cell : Entry × Nat}
    (hcells : level.cells (owner enclosing) more + cells enclosing ⊆ arena.cells)
    (h : cell ∈ level.cells (owner enclosing) more + cells enclosing) :
    cell.2 = 0 ∨ arena.IsListed cell.2 ∨ cell.1.kind = .branch ∧
      cell.2 ∈ (level.holder (owner enclosing)).2 :: level.openBelow (owner enclosing).2 ++
        openNodes enclosing := by
  induction enclosing generalizing level more with
  | nil =>
      obtain hroot | hlisted | ⟨hkind, hopen⟩ :=
        Level.mem_cells_cases (Arena.subset_of_add_left hcells)
          ((Multiset.mem_add.1 h).resolve_right (Multiset.notMem_zero _))
      · exact .inl hroot
      · exact .inr (.inl hlisted)
      · exact .inr (.inr ⟨hkind, hopen ▸ List.mem_cons_self⟩)
  | cons group enclosing ih =>
      have hbelow : group.outer.cells (owner enclosing) [group.label.id] + cells enclosing ⊆
          arena.cells := Arena.subset_of_add_right hcells
      obtain hlevel | hbelow' := Multiset.mem_add.1 h
      · have hlevelCells : level.cells (owner (group :: enclosing)) more ⊆ arena.cells :=
          Arena.subset_of_add_left hcells
        obtain howner | hlisted | ⟨hkind, hopen⟩ := Level.mem_cells_cases hlevelCells hlevel
        · -- The group itself is the last child of the node that was open before it.
          obtain ⟨children, hgroup⟩ := level.exists_owner_mem (owner (group :: enclosing)) more
          have hholder := group.outer.holder_mem (owner enclosing) [group.label.id]
          have hentry := Arena.mem_cells.1 (hlevelCells hgroup)
          have hlister := Arena.mem_cells.1 (hbelow (Multiset.mem_add.2 (.inl hholder)))
          rw [howner]
          exact .inr (.inl ⟨_, _, _, hentry, rfl, hlister,
            List.mem_append_right _ (List.mem_singleton_self _)⟩)
        · exact .inr (.inl hlisted)
        · exact .inr (.inr ⟨hkind, hopen ▸ List.mem_cons_self⟩)
      · obtain hroot | hlisted | ⟨hkind, hopen⟩ := ih hbelow hbelow'
        · exact .inl hroot
        · exact .inr (.inl hlisted)
        · exact .inr (.inr ⟨hkind, List.mem_append_right _ hopen⟩)

end OpenGroup

/-! ## The groups among the nodes -/

namespace Arena

/-- The entry of a capturing group. -/
def numbered? (cell : Entry × Nat) : Option (Nat × Nat) :=
  match cell.1.kind with
  | .group (some number) => some (number, cell.2)
  | _ => none

/-- Only a capturing group has an entry, under its number. -/
theorem numbered?_eq_some_iff {cell : Entry × Nat} {number id : Nat} :
    numbered? cell = some (number, id) ↔ cell.1.kind = .group (some number) ∧ cell.2 = id := by
  rw [numbered?]
  split
  · next own hkind => simp [hkind]
  · next hkind => exact iff_of_false nofun fun h => hkind number h.1

/-- The entries of the capturing groups among some nodes. -/
def captures (cells : Multiset (Entry × Nat)) : Multiset (Nat × Nat) :=
  cells.filterMap numbered?

theorem captures_add (cells cells' : Multiset (Entry × Nat)) :
    captures (cells + cells') = captures cells + captures cells' :=
  Multiset.filterMap_add _ _ _

theorem captures_singleton (cell : Entry × Nat) :
    captures {cell} = ((numbered? cell).toList : Multiset (Nat × Nat)) := by
  show (([cell].filterMap numbered? : List (Nat × Nat)) : Multiset (Nat × Nat)) = _
  rw [List.filterMap_cons]
  cases numbered? cell <;> rfl

/-- A capturing group is found by its kind. -/
theorem mem_captures_cells {arena : Arena} {number id : Nat} :
    (number, id) ∈ captures arena.cells ↔ arena.kind? id = some (.group (some number)) := by
  rw [captures, Multiset.mem_filterMap, kind?, Option.map_eq_some_iff]
  constructor
  · rintro ⟨⟨entry, id'⟩, hcell, hnumbered⟩
    obtain ⟨hkind, rfl⟩ := numbered?_eq_some_iff.1 hnumbered
    exact ⟨entry, mem_cells.1 hcell, hkind⟩
  · rintro ⟨entry, hentry, hkind⟩
    exact ⟨(entry, id), mem_cells.2 hentry, numbered?_eq_some_iff.2 ⟨hkind, rfl⟩⟩

end Arena

mutual

/-- The capturing groups among the cells of a node. -/
theorem Node.captures_cells : ∀ (node : Node) (parent : Nat),
    Arena.captures (node.cells parent) =
      ((Node.captures [node]).map GroupTable.entryOf : List (Nat × Nat))
  | ⟨label, kind, children⟩, parent => by
      rw [Node.cells_mk, Arena.captures_add, Node.captures_cellsAll children,
        Arena.captures_singleton, Node.captures_singleton, List.map_append, ← Multiset.coe_add]
      congr 1
      cases kind with
      | group number => cases number <;> rfl
      | _ => rfl

/-- The capturing groups among the cells of some nodes. -/
theorem Node.captures_cellsAll : ∀ (nodes : List Node) (parent : Nat),
    Arena.captures (Node.cellsAll parent nodes) =
      ((Node.captures nodes).map GroupTable.entryOf : List (Nat × Nat))
  | [], _ => rfl
  | node :: nodes, parent => by
      rw [Node.cellsAll_cons, Arena.captures_add, Node.captures_cells node,
        Node.captures_cellsAll nodes, Multiset.coe_add, ← List.map_append, ← Node.captures_append]
      rfl

end

/-- The capturing groups among the cells of a level are its owner and those below. -/
theorem Level.captures_cells (level : Level) (owner : Entry × Nat) (more : List Nat) :
    Arena.captures (level.cells owner more) =
      ((Arena.numbered? owner).toList : Multiset (Nat × Nat)) +
        (level.captures.map GroupTable.entryOf : List (Nat × Nat)) := by
  obtain ⟨items, choice⟩ := level
  cases choice with
  | none =>
      rw [cells_none, Arena.captures_add, Arena.captures_singleton, ← Node.cellsAll_reverse,
        Node.captures_cellsAll]
      rfl
  | some choice =>
      rw [cells_some, captures_choice, ← Node.cellsAll_reverse _ choice.closed,
        ← Node.cellsAll_reverse _ items, List.map_append, ← Multiset.coe_add]
      simp only [Arena.captures_add, Arena.captures_singleton, Node.captures_cellsAll]
      -- Neither the branch nor the alternation is a group.
      exact (zero_add _).trans ((zero_add _).trans (add_assoc _ _ _))

/-- An open node of a level that is not a branch is the owner. -/
theorem Level.kind?_of_mem_open {arena : Arena} {owner : Entry × Nat} {more : List Nat} {id : Nat}
    (level : Level) (hcells : level.cells owner more ⊆ arena.cells)
    (hopen : id ∈ (level.holder owner).2 :: level.openBelow owner.2)
    (hkind : arena.kind? id ≠ some .branch) :
    id = owner.2 ∧ arena.kind? id = some owner.1.kind := by
  obtain ⟨children, howner⟩ := level.exists_owner_mem owner more
  have hownerKind := Arena.kind?_eq (Arena.mem_cells.1 (hcells howner))
  have hholder := Arena.kind?_eq (Arena.mem_cells.1 (hcells (level.holder_mem owner more)))
  obtain ⟨items, choice⟩ := level
  have hid : id = owner.2 := by
    cases choice with
    | none => exact List.mem_singleton.1 hopen
    | some choice =>
        obtain rfl | hopen := List.mem_cons.1 hopen
        · exact absurd hholder hkind
        · exact List.mem_singleton.1 hopen
  exact ⟨hid, hid ▸ hownerKind⟩

namespace OpenGroup

variable {level : Level} {enclosing : List OpenGroup} {more : List Nat} {arena : Arena}
  {number id : Nat}

/-- The entries that the open groups will have. -/
def entries (enclosing : List OpenGroup) : List (Nat × Nat) :=
  (enclosing.filterMap OpenGroup.numbered?).map GroupTable.entryOf

/-- The capturing groups of a parser have been closed or are open. -/
theorem captures_cells (level : Level) (enclosing : List OpenGroup) (more : List Nat) :
    Arena.captures (level.cells (owner enclosing) more + cells enclosing) =
      ((level.captures ++ enclosing.flatMap fun group => group.outer.captures).map
        GroupTable.entryOf : List (Nat × Nat)) + (entries enclosing : Multiset (Nat × Nat)) := by
  induction enclosing generalizing level more with
  | nil =>
      rw [cells, add_zero, Level.captures_cells, List.flatMap_nil, List.append_nil]
      exact add_comm _ _
  | cons group enclosing ih =>
      have hentries : (entries (group :: enclosing) : Multiset (Nat × Nat)) =
          ((Arena.numbered? (owner (group :: enclosing))).toList : Multiset (Nat × Nat)) +
            (entries enclosing : Multiset (Nat × Nat)) := by
        rw [entries, List.filterMap_cons, OpenGroup.numbered?, Arena.numbered?, owner]
        cases group.number <;> rfl
      rw [cells, Arena.captures_add, ih, Level.captures_cells, hentries, List.flatMap_cons]
      simp only [List.map_append, ← Multiset.coe_add]
      exact (by ac_rfl)

/-- An entry of an open group comes from the group. -/
theorem mem_entries_iff : (number, id) ∈ entries enclosing ↔
    ∃ group ∈ enclosing, group.number = some number ∧ group.label.id = id := by
  rw [entries, List.map_filterMap, List.mem_filterMap]
  refine exists_congr fun group => and_congr_right fun _ => ?_
  rw [numbered?, Option.map_map, Option.map_eq_some_iff]
  constructor
  · rintro ⟨number, hnumber, hentry⟩
    cases hentry
    exact ⟨hnumber, rfl⟩
  · rintro ⟨hnumber, rfl⟩
    exact ⟨number, hnumber, rfl⟩

/-- The open groups are among the open nodes. -/
theorem label_mem_openNodes {group : OpenGroup} (level : Level) (h : group ∈ enclosing) :
    group.label.id ∈ (level.holder (owner enclosing)).2 ::
      level.openBelow (owner enclosing).2 ++ openNodes enclosing := by
  induction enclosing generalizing level with
  | nil => cases h
  | cons first enclosing ih =>
      obtain rfl | h := List.mem_cons.1 h
      · refine List.mem_append_left _ ?_
        obtain ⟨items, choice⟩ := level
        cases choice with
        | none => exact List.mem_cons_self
        | some choice => exact List.mem_cons_of_mem _ List.mem_cons_self
      · exact List.mem_append_right _ (ih first.outer h)

/-- An open node that captures is an open group. -/
theorem mem_entries_of_mem_openNodes
    (hcells : level.cells (owner enclosing) more + cells enclosing ⊆ arena.cells)
    (hkind : arena.kind? id = some (.group (some number)))
    (hopen : id ∈ (level.holder (owner enclosing)).2 ::
      level.openBelow (owner enclosing).2 ++ openNodes enclosing) :
    (number, id) ∈ entries enclosing := by
  induction enclosing generalizing level more with
  | nil =>
      rw [openNodes, List.append_nil] at hopen
      obtain ⟨_, hroot⟩ :=
        level.kind?_of_mem_open (Arena.subset_of_add_left hcells) hopen (hkind ▸ nofun)
      cases hkind.symm.trans hroot
  | cons group enclosing ih =>
      obtain hhere | hbelow := List.mem_append.1 hopen
      · obtain ⟨rfl, hgroup⟩ :=
          level.kind?_of_mem_open (Arena.subset_of_add_left hcells) hhere (hkind ▸ nofun)
        have hnumber := Kind.group.inj (Option.some.inj (hgroup.symm.trans hkind))
        exact mem_entries_iff.2 ⟨group, List.mem_cons_self, hnumber, rfl⟩
      · obtain ⟨own, hown, hentry⟩ :=
          mem_entries_iff.1 (ih (Arena.subset_of_add_right hcells) hbelow)
        exact mem_entries_iff.2 ⟨own, List.mem_cons_of_mem _ hown, hentry⟩

end OpenGroup

/-! ## Every round -/

namespace Builder

variable {builder next : Builder} {parser : Parser} {text : List Char}

/-- What holds of a builder before every round. -/
structure Consistent (text : List Char) (builder : Builder) : Prop where
  /-- The open nodes are the root, groups and branches in their order. -/
  openStack : builder.arena.OpenStack builder.depth builder.openNodes
  depth_eq : builder.depth = builder.openNodes.countP builder.arena.isGroup
  groupCount_eq : builder.groupCount = builder.arena.kinds.countP Kind.captures
  groupCount_le : builder.groupCount ≤ maxGroups
  /-- The nodes that are missing among the children of their parents are the open branches. -/
  not_isListed_iff (id : Nat) (entry : Entry) (hentry : builder.arena[id]? = some entry)
    (hroot : id ≠ 0) :
    ¬builder.arena.IsListed id ↔ entry.kind = .branch ∧ id ∈ builder.openNodes
  /-- The table has the capturing groups that are not open. -/
  mem_groups_iff (number id : Nat) : (number, id) ∈ builder.groups ↔
    builder.arena.kind? id = some (.group (some number)) ∧ id ∉ builder.openNodes
  exists_current : ∃ top, builder.current = .ok top
  /-- A closing parenthesis closes a group, after the branch that is open above it. -/
  closes (hdepth : builder.depth ≠ 0) : ∃ next branches group, builder.readClose = .ok next ∧
    builder.openNodes = branches ++ group :: next.openNodes ∧
      builder.arena.isGroup group ∧ group ≠ 0 ∧
      branches.length ≤ 1 ∧ ∀ branch ∈ branches, builder.arena.kind? branch = some .branch
  round_ne_stuck (defect : Defect) : builder.round text ≠ .error (.stuck defect)
  finish_ne_stuck (defect : Defect) : builder.finish ≠ .error (.stuck defect)

/-- The groups that have been counted are those that have been made. -/
theorem groupCount_of_reaches (h : Reaches text .start builder) :
    builder.groupCount = builder.arena.kinds.countP Kind.captures := by
  induction h with
  | refl => rfl
  | tail _ hround ih =>
      obtain ⟨_, count, made, hadds⟩ := round_eq_ok hround
      rw [hadds.groupCount, hadds.kinds, List.countP_append, ih]

/-- A builder is not stuck at the end of the text. -/
theorem Mirrors.finish_ne_stuck (h : builder.Mirrors parser) (defect : Defect) :
    builder.finish ≠ .error (.stuck defect) := by
  rw [h.finish_eq]
  cases parser.conclude <;> exact fun hstuck => nomatch hstuck

/-- The open nodes are a stack. -/
theorem Mirrors.openStack (h : builder.Mirrors parser) :
    builder.arena.OpenStack builder.depth builder.openNodes := by
  rw [h.depth, h.openNodes]
  exact OpenGroup.openStack (le_of_eq h.cells.symm)

/-- A closing parenthesis closes the innermost group. -/
theorem Traces.closes {tokens : List Token} {rest : List Char}
    (h : builder.Traces tokens rest parser) (hdepth : builder.depth ≠ 0) :
    ∃ next branches group, builder.readClose = .ok next ∧
      builder.openNodes = branches ++ group :: next.openNodes ∧
      builder.arena.isGroup group ∧ group ≠ 0 ∧
      branches.length ≤ 1 ∧ ∀ branch ∈ branches, builder.arena.kind? branch = some .branch := by
  have hroot := h.openStack.not_isGroup_zero
  obtain ⟨position, nextId, groupCount, maxExpressionRef, pending, level, enclosing⟩ := parser
  cases enclosing with
  | nil => exact absurd h.depth hdepth
  | cons group enclosing =>
      obtain ⟨next, hclose, hnext⟩ := h.toMirrors.readClose
        (Parser.close_eq_ok_iff.2 ⟨group, enclosing, rfl, rfl⟩) rfl
        (Parser.number_notMem_captures h.consumed List.mem_cons_self)
      have hbelow : next.openNodes = OpenGroup.openNodes (group :: enclosing) := hnext.openNodes
      have hfind {entry : Entry} {id : Nat}
          (hmem : (entry, id) ∈ level.cells (OpenGroup.owner (group :: enclosing)) []) :
          builder.arena.kind? id = some entry.kind :=
        Arena.kind?_eq (Arena.mem_cells.1 (h.cells ▸ Multiset.mem_add.2 (.inl hmem)))
      have hgroup : builder.arena.isGroup group.label.id := by
        obtain ⟨children, howner⟩ :=
          level.exists_owner_mem (OpenGroup.owner (group :: enclosing)) []
        exact (congrArg (Option.any Kind.isGroup) (hfind howner)).trans rfl
      have hne : group.label.id ≠ 0 := fun hzero => hroot (hzero ▸ hgroup)
      have hholder := hfind (level.holder_mem (OpenGroup.owner (group :: enclosing)) [])
      have hopen := h.openNodes
      obtain ⟨items, choice⟩ := level
      cases choice with
      | none =>
          exact ⟨next, [], group.label.id, hclose, hopen.trans (hbelow ▸ rfl), hgroup, hne,
            Nat.zero_le 1, fun _ hbranch => nomatch hbranch⟩
      | some choice =>
          refine ⟨next, [choice.current.id], group.label.id, hclose, hopen.trans (hbelow ▸ rfl),
            hgroup, hne, Nat.le_refl 1, fun branch hbranch => ?_⟩
          rw [List.mem_singleton.1 hbranch]
          exact hholder

namespace Traces

variable {tokens : List Token} {rest : List Char}

/-- A round does not get stuck. -/
theorem round_ne_stuck (h : builder.Traces tokens rest parser)
    (htext : Token.spellAll tokens ++ rest = text) (defect : Defect) :
    builder.round text ≠ .error (.stuck defect) := by
  intro hstuck
  obtain ⟨_, hend⟩ | ⟨result, hresult, hfollows⟩ := h.round_cases htext
  · cases hend.symm.trans hstuck
  · cases result with
    | ok next => cases hresult.symm.trans hstuck
    | error stop =>
        cases hresult.symm.trans hstuck
        exact hfollows

/-- There are at most as many groups as a pattern may have. -/
theorem groupCount_le (h : builder.Traces tokens rest parser) : builder.groupCount ≤ maxGroups := by
  have hle := (Parser.consumeAll_declared (Nat.zero_le _) h.consumed).groups_le
  rwa [← (Parser.consumeAll_tally h.consumed).groupCount, ← h.groupCount] at hle

/-- A capturing group is in the table exactly when it is not open. -/
theorem mem_groups_iff (h : builder.Traces tokens rest parser) {number id : Nat} :
    (number, id) ∈ builder.groups ↔
      builder.arena.kind? id = some (.group (some number)) ∧ id ∉ builder.openNodes := by
  have hcells : builder.arena.cells = parser.cells := h.cells
  have hmem : (number, id) ∈ builder.groups ∨
      (number, id) ∈ OpenGroup.entries parser.enclosing ↔
        builder.arena.kind? id = some (.group (some number)) := by
    rw [← Arena.mem_captures_cells, hcells, Parser.cells, OpenGroup.captures_cells,
      Multiset.mem_add, h.groups_perm.mem_iff]
    rfl
  rw [← hmem, h.openNodes]
  constructor
  · intro hclosed
    refine ⟨.inl hclosed, fun hopen => ?_⟩
    -- Otherwise an open group would have the number of a closed one.
    have hentry := OpenGroup.mem_entries_of_mem_openNodes
      (Multiset.subset_of_le (le_of_eq hcells.symm)) (hmem.1 (.inl hclosed)) hopen
    obtain ⟨group, hgroup, hnumber, _⟩ := OpenGroup.mem_entries_iff.1 hentry
    refine Parser.number_notMem_captures h.consumed hgroup number hnumber ?_
    rw [← parser.groups_numbers]
    exact List.mem_map_of_mem (h.groups_perm.mem_iff.1 hclosed)
  · rintro ⟨hclosed | hentry, hopen⟩
    · exact hclosed
    · obtain ⟨group, hgroup, _, rfl⟩ := OpenGroup.mem_entries_iff.1 hentry
      exact absurd (OpenGroup.label_mem_openNodes parser.level hgroup) hopen

end Traces

/-- The nodes that are not listed are the root and the open branches. -/
theorem Mirrors.not_isListed_iff (h : builder.Mirrors parser) {id : Nat} {entry : Entry}
    (hentry : builder.arena[id]? = some entry) (hroot : id ≠ 0) :
    ¬builder.arena.IsListed id ↔ entry.kind = .branch ∧ id ∈ builder.openNodes := by
  have hcells := h.cells
  constructor
  · intro hlisted
    have hcell : (entry, id) ∈ parser.cells := hcells ▸ Arena.mem_cells.2 hentry
    have hcases :=
      OpenGroup.mem_cells_cases (Multiset.subset_of_le (le_of_eq hcells.symm)) hcell
    rw [h.openNodes]
    exact (hcases.resolve_left hroot).resolve_left hlisted
  · rintro ⟨hkind, hopen⟩
    obtain ⟨alternation, owner, hbranch⟩ := h.openStack.exists_openBranch hopen
      ((Arena.kind?_eq hentry).trans (congrArg some hkind))
    exact hbranch.not_isListed

/-- Before every round on every text the stack of open nodes is in order, and the builder is never
stuck. In the end it has made the arena and the table of the pattern, or it refuses the text as the
parser does. -/
theorem consistent_of_reaches {text : String} (h : Reaches text.toList .start builder) :
    builder.Consistent text.toList ∧ Builder.start.run text.toList =
      ((Pattern.parse text).map Pattern.tree).mapError .rejected := by
  obtain ⟨tokens, rest, parser, htraces, htext⟩ := exists_traces h
  have hstack := htraces.openStack
  refine ⟨⟨hstack, hstack.countP_isGroup.symm, groupCount_of_reaches h, htraces.groupCount_le,
    fun id entry hentry hroot => htraces.not_isListed_iff hentry hroot,
    fun _ _ => htraces.mem_groups_iff,
    ⟨_, current_eq htraces.openNodes_eq⟩, htraces.closes,
    htraces.round_ne_stuck htext, htraces.finish_ne_stuck⟩, run_start text⟩

/-- After `((a)|b` the root, the first group and its second branch are open, and the second group is
in the table. -/
theorem consistent_of_reaches_branch : ∃ builder, Reaches "((a)|b".toList .start builder ∧
    builder.openNodes = [6, 1, 0] ∧ builder.depth = 1 ∧ builder.groups = [(2, 2)] ∧
    builder.Consistent "((a)|b".toList ∧ Builder.start.run "((a)|b".toList =
      ((Pattern.parse "((a)|b").map Pattern.tree).mapError .rejected := by
  have hreaches : Reaches "((a)|b".toList .start
      { position := 6
        arena := [⟨.sequence, [1], none, 0⟩, ⟨.group (some 1), [4], some 0, 0⟩,
          ⟨.group (some 2), [3], some 5, 1⟩, ⟨.literal 'a', [], some 2, 2⟩,
          ⟨.alternation, [5], some 1, 1⟩, ⟨.branch, [2], some 4, 1⟩, ⟨.branch, [7], some 4, 5⟩,
          ⟨.literal 'b', [], some 6, 5⟩]
        openNodes := [6, 1, 0]
        depth := 1
        groupCount := 2
        maxExpressionRef := 0
        groups := [(2, 2)] } :=
    .head (by rfl) (.head (by rfl) (.head (by rfl) (.head (by rfl) (.head (by rfl)
      (.head (by rfl) .refl)))))
  exact ⟨_, hreaches, rfl, rfl, rfl, consistent_of_reaches hreaches⟩

end Builder

end Backref
