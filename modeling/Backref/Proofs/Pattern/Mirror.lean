import Backref.Proofs.Pattern.Builder
import Backref.Proofs.Pattern.Closing
import Backref.Proofs.Pattern.Fault
import Backref.Proofs.Pattern.Subtree

/-!
# The arena of a parser

A parser holds the nodes of the levels that are open, and so it determines the arena of a builder
that has read the same text: `Parser.cells` are the nodes with their parents and children, and
`Parser.openNodes` is the stack. `Parser.groups` is the table of the groups that have been closed.
`Builder.Mirrors` says that a builder has this arena, this stack and this table, and one lemma for
each operation says that a builder goes on to mirror the parser.
-/

namespace Backref

/-! ## The nodes of a parser -/

mutual

/-- A node below the given parent, and everything below the node. -/
def Node.cells (parent : Nat) : Node → Multiset (Entry × Nat)
  | ⟨label, kind, children⟩ =>
    {(⟨kind, children.map Node.id, some parent, label.position⟩, label.id)} +
      Node.cellsAll label.id children

/-- Some nodes below the given parent, and everything below them. -/
def Node.cellsAll (parent : Nat) : List Node → Multiset (Entry × Nat)
  | [] => 0
  | node :: nodes => node.cells parent + Node.cellsAll parent nodes

end

namespace Node

@[simp] theorem cellsAll_nil (parent : Nat) : cellsAll parent [] = 0 := rfl

theorem cellsAll_cons (parent : Nat) (node : Node) (nodes : List Node) :
    cellsAll parent (node :: nodes) = node.cells parent + cellsAll parent nodes := rfl

theorem cells_mk (parent : Nat) (label : Label) (kind : Kind) (children : List Node) :
    cells parent ⟨label, kind, children⟩ =
      {(⟨kind, children.map Node.id, some parent, label.position⟩, label.id)} +
        cellsAll label.id children := rfl

/-- What lies below two lists of nodes. -/
theorem cellsAll_append (parent : Nat) (nodes nodes' : List Node) :
    cellsAll parent (nodes ++ nodes') = cellsAll parent nodes + cellsAll parent nodes' := by
  induction nodes with
  | nil => exact (zero_add _).symm
  | cons node nodes ih => rw [List.cons_append, cellsAll, ih, cellsAll, add_assoc]

/-- The nodes themselves are among the cells. -/
theorem id_mem_cellsAll (parent : Nat) {node : Node} {nodes : List Node} (h : node ∈ nodes) :
    node.id ∈ (cellsAll parent nodes).map Prod.snd := by
  induction nodes with
  | nil => cases h
  | cons first nodes ih =>
      rw [cellsAll, Multiset.map_add, Multiset.mem_add]
      obtain rfl | h := List.mem_cons.1 h
      · obtain ⟨label, kind, children⟩ := node
        rw [cells, Multiset.map_add, Multiset.mem_add]
        exact .inl (.inl (Multiset.mem_singleton_self _))
      · exact .inr (ih h)

theorem cellsAll_singleton (parent : Nat) (node : Node) :
    cellsAll parent [node] = node.cells parent := add_zero _

/-- The order of the nodes does not matter. -/
theorem cellsAll_reverse (parent : Nat) (nodes : List Node) :
    cellsAll parent nodes.reverse = cellsAll parent nodes := by
  induction nodes with
  | nil => rfl
  | cons node nodes ih =>
      rw [List.reverse_cons, cellsAll_append, cellsAll_singleton, ih, cellsAll, add_comm]

end Node

/-- The current branch comes after the closed ones. -/
theorem Choice.ids_close (choice : Choice) (items : List Node) :
    (choice.close items).reverse.map Node.id =
      choice.closed.reverse.map Node.id ++ [choice.current.id] := by
  rw [close, List.reverse_cons, List.map_append]
  rfl

namespace Level

/-- The node to which the items of the level belong: the current branch or, without a bar, the owner
of the level. -/
def holder (level : Level) (owner : Entry × Nat) : Entry × Nat :=
  match level.choice with
  | none => owner
  | some choice =>
    (⟨.branch, [], some choice.label.id, choice.current.position⟩, choice.current.id)

/-- The nodes of the level that do not depend on the present items. -/
def frame (level : Level) (owner : Entry × Nat) : Multiset (Entry × Nat) :=
  match level.choice with
  | none => 0
  | some choice =>
    {(owner.1.withChildren [choice.label.id], owner.2)} +
      {(⟨.alternation, choice.closed.reverse.map Node.id, some owner.2, choice.label.position⟩,
        choice.label.id)} +
      Node.cellsAll choice.label.id choice.closed

/-- The nodes of the level, whose items come before some more children. -/
def cells (level : Level) (owner : Entry × Nat) (more : List Nat) : Multiset (Entry × Nat) :=
  {((level.holder owner).1.withChildren (level.items.reverse.map Node.id ++ more),
    (level.holder owner).2)} +
    Node.cellsAll (level.holder owner).2 level.items + level.frame owner

/-- The nodes of the level at its end. -/
def closedCells (level : Level) (owner : Entry × Nat) : Multiset (Entry × Nat) :=
  {(owner.1.withChildren (level.nodes.map Node.id), owner.2)} +
    Node.cellsAll owner.2 level.nodes

/-- The open nodes below the one that holds the items. -/
def openBelow (level : Level) (owner : Nat) : List Nat :=
  match level.choice with
  | none => []
  | some _ => [owner]

/-- Without a bar the items belong to the owner of the level. -/
theorem cells_none (items : List Node) (owner : Entry × Nat) (more : List Nat) :
    (Level.mk items none).cells owner more =
      {(owner.1.withChildren (items.reverse.map Node.id ++ more), owner.2)} +
        Node.cellsAll owner.2 items :=
  add_zero _

/-- After a bar they belong to the current branch, which is not listed in its alternation. -/
theorem cells_some (items : List Node) (choice : Choice) (owner : Entry × Nat)
    (more : List Nat) : (Level.mk items (some choice)).cells owner more =
      {(⟨.branch, items.reverse.map Node.id ++ more, some choice.label.id,
        choice.current.position⟩, choice.current.id)} +
      ({(⟨.alternation, choice.closed.reverse.map Node.id, some owner.2, choice.label.position⟩,
        choice.label.id)} +
      ({(owner.1.withChildren [choice.label.id], owner.2)} +
        Node.cellsAll choice.label.id choice.closed + Node.cellsAll choice.current.id items)) := by
  simp only [cells, holder, frame, Entry.withChildren_mk]
  ac_rfl

/-- The current branch is none of the closed ones. -/
theorem current_notMem {items : List Node} {choice : Choice} {owner : Entry × Nat}
    {more : List Nat} {arena : Arena}
    (h : (Level.mk items (some choice)).cells owner more ≤ arena.cells) :
    choice.current.id ∉ choice.closed.reverse.map Node.id := by
  intro hmem
  obtain ⟨branch, hbranch, hid⟩ := List.mem_map.1 hmem
  have hlisted := Node.id_mem_cellsAll choice.label.id (List.mem_reverse.1 hbranch)
  have hnodup := Multiset.nodup_of_le (Multiset.map_le_map h) arena.nodup_cells
  rw [cells_some, Multiset.map_add, Multiset.map_singleton, Multiset.singleton_add] at hnodup
  refine (Multiset.nodup_cons.1 hnodup).1 ?_
  simp only [Multiset.map_add, Multiset.mem_add]
  exact .inr (.inl (.inr (hid ▸ hlisted)))

/-- An item that is added is listed last. -/
theorem cells_add (level : Level) (item : Node) (owner : Entry × Nat) (more : List Nat) :
    (level.add item).cells owner more =
      level.cells owner (item.id :: more) + item.cells (level.holder owner).2 := by
  have hholder : (level.add item).holder owner = level.holder owner := rfl
  have hframe : (level.add item).frame owner = level.frame owner := rfl
  have hitems : (level.add item).items = item :: level.items := rfl
  rw [cells, cells, hholder, hframe, hitems, Node.cellsAll, List.reverse_cons, List.map_append,
    List.append_assoc]
  exact (by ac_rfl)

/-- The cells of a level whose last item is known. -/
theorem cells_add_mk (level : Level) (label : Label) (kind : Kind) (children : List Node)
    (owner : Entry × Nat) :
    (level.add ⟨label, kind, children⟩).cells owner [] =
      {((level.holder owner).1.withChildren (level.items.reverse.map Node.id ++ [label.id]),
        (level.holder owner).2)} +
      ({(⟨kind, children.map Node.id, some (level.holder owner).2, label.position⟩, label.id)} +
      (Node.cellsAll label.id children + Node.cellsAll (level.holder owner).2 level.items +
        level.frame owner)) := by
  rw [cells_add, cells, Node.cells]
  exact (by ac_rfl)

/-- The nodes of a level without a bar at its end. -/
theorem closedCells_none (items : List Node) (owner : Entry × Nat) :
    (Level.mk items none).closedCells owner = (Level.mk items none).cells owner [] := by
  rw [closedCells, cells_none, show (Level.mk items none).nodes = items.reverse from rfl,
    Node.cellsAll_reverse, List.append_nil]

/-- The nodes of a level with a bar at its end: the last branch is listed in the alternation. -/
theorem closedCells_some (items : List Node) (choice : Choice) (owner : Entry × Nat) :
    (Level.mk items (some choice)).closedCells owner =
      {(⟨.alternation, choice.closed.reverse.map Node.id ++ [choice.current.id], some owner.2,
        choice.label.position⟩, choice.label.id)} +
      ({(owner.1.withChildren [choice.label.id], owner.2)} +
        Node.cellsAll choice.label.id choice.closed +
        {(⟨.branch, items.reverse.map Node.id, some choice.label.id, choice.current.position⟩,
          choice.current.id)} + Node.cellsAll choice.current.id items) := by
  rw [closedCells,
    show (Level.mk items (some choice)).nodes =
      [⟨choice.label, .alternation, (choice.close items).reverse⟩] from rfl,
    Node.cellsAll_singleton, Node.cells, choice.ids_close, Node.cellsAll_reverse, Choice.close,
    Node.cellsAll, Node.cells, Node.cellsAll_reverse]
  exact (by ac_rfl)

/-- A later bar closes a branch and opens the next one. -/
theorem cells_nextBranch (items : List Node) (choice : Choice) (label : Label)
    (owner : Entry × Nat) :
    (Level.mk [] (some ⟨choice.label, choice.close items, label⟩)).cells owner [] =
      (Level.mk items (some choice)).closedCells owner +
        {(⟨.branch, [], some choice.label.id, label.position⟩, label.id)} := by
  rw [cells_some, closedCells_some]
  dsimp only
  rw [choice.ids_close, Choice.close, Node.cellsAll_cons, Node.cells_mk, Node.cellsAll_reverse,
    Node.cellsAll_nil, add_zero, List.reverse_nil, List.map_nil, List.nil_append]
  exact (by ac_rfl)

/-- The first bar puts the items into the first branch of an alternation. -/
theorem cells_firstBranch (items : List Node) (label first second : Label) (owner : Entry × Nat) :
    (Level.mk [] (some ⟨label, [⟨first, .branch, items.reverse⟩], second⟩)).cells owner [] =
      {(owner.1.withChildren [label.id], owner.2)} +
        ({(⟨.alternation, [first.id], some owner.2, label.position⟩, label.id)} +
          ({(⟨.branch, items.reverse.map Node.id, some label.id, first.position⟩, first.id)} +
            Node.cellsAll first.id items.reverse)) +
        {(⟨.branch, [], some label.id, second.position⟩, second.id)} := by
  rw [cells_some]
  dsimp only
  rw [Node.cellsAll_singleton, Node.cells_mk, Node.cellsAll_nil, add_zero, List.reverse_nil,
    List.map_nil, List.nil_append, List.reverse_singleton, List.map_singleton,
    show Node.id ⟨first, .branch, items.reverse⟩ = first.id from rfl]
  exact (by ac_rfl)

/-- A level begins where its first item begins. -/
theorem elim_head?_reverse (items : List Node) (choice : Option Choice) (bar : Nat) :
    items.reverse.head?.elim bar Node.position = beginning ⟨items, choice⟩ bar := by
  rw [List.head?_reverse, beginning]
  cases items.getLast? <;> rfl

/-- Before its first item a level is just its owner. -/
theorem cells_start (owner : Entry × Nat) :
    Level.start.cells owner [] = {(owner.1.withChildren [], owner.2)} :=
  (add_zero _).trans (add_zero _)

end Level

/-! ## Inside the open groups -/

namespace OpenGroup

/-- The node that owns the level inside the open groups: the innermost group or the root. Its
children are left out. -/
def owner : List OpenGroup → Entry × Nat
  | [] => (⟨.sequence, [], none, 0⟩, 0)
  | group :: enclosing =>
    (⟨.group group.number, [], some (group.outer.holder (owner enclosing)).2,
      group.label.position⟩, group.label.id)

/-- The nodes of the levels around the open groups. -/
def cells : List OpenGroup → Multiset (Entry × Nat)
  | [] => 0
  | group :: enclosing =>
    group.outer.cells (owner enclosing) [group.label.id] + cells enclosing

/-- The open nodes around the open groups, innermost first. -/
def openNodes : List OpenGroup → List Nat
  | [] => []
  | group :: enclosing =>
    (group.outer.holder (owner enclosing)).2 :: group.outer.openBelow (owner enclosing).2 ++
      openNodes enclosing

/-- No branch owns a level. -/
theorem kind_owner_ne_branch (enclosing : List OpenGroup) : (owner enclosing).1.kind ≠ .branch := by
  cases enclosing <;> exact Kind.noConfusion

/-- A node to which items belong keeps a list of children. -/
theorem keepsChildren_holder (level : Level) (enclosing : List OpenGroup) :
    (level.holder (owner enclosing)).1.kind.keepsChildren := by
  obtain ⟨items, choice⟩ := level
  cases choice with
  | some choice => rfl
  | none => cases enclosing <;> rfl

end OpenGroup

namespace Parser

/-- The node to which the next item will belong. -/
def holder (parser : Parser) : Entry × Nat :=
  parser.level.holder (OpenGroup.owner parser.enclosing)

/-- The nodes that have been read, with their parents and children. -/
def cells (parser : Parser) : Multiset (Entry × Nat) :=
  parser.level.cells (OpenGroup.owner parser.enclosing) [] + OpenGroup.cells parser.enclosing

/-- The nodes that are open, innermost first. -/
def openNodes (parser : Parser) : List Nat :=
  parser.holder.2 :: parser.level.openBelow (OpenGroup.owner parser.enclosing).2 ++
    OpenGroup.openNodes parser.enclosing

end Parser

/-! ## The table of groups of a parser -/

/-- How a capturing group stands in a table: under its number, with its identifier. -/
def GroupTable.entryOf : Label × Nat → Nat × Nat
  | (label, number) => (number, label.id)

namespace Parser

variable {parser next : Parser}

/-- The entries of the capturing groups that have been closed. -/
def groups (parser : Parser) : List (Nat × Nat) := parser.captures.map GroupTable.entryOf

/-- The numbers in the table. -/
theorem groups_numbers (parser : Parser) :
    parser.groups.map Prod.fst = parser.captures.map Prod.snd := by
  rw [groups, List.map_map]
  rfl

/-- What closes no group leaves the table as it is. -/
theorem groups_eq (h : next.captures = parser.captures) : next.groups = parser.groups :=
  congrArg (List.map _) h

/-- A closing parenthesis adds the group that it closes, if that one has a number. -/
theorem groups_close {group : OpenGroup} {enclosing : List OpenGroup}
    (h : parser.close = .ok next) (henclosing : parser.enclosing = group :: enclosing) :
    next.groups.Perm
      (group.number.toList.map (fun number => (number, group.label.id)) ++ parser.groups) := by
  have hcaptures := (captures_close h).map GroupTable.entryOf
  rw [henclosing, List.map_append] at hcaptures
  refine hcaptures.trans (.of_eq (congrArg (· ++ _) ?_))
  rw [List.head?_cons, Option.bind_some, OpenGroup.numbered?]
  cases group.number <;> rfl

end Parser

/-! ## What a builder mirrors -/

/-- The builder has the arena and the stack of the parser. -/
structure Builder.Holds (builder : Builder) (parser : Parser) : Prop where
  cells : builder.arena.cells = parser.cells
  length : builder.arena.length = parser.nextId
  openNodes : builder.openNodes = parser.openNodes

/-- The builder stands where the parser stands, and its table has the groups that the parser has
closed. -/
structure Builder.Mirrors (builder : Builder) (parser : Parser) : Prop
    extends builder.Holds parser where
  position : builder.position = parser.position
  depth : builder.depth = parser.enclosing.length
  groupCount : builder.groupCount = parser.groupCount
  maxExpressionRef : builder.maxExpressionRef = parser.maxExpressionRef
  groups_perm : builder.groups.Perm parser.groups
  groups_sorted : builder.groups.IsSorted

namespace Arena

variable {arena : Arena} {rest : Multiset (Entry × Nat)}

/-- Nodes that get another parent. -/
theorem setParents_eq {nodes : List Node} {owner : Nat} (parent : Nat)
    (h : arena.cells = Node.cellsAll owner nodes + rest) :
    ∃ arena', arena.setParents (nodes.map Node.id) parent = .ok arena' ∧
      arena'.cells = Node.cellsAll parent nodes + rest := by
  induction nodes generalizing arena rest with
  | nil => exact ⟨arena, rfl, h⟩
  | cons node nodes ih =>
      obtain ⟨label, kind, children⟩ := node
      rw [Node.cellsAll, Node.cells, add_assoc, add_assoc] at h
      obtain ⟨moved, hmoved, hcells⟩ := setParent_eq h parent
      have hothers : moved.cells = Node.cellsAll owner nodes +
          (Node.cells parent ⟨label, kind, children⟩ + rest) := by
        rw [hcells, Node.cells]
        exact (by ac_rfl)
      obtain ⟨arena', harena', hcells'⟩ := ih hothers
      refine ⟨arena', Except.bind_eq_ok_iff.2 ⟨moved, hmoved, harena'⟩, ?_⟩
      rw [hcells', Node.cellsAll]
      exact (by ac_rfl)

/-- An alternation that gets nodes into its first branch. -/
theorem fillAlternation_eq {nodes : List Node} {owner parent node branch position : Nat}
    {entry : Entry}
    (h : arena.cells = {(⟨.branch, [], some node, position⟩, branch)} +
      ({(⟨.alternation, [], some parent, position⟩, node)} +
        ({(entry, parent)} + (Node.cellsAll owner nodes + rest))))
    (hkind : entry.kind.keepsChildren) :
    ∃ arena', arena.fillAlternation (nodes.map Node.id) parent node branch = .ok arena' ∧
      arena'.cells = {(entry.withChildren (entry.children ++ [node]), parent)} +
        ({(⟨.alternation, [branch], some parent, position⟩, node)} +
          ({(⟨.branch, nodes.map Node.id, some node, position⟩, branch)} +
            (Node.cellsAll branch nodes + rest))) := by
  have hnodes : arena.cells = Node.cellsAll owner nodes +
      ({(⟨.branch, [], some node, position⟩, branch)} +
        ({(⟨.alternation, [], some parent, position⟩, node)} + ({(entry, parent)} + rest))) :=
    h.trans (by ac_rfl)
  obtain ⟨placed, hplaced, hcellsPlaced⟩ := setParents_eq branch hnodes
  obtain ⟨filled, hfilled, hcellsFilled⟩ :=
    changeChildren_eq (hcellsPlaced.trans (add_left_comm _ _ _)) rfl fun _ => nodes.map Node.id
  have halternation : filled.cells = {(⟨.alternation, [], some parent, position⟩, node)} +
      ({(entry, parent)} + ({(⟨.branch, nodes.map Node.id, some node, position⟩, branch)} +
        (Node.cellsAll branch nodes + rest))) :=
    hcellsFilled.trans (by rw [Entry.withChildren_mk]; ac_rfl)
  obtain ⟨listed, hlisted, hcellsListed⟩ := listChild_eq halternation rfl branch
  obtain ⟨arena', harena', hcells⟩ :=
    listChild_eq (hcellsListed.trans (add_left_comm _ _ _)) hkind node
  exact ⟨arena', Except.bind_eq_ok_iff.2 ⟨placed, hplaced, Except.bind_eq_ok_iff.2
    ⟨filled, hfilled, Except.bind_eq_ok_iff.2 ⟨listed, hlisted, harena'⟩⟩⟩, hcells⟩

end Arena

namespace Builder

variable {builder : Builder} {parser : Parser}

/-- The beginning of some nodes is that of the first one. -/
theorem beginning_eq {arena : Arena} {nodes : List Node} {owner : Nat}
    {rest : Multiset (Entry × Nat)} (h : arena.cells = Node.cellsAll owner nodes + rest)
    (bar : Nat) : beginning arena bar (nodes.map Node.id) =
      .ok (nodes.head?.elim bar Node.position) := by
  cases nodes with
  | nil => rfl
  | cons node nodes =>
      obtain ⟨label, kind, children⟩ := node
      rw [Node.cellsAll, Node.cells, add_assoc, add_assoc] at h
      exact Except.bind_eq_ok_iff.2 ⟨_, Arena.entry_eq h, rfl⟩

/-- A new alternation takes the children of the open node into its first branch. -/
theorem startAlternation_eq {top : Nat} {more : List Nat} {entry : Entry} {nodes : List Node}
    {rest : Multiset (Entry × Nat)} (hopen : builder.openNodes = top :: more)
    (hcells : builder.arena.cells = {(entry, top)} + (Node.cellsAll top nodes + rest))
    (hkind : entry.kind.keepsChildren) (hchildren : entry.children = nodes.map Node.id)
    (bar beginning node : Nat) (hbeginning : nodes.head?.elim bar Node.position = beginning)
    (hnode : builder.arena.length = node) :
    ∃ arena : Arena,
      builder.startAlternation bar = .ok ({ builder with arena := arena }, node) ∧
      arena.length = node + 2 ∧ arena.cells = {(entry.withChildren [node], top)} +
        ({(⟨.alternation, [node + 1], some top, beginning⟩, node)} +
          ({(⟨.branch, nodes.map Node.id, some node, beginning⟩, node + 1)} +
            (Node.cellsAll (node + 1) nodes + rest))) := by
  obtain ⟨emptied, hemptied, hcellsEmptied⟩ := Arena.takeChildren_eq hcells hkind
  have hlength : emptied.length = node :=
    (Arena.length_eq_of_kinds_eq (Arena.kinds_of_takeChildren hemptied)).trans hnode
  have hbegin := beginning_eq (hcellsEmptied.trans (add_left_comm _ _ _)) bar
  rw [hbeginning] at hbegin
  have hpushed := emptied.cells_pushAlternation top beginning
  rw [hlength, hcellsEmptied] at hpushed
  obtain ⟨arena, hfilled, hcellsFilled⟩ := Arena.fillAlternation_eq hpushed hkind
  have hstarted : builder.startAlternation bar = .ok ({ builder with arena := arena }, node) := by
    refine Except.bind_eq_ok_iff.2 ⟨_, current_eq hopen, Except.bind_eq_ok_iff.2
      ⟨_, hemptied, ?_⟩⟩
    rw [hchildren]
    refine Except.bind_eq_ok_iff.2 ⟨_, hbegin, ?_⟩
    rw [hlength]
    exact Except.bind_eq_ok_iff.2 ⟨_, hfilled, rfl⟩
  refine ⟨arena, hstarted, ?_, hcellsFilled⟩
  rw [Arena.length_eq_of_kinds_eq (Arena.kinds_of_fillAlternation hfilled), ← hlength]
  exact List.length_append.trans (congrArg (· + 1) List.length_append)

namespace Holds

/-- The node that holds the items of the parser is the innermost open one. -/
theorem openNodes_eq (h : builder.Holds parser) : builder.openNodes =
    parser.holder.2 :: (parser.level.openBelow (OpenGroup.owner parser.enclosing).2 ++
      OpenGroup.openNodes parser.enclosing) :=
  h.openNodes

/-- A node that is appended is listed after the items of the parser. -/
theorem append_eq (h : builder.Holds parser) (kind : Kind) (start : Nat) :
    ∃ arena, builder.append kind start = .ok { builder with arena := arena } ∧
      arena.length = parser.nextId + 1 ∧
      arena.cells = parser.level.cells (OpenGroup.owner parser.enclosing) [parser.nextId] +
        {(⟨kind, [], some parser.holder.2, start⟩, parser.nextId)} +
        OpenGroup.cells parser.enclosing := by
  have hcells := h.cells
  rw [Parser.cells, Level.cells, List.append_nil, add_assoc, add_assoc] at hcells
  obtain ⟨arena, harena, happended⟩ :=
    Builder.append_eq h.openNodes_eq hcells (OpenGroup.keepsChildren_holder _ _) kind start
  rw [h.length] at happended
  refine ⟨arena, harena, ?_, ?_⟩
  · rw [← arena.card_cells, happended, ← h.length, ← builder.arena.card_cells, hcells]
    simp only [Multiset.card_add, Multiset.card_singleton]
    ac_rfl
  · rw [happended, Level.cells]
    exact (by ac_rfl)

/-- A leaf is appended as the parser adds it. -/
theorem addLeaf (h : builder.Holds parser) (kind : Kind) (start : Nat) :
    ∃ arena, builder.append kind start = .ok { builder with arena := arena } ∧
      { builder with arena := arena }.Holds (parser.addLeaf kind start) := by
  obtain ⟨arena, happend, hlength, hcells⟩ := h.append_eq kind start
  refine ⟨arena, happend, ?_, hlength, h.openNodes⟩
  have hadd := parser.level.cells_add ⟨⟨parser.nextId, start⟩, kind, []⟩
    (OpenGroup.owner parser.enclosing) []
  rw [Node.cells, Node.cellsAll, add_zero] at hadd
  exact hcells.trans (congrArg (· + _) hadd.symm)

/-- A group is opened as the parser opens it. -/
theorem openGroup (h : builder.Holds parser) (number : Option Nat) (start : Nat) :
    ∃ arena, builder.openGroup number start = .ok { builder with
        arena := arena
        openNodes := parser.nextId :: builder.openNodes
        depth := builder.depth + 1 } ∧
      { builder with
        arena := arena
        openNodes := parser.nextId :: builder.openNodes
        depth := builder.depth + 1 }.Holds (parser.openGroup number start) := by
  have hdeeper : { builder with depth := builder.depth + 1 }.Holds parser :=
    ⟨h.cells, h.length, h.openNodes⟩
  obtain ⟨arena, happend, hlength, hcells⟩ := hdeeper.append_eq (.group number) start
  refine ⟨arena, Except.bind_eq_ok_iff.2 ⟨_, happend, ?_⟩, ?_, hlength, ?_⟩
  · rw [h.length]
    rfl
  · have hstart : (parser.openGroup number start).cells =
        {(⟨.group number, [], some parser.holder.2, start⟩, parser.nextId)} +
          (parser.level.cells (OpenGroup.owner parser.enclosing) [parser.nextId] +
            OpenGroup.cells parser.enclosing) :=
      congrArg (· + _) (Level.cells_start _)
    rw [hcells, hstart]
    exact (by ac_rfl)
  · exact congrArg _ h.openNodes

/-- Closing a branch ends the level. Without a bar nothing is to be done, and the node that is open
is the owner of the level. -/
theorem closeBranch_eq (h : builder.Holds parser) : ∃ arena,
    builder.closeBranch = .ok ({ builder with
      arena := arena
      openNodes := (OpenGroup.owner parser.enclosing).2 :: OpenGroup.openNodes parser.enclosing },
      parser.level.choice.map fun choice => choice.current.id) ∧
    arena.length = parser.nextId ∧
    arena.cells = parser.level.closedCells (OpenGroup.owner parser.enclosing) +
      OpenGroup.cells parser.enclosing := by
  obtain ⟨position, nextId, groupCount, maxExpressionRef, pending, ⟨items, choice⟩, enclosing⟩ :=
    parser
  have hcells : builder.arena.cells = (Level.mk items choice).cells (OpenGroup.owner enclosing) [] +
      OpenGroup.cells enclosing := h.cells
  cases choice with
  | none =>
      have hopen : builder.openNodes =
          (OpenGroup.owner enclosing).2 :: OpenGroup.openNodes enclosing := h.openNodes
      rw [← Level.closedCells_none] at hcells
      refine ⟨builder.arena, ?_, h.length, hcells⟩
      rw [Level.closedCells, add_assoc] at hcells
      rw [closeBranch_of_ne hopen hcells (OpenGroup.kind_owner_ne_branch enclosing), ← hopen]
      rfl
  | some choice =>
      have hopen : builder.openNodes = choice.current.id :: (OpenGroup.owner enclosing).2 ::
          OpenGroup.openNodes enclosing := h.openNodes
      have hnew := Level.current_notMem (hcells ▸ Multiset.le_add_right _ _)
      rw [Level.cells_some, List.append_nil, add_assoc, add_assoc] at hcells
      obtain ⟨arena, hclose, hclosed⟩ := closeBranch_of_branch hopen hcells rfl rfl hnew
      refine ⟨arena, hclose, ?_, ?_⟩
      · rw [← h.length, ← arena.card_cells, hclosed, ← builder.arena.card_cells, hcells]
        simp only [Multiset.card_add, Multiset.card_singleton]
      · rw [hclosed, Level.closedCells_some, Entry.withChildren_mk]
        exact (by ac_rfl)

end Holds

/-- At first there is only the root. -/
theorem mirrors_start : Builder.start.Mirrors .start where
  position := rfl
  cells := rfl
  length := rfl
  openNodes := rfl
  depth := rfl
  groupCount := rfl
  maxExpressionRef := rfl
  groups_perm := .refl _
  groups_sorted := .nil

namespace Mirrors

variable {next : Parser} {text : List Char}

/-- A leaf whose text the builder has come to. -/
theorem addLeaf (h : builder.Mirrors parser) (kind : Kind) (count : Nat)
    (hkind : Node.numbered? ⟨⟨parser.nextId, parser.position⟩, kind, []⟩ = none) :
    ∃ appended, builder.append kind builder.position = .ok appended ∧
      { appended with position := builder.position + count }.Mirrors
        ((parser.addLeaf kind parser.position).advance count) := by
  obtain ⟨arena, happend, hholds⟩ := h.toHolds.addLeaf kind builder.position
  rw [h.position] at hholds
  have hgroups := Parser.groups_eq (Parser.captures_addLeaf parser parser.position hkind)
  exact ⟨_, happend, ⟨hholds.cells, hholds.length, hholds.openNodes⟩,
    congrArg (· + count) h.position, h.depth, h.groupCount, h.maxExpressionRef,
    h.groups_perm.trans (.of_eq hgroups.symm), h.groups_sorted⟩

/-- A group whose text the builder has come to. -/
theorem openGroup (h : builder.Mirrors parser) (number : Option Nat) (count : Nat) :
    ∃ opened, builder.openGroup number builder.position = .ok opened ∧
      { opened with position := builder.position + count }.Mirrors
        ((parser.openGroup number parser.position).advance count) := by
  obtain ⟨arena, hopen, hholds⟩ := h.toHolds.openGroup number builder.position
  rw [h.position] at hholds
  have hgroups := Parser.groups_eq (parser.captures_openGroup number parser.position)
  exact ⟨_, hopen, ⟨hholds.cells, hholds.length, hholds.openNodes⟩,
    congrArg (· + count) h.position, congrArg (· + 1) h.depth, h.groupCount, h.maxExpressionRef,
    h.groups_perm.trans (.of_eq hgroups.symm), h.groups_sorted⟩

/-- A star that the parser reads. -/
theorem readStar (h : builder.Mirrors parser) (hfollows : followsAtom text builder.position)
    (hstar : parser.star = .ok next) :
    ∃ builder', builder.readStar text = .ok builder' ∧ builder'.Mirrors (next.advance 1) := by
  have hgroups := Parser.groups_eq (Parser.captures_star hstar)
  obtain ⟨⟨label, kind, children⟩, items, hitems, _, rfl⟩ := Parser.star_eq_ok_iff.1 hstar
  have hlevel : parser.level = Level.add ⟨items, parser.level.choice⟩ ⟨label, kind, children⟩ := by
    rw [Level.add, ← hitems]
  have hcells := h.cells
  rw [Parser.cells, hlevel, Level.cells_add_mk, add_assoc, add_assoc] at hcells
  obtain ⟨arena, hread, hstarred⟩ := readStar_eq hfollows h.openNodes hcells
    (OpenGroup.keepsChildren_holder _ _) rfl
  rw [Entry.withChildren_withChildren, Entry.withParent_mk, h.length] at hstarred
  refine ⟨_, hread, ⟨hstarred.trans ?_, ?_, h.openNodes⟩, congrArg (· + 1) h.position, h.depth,
    h.groupCount, h.maxExpressionRef, h.groups_perm.trans (.of_eq hgroups.symm), h.groups_sorted⟩
  · have hnext := Level.cells_add_mk ⟨items, parser.level.choice⟩ ⟨parser.nextId, label.position⟩
      .repetition [⟨label, kind, children⟩] (OpenGroup.owner parser.enclosing)
    rw [Node.cellsAll_singleton, Node.cells] at hnext
    refine Eq.trans ?_ (congrArg (· + _) hnext).symm
    exact (by ac_rfl)
  · show arena.length = parser.nextId + 1
    rw [← h.length, ← arena.card_cells, ← builder.arena.card_cells, hstarred, hcells]
    simp only [Multiset.card_add, Multiset.card_singleton]
    omega

/-- A closing parenthesis that the parser reads. -/
theorem readClose {group : OpenGroup} {enclosing : List OpenGroup} (h : builder.Mirrors parser)
    (hclose : parser.close = .ok next) (henclosing : parser.enclosing = group :: enclosing)
    (hnumber : ∀ number ∈ group.number, number ∉ parser.captures.map Prod.snd) :
    ∃ builder', builder.readClose = .ok builder' ∧ builder'.Mirrors (next.advance 1) := by
  have hnew : ∀ number ∈ group.number, number ∉ builder.groups.map Prod.fst := by
    intro number hmem hentry
    refine hnumber number hmem ?_
    rw [← parser.groups_numbers]
    exact (h.groups_perm.map Prod.fst).mem_iff.1 hentry
  have hgroups := ((GroupTable.register_perm hnew group.label.id).trans
    (h.groups_perm.append_left _)).trans (Parser.groups_close hclose henclosing).symm
  obtain ⟨_, _, henclosing', rfl⟩ := Parser.close_eq_ok_iff.1 hclose
  cases henclosing.symm.trans henclosing'
  have hdepth : builder.depth = enclosing.length + 1 := by
    rw [h.depth, henclosing, List.length_cons]
  have hshallower : { builder with depth := builder.depth - 1 }.Holds parser :=
    ⟨h.cells, h.length, h.openNodes⟩
  obtain ⟨arena, hbranch, hlength, hcells⟩ := hshallower.closeBranch_eq
  rw [henclosing] at hbranch hcells
  have hgroup := hcells
  rw [Level.closedCells, add_assoc] at hgroup
  refine ⟨{ builder with
    arena := arena
    openNodes := OpenGroup.openNodes (group :: enclosing)
    depth := builder.depth - 1
    groups := builder.groups.register group.number group.label.id
    position := builder.position + 1 }, ?_, ⟨?_, hlength, rfl⟩, congrArg (· + 1) h.position, ?_,
    h.groupCount, h.maxExpressionRef, hgroups, h.groups_sorted.register _ _⟩
  · refine (if_neg (hdepth ▸ Nat.succ_ne_zero _)).trans (Except.bind_eq_ok_iff.2 ⟨_, hbranch, ?_⟩)
    exact Except.bind_eq_ok_iff.2 ⟨_, rfl, Except.bind_eq_ok_iff.2 ⟨_, Arena.entry_eq hgroup, rfl⟩⟩
  · have hadd := Level.cells_add group.outer ⟨group.label, .group group.number, parser.level.nodes⟩
      (OpenGroup.owner enclosing) []
    rw [Node.cells] at hadd
    refine hcells.trans (Eq.trans ?_ (congrArg (· + OpenGroup.cells enclosing) hadd).symm)
    rw [Level.closedCells, OpenGroup.cells]
    exact (by ac_rfl)
  · exact (congrArg (· - 1) hdepth).trans (Nat.add_sub_cancel _ _)

/-- A bar that the parser reads. -/
theorem readBar (h : builder.Mirrors parser) (hend : builder.position + 1 ≠ text.length)
    (hbar : parser.bar = .ok next) :
    ∃ builder', builder.readBar text = .ok builder' ∧ builder'.Mirrors (next.advance 1) := by
  have hposition := (Parser.bar_cases hbar).1
  have hgroups := h.groups_perm.trans (.of_eq (Parser.groups_eq (Parser.captures_bar hbar)).symm)
  obtain ⟨arena, hclose, hlength, hcells⟩ := h.toHolds.closeBranch_eq
  obtain ⟨position, nextId, groupCount, maxExpressionRef, pending, ⟨items, choice⟩, enclosing⟩ :=
    parser
  obtain ⟨rfl⟩ : builder.position = position := h.position
  have hstart : ¬ (builder.position = 0 ∨ builder.position + 1 = text.length) :=
    not_or.2 ⟨hposition, hend⟩
  unfold Parser.bar at hbar
  rw [if_neg hposition] at hbar
  dsimp only at hlength hcells
  cases choice with
  | some choice =>
      cases hbar
      have hbranch : (⟨.branch, items.reverse.map Node.id, some choice.label.id,
          choice.current.position⟩, choice.current.id) ∈ arena.cells := by
        rw [hcells, Level.closedCells_some]
        simp only [Multiset.mem_add, Multiset.mem_singleton]
        tauto
      refine ⟨_, (if_neg hstart).trans (Except.bind_eq_ok_iff.2 ⟨_, hclose,
        Except.bind_eq_ok_iff.2 ⟨_, Except.bind_eq_ok_iff.2 ⟨_, Arena.entry_of_mem hbranch, rfl⟩,
          rfl⟩⟩), ⟨?_, ?_, ?_⟩, rfl, h.depth, h.groupCount, h.maxExpressionRef, hgroups,
        h.groups_sorted⟩
      · have hnext := Level.cells_nextBranch items choice ⟨nextId, builder.position + 1⟩
          (OpenGroup.owner enclosing)
        refine Eq.trans ?_ (congrArg (· + OpenGroup.cells enclosing) hnext).symm
        rw [Arena.cells_push, hlength, hcells]
        exact (by ac_rfl)
      · exact List.length_append.trans (congrArg (· + 1) hlength)
      · exact congrArg (· :: _) hlength
  | none =>
      cases hbar
      have hopened := hcells
      rw [Level.closedCells, add_assoc] at hopened
      have hopen : Builder.openNodes { builder with
          arena := arena
          openNodes := (OpenGroup.owner enclosing).2 :: OpenGroup.openNodes enclosing } =
        (OpenGroup.owner enclosing).2 :: OpenGroup.openNodes enclosing := rfl
      obtain ⟨started, hstarted, hlength', hcells'⟩ := startAlternation_eq hopen hopened
        (OpenGroup.keepsChildren_holder ⟨items, none⟩ enclosing) rfl builder.position _ nextId
        (Level.elim_head?_reverse items none builder.position) hlength
      refine ⟨_, (if_neg hstart).trans (Except.bind_eq_ok_iff.2 ⟨_, hclose,
        Except.bind_eq_ok_iff.2 ⟨_, hstarted, rfl⟩⟩), ⟨?_, ?_, ?_⟩, rfl, h.depth, h.groupCount,
        h.maxExpressionRef, hgroups, h.groups_sorted⟩
      · have hnext := Level.cells_firstBranch items
          ⟨nextId, Level.beginning ⟨items, none⟩ builder.position⟩
          ⟨nextId + 1, Level.beginning ⟨items, none⟩ builder.position⟩
          ⟨nextId + 2, builder.position + 1⟩ (OpenGroup.owner enclosing)
        refine Eq.trans ?_ (congrArg (· + OpenGroup.cells enclosing) hnext).symm
        rw [Arena.cells_push, hlength', hcells', Entry.withChildren_withChildren]
        exact (by ac_rfl)
      · exact List.length_append.trans (congrArg (· + 1) hlength')
      · exact congrArg (· :: _) hlength'

end Mirrors

end Builder

end Backref
