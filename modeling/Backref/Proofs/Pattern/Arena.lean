import Backref.Proofs.Pattern.Token
import Mathlib.Algebra.Order.Group.Multiset
import Mathlib.Data.Multiset.Basic

/-!
# Arenas

A tree can also be kept in an arena: a list of nodes in the order in which they were made, where a
node names its children and its parent by their indices. What an operation does to an arena is said
of the `Arena.cells`, the nodes with their indices in no order: a change of one node leaves the
other cells as they are. The `Arena.kinds` stay as they are when nodes change.

Beside the nodes stands a `GroupTable`, in which the capturing groups are found by their numbers.

An operation can stop. A `Stop` tells a text at fault from a `Defect`, a state that should not
occur.
-/

namespace Backref

/-- Whether a node of the kind keeps a list of children that can be changed. -/
def Kind.keepsChildren : Kind → Bool
  | .sequence | .alternation | .branch | .group _ => true
  | .repetition | .literal _ | .expressionRef _ | .stringRef _ => false

/-- Whether a node of the kind is a capturing group. -/
def Kind.captures : Kind → Bool
  | .group (some _) => true
  | .group none | .sequence | .alternation | .branch | .repetition | .literal _ | .expressionRef _
  | .stringRef _ => false

/-- A node of an arena. -/
structure Entry where
  kind : Kind
  /-- The indices of the children, from left to right. -/
  children : List Nat
  /-- The index of the parent; the root has none. -/
  parent : Option Nat
  /-- The index of the character where the text of the node starts. -/
  position : Nat
  deriving DecidableEq, Repr

namespace Entry

/-- The node with other children. -/
def withChildren (entry : Entry) (children : List Nat) : Entry :=
  { entry with children := children }

@[simp] theorem withChildren_mk (kind : Kind) (children children' : List Nat) (parent : Option Nat)
    (position : Nat) :
    (mk kind children parent position).withChildren children' =
      ⟨kind, children', parent, position⟩ :=
  rfl

@[simp] theorem withChildren_withChildren (entry : Entry) (children children' : List Nat) :
    (entry.withChildren children).withChildren children' = entry.withChildren children' :=
  rfl

/-- The node below another parent. -/
def withParent (entry : Entry) (parent : Nat) : Entry := { entry with parent := some parent }

@[simp] theorem withParent_mk (kind : Kind) (children : List Nat) (parent : Option Nat)
    (position parent' : Nat) :
    (mk kind children parent position).withParent parent' =
      ⟨kind, children, some parent', position⟩ :=
  rfl

end Entry

/-- A state that a builder takes care of although it should not occur. -/
inductive Defect
  /-- No node is open. -/
  | nothingOpen
  /-- An index that is not in the arena. -/
  | unknownNode
  /-- The children are to be changed of a node that does not keep a list of them. -/
  | noChildren
  /-- A star follows a letter or a closing parenthesis, but the open node has no children. -/
  | nothingToRepeat
  /-- A branch has no parent. -/
  | orphanBranch
  /-- A branch that is closed is already listed among the children of its parent. -/
  | listedBranch
  /-- A closing parenthesis closes a node that is not a group. -/
  | noGroup
  deriving DecidableEq, Repr

/-- Why a builder stops. -/
inductive Stop
  | rejected (rejection : Rejection)
  | stuck (defect : Defect)
  deriving DecidableEq, Repr

/-- The nodes in the order in which they were made. -/
abbrev Arena := List Entry

namespace Arena

/-- The node with the index. -/
def entry (arena : Arena) (id : Nat) : Except Stop Entry :=
  match arena[id]? with
  | some entry => .ok entry
  | none => .error (.stuck .unknownNode)

/-- A node with its list of children, if it keeps one. -/
def lister (arena : Arena) (id : Nat) : Except Stop Entry := do
  let entry ← arena.entry id
  if entry.kind.keepsChildren then return entry else .error (.stuck .noChildren)

/-- The arena with one more node. -/
def push (arena : Arena) (entry : Entry) : Arena := arena ++ [entry]

/-- Puts a node below another parent. -/
def setParent (arena : Arena) (id parent : Nat) : Except Stop Arena := do
  let entry ← arena.entry id
  return arena.set id (entry.withParent parent)

/-- Puts nodes below another parent, one after the other. -/
def setParents (arena : Arena) (ids : List Nat) (parent : Nat) : Except Stop Arena :=
  ids.foldlM (fun arena id => arena.setParent id parent) arena

/-- Changes the list of children of a node. -/
def changeChildren (arena : Arena) (id : Nat) (change : List Nat → List Nat) :
    Except Stop Arena := do
  let entry ← arena.lister id
  return arena.set id (entry.withChildren (change entry.children))

/-- Lists a node as the last child of another one. -/
def listChild (arena : Arena) (parent child : Nat) : Except Stop Arena :=
  arena.changeChildren parent (· ++ [child])

/-- The children of a node, and the arena in which it has none any more. -/
def takeChildren (arena : Arena) (id : Nat) : Except Stop (List Nat × Arena) := do
  let entry ← arena.lister id
  let emptied ← arena.changeChildren id fun _ => []
  return (entry.children, emptied)

/-- Makes an alternation and its first branch. They have no children, and no node lists them. -/
def pushAlternation (arena : Arena) (parent position : Nat) : Arena :=
  (arena.push ⟨.alternation, [], some parent, position⟩).push
    ⟨.branch, [], some arena.length, position⟩

/-- Moves nodes into the first branch of an alternation, and lists the branch in the alternation and
the alternation in its parent. -/
def fillAlternation (arena : Arena) (moved : List Nat) (parent alternation branch : Nat) :
    Except Stop Arena := do
  let arena ← arena.setParents moved branch
  let arena ← arena.changeChildren branch fun _ => moved
  let arena ← arena.listChild alternation branch
  arena.listChild parent alternation

/-! ### What the operations do to the cells -/

/-- The nodes of an arena with their indices. -/
def cells (arena : Arena) : Multiset (Entry × Nat) := arena.zipIdx

variable {arena : Arena} {entry : Entry} {id : Nat} {rest : Multiset (Entry × Nat)}

/-- A cell says what stands at an index. -/
theorem mem_cells : (entry, id) ∈ arena.cells ↔ arena[id]? = some entry :=
  List.mk_mem_zipIdx_iff_getElem?

/-- There are as many cells as nodes. -/
theorem card_cells (arena : Arena) : arena.cells.card = arena.length := List.length_zipIdx

/-- No two cells have the same index. -/
theorem nodup_cells (arena : Arena) : (arena.cells.map Prod.snd).Nodup := by
  have hindices : arena.cells.map Prod.snd = (List.range' 0 arena.length : Multiset Nat) :=
    congrArg _ (List.zipIdx_map_snd 0 arena)
  rw [hindices]
  exact Multiset.coe_nodup.2 List.nodup_range'

/-- A new node gets the next index. -/
theorem cells_push (arena : Arena) (entry : Entry) :
    (arena.push entry).cells = arena.cells + {(entry, arena.length)} := by
  rw [cells, push, List.zipIdx_append, ← Multiset.coe_add, Nat.zero_add]
  rfl

/-- The cell that is known is what stands at its index. -/
theorem getElem?_of_cells (h : arena.cells = {(entry, id)} + rest) : arena[id]? = some entry :=
  mem_cells.1 (h ▸ Multiset.mem_add.2 (.inl (Multiset.mem_singleton_self _)))

/-- The cells beside that of one node do not depend on it. -/
theorem cells_split (before : Arena) (entry : Entry) (after : Arena) :
    cells (before ++ entry :: after) = {(entry, before.length)} +
      ((before.zipIdx ++ after.zipIdx (before.length + 1) : List _) : Multiset (Entry × Nat)) := by
  rw [cells, List.zipIdx_append, List.zipIdx_cons, Nat.zero_add]
  exact Multiset.coe_eq_coe.2 List.perm_middle

/-- A change at an index changes one cell. -/
theorem cells_set (h : arena.cells = {(entry, id)} + rest) (changed : Entry) :
    cells (arena.set id changed) = {(changed, id)} + rest := by
  obtain ⟨hid, hentry⟩ := List.getElem?_eq_some_iff.1 (getElem?_of_cells h)
  have harena : arena = arena.take id ++ entry :: arena.drop (id + 1) := by
    rw [← hentry, ← List.drop_eq_getElem_cons hid, List.take_append_drop]
  have hlength : (arena.take id).length = id := List.length_take_of_le hid.le
  have hold := cells_split (arena.take id) entry (arena.drop (id + 1))
  have hnew := cells_split (arena.take id) changed (arena.drop (id + 1))
  rw [← harena, hlength, h] at hold
  rw [hlength, ← add_left_cancel hold] at hnew
  rw [List.set_eq_take_append_cons_drop, if_pos hid]
  exact hnew

/-- A node is found in its cell. -/
theorem entry_of_mem (h : (entry, id) ∈ arena.cells) : arena.entry id = .ok entry := by
  rw [Arena.entry, mem_cells.1 h]

/-- A node whose cell is known is found. -/
theorem entry_eq (h : arena.cells = {(entry, id)} + rest) : arena.entry id = .ok entry :=
  entry_of_mem (mem_cells.2 (getElem?_of_cells h))

/-- A node that keeps a list of children is found with it. -/
theorem lister_eq (h : arena.cells = {(entry, id)} + rest) (hkind : entry.kind.keepsChildren) :
    arena.lister id = .ok entry :=
  Except.bind_eq_ok_iff.2 ⟨entry, entry_eq h, if_pos hkind⟩

/-- A node that gets another parent. -/
theorem setParent_eq (h : arena.cells = {(entry, id)} + rest) (parent : Nat) :
    ∃ arena', arena.setParent id parent = .ok arena' ∧
      arena'.cells = {(entry.withParent parent, id)} + rest :=
  ⟨_, Except.bind_eq_ok_iff.2 ⟨entry, entry_eq h, rfl⟩, cells_set h _⟩

/-- A node that gets other children. -/
theorem changeChildren_eq (h : arena.cells = {(entry, id)} + rest)
    (hkind : entry.kind.keepsChildren) (change : List Nat → List Nat) :
    ∃ arena', arena.changeChildren id change = .ok arena' ∧
      arena'.cells = {(entry.withChildren (change entry.children), id)} + rest :=
  ⟨_, Except.bind_eq_ok_iff.2 ⟨entry, lister_eq h hkind, rfl⟩, cells_set h _⟩

/-- A node that gets one more child. -/
theorem listChild_eq (h : arena.cells = {(entry, id)} + rest) (hkind : entry.kind.keepsChildren)
    (child : Nat) : ∃ arena', arena.listChild id child = .ok arena' ∧
      arena'.cells = {(entry.withChildren (entry.children ++ [child]), id)} + rest :=
  changeChildren_eq h hkind (· ++ [child])

/-- A node whose children are taken from it. -/
theorem takeChildren_eq (h : arena.cells = {(entry, id)} + rest)
    (hkind : entry.kind.keepsChildren) :
    ∃ arena', arena.takeChildren id = .ok (entry.children, arena') ∧
      arena'.cells = {(entry.withChildren [], id)} + rest := by
  obtain ⟨arena', hemptied, hcells⟩ := changeChildren_eq h hkind fun _ => []
  exact ⟨arena', Except.bind_eq_ok_iff.2 ⟨entry, lister_eq h hkind,
    Except.bind_eq_ok_iff.2 ⟨arena', hemptied, rfl⟩⟩, hcells⟩

/-- An alternation and its first branch get the next two indices. -/
theorem cells_pushAlternation (arena : Arena) (parent position : Nat) :
    (arena.pushAlternation parent position).cells =
      {(⟨.branch, [], some arena.length, position⟩, arena.length + 1)} +
        ({(⟨.alternation, [], some parent, position⟩, arena.length)} + arena.cells) := by
  have hlength : (arena.push ⟨.alternation, [], some parent, position⟩).length =
      arena.length + 1 := List.length_append
  rw [pushAlternation, cells_push, cells_push, hlength]
  exact (by ac_rfl)

/-! ### What the operations do to the kinds -/

/-- The kinds of the nodes in their order. -/
def kinds (arena : Arena) : List Kind := arena.map Entry.kind

variable {arena' : Arena} {ids : List Nat} {parent : Nat}

theorem kinds_push (arena : Arena) (entry : Entry) :
    (arena.push entry).kinds = arena.kinds ++ [entry.kind] := List.map_append

/-- A node that is looked up stands at its index. -/
theorem getElem?_of_entry (h : arena.entry id = .ok entry) : arena[id]? = some entry := by
  unfold Arena.entry at h
  split at h
  · next hsome => exact hsome.trans (congrArg some (Except.ok.inj h))
  · cases h

/-- A change that keeps the kind of a node. -/
theorem kinds_set {changed : Entry} (h : arena.entry id = .ok entry)
    (hkind : changed.kind = entry.kind) : kinds (arena.set id changed) = arena.kinds := by
  obtain ⟨hid, hentry⟩ := List.getElem?_eq_some_iff.1 (getElem?_of_entry h)
  rw [kinds, List.map_set, hkind, ← List.map_set, ← hentry, List.set_getElem_self]
  rfl

theorem kinds_of_setParent (h : arena.setParent id parent = .ok arena') :
    arena'.kinds = arena.kinds := by
  obtain ⟨entry, hentry, h⟩ := Except.bind_eq_ok_iff.1 h
  cases h
  exact kinds_set hentry rfl

theorem kinds_of_setParents (h : arena.setParents ids parent = .ok arena') :
    arena'.kinds = arena.kinds := by
  induction ids generalizing arena with
  | nil =>
      cases h
      rfl
  | cons id ids ih =>
      obtain ⟨moved, hmoved, h⟩ := Except.bind_eq_ok_iff.1 h
      exact (ih h).trans (kinds_of_setParent hmoved)

theorem kinds_of_changeChildren {change : List Nat → List Nat}
    (h : arena.changeChildren id change = .ok arena') : arena'.kinds = arena.kinds := by
  obtain ⟨entry, hentry, h⟩ := Except.bind_eq_ok_iff.1 h
  obtain ⟨found, hfound, hentry⟩ := Except.bind_eq_ok_iff.1 hentry
  cases h
  split at hentry
  · cases hentry
    exact kinds_set hfound rfl
  · cases hentry

theorem kinds_of_takeChildren {children : List Nat}
    (h : arena.takeChildren id = .ok (children, arena')) : arena'.kinds = arena.kinds := by
  obtain ⟨_, _, h⟩ := Except.bind_eq_ok_iff.1 h
  obtain ⟨emptied, hemptied, h⟩ := Except.bind_eq_ok_iff.1 h
  cases h
  exact kinds_of_changeChildren hemptied

theorem kinds_pushAlternation (arena : Arena) (parent position : Nat) :
    (arena.pushAlternation parent position).kinds = arena.kinds ++ [.alternation, .branch] := by
  rw [pushAlternation, kinds_push, kinds_push, List.append_assoc]
  rfl

theorem kinds_of_fillAlternation {moved : List Nat} {alternation branch : Nat}
    (h : arena.fillAlternation moved parent alternation branch = .ok arena') :
    arena'.kinds = arena.kinds := by
  obtain ⟨placed, hplaced, h⟩ := Except.bind_eq_ok_iff.1 h
  obtain ⟨filled, hfilled, h⟩ := Except.bind_eq_ok_iff.1 h
  obtain ⟨listed, hlisted, h⟩ := Except.bind_eq_ok_iff.1 h
  rw [kinds_of_changeChildren h, kinds_of_changeChildren hlisted, kinds_of_changeChildren hfilled,
    kinds_of_setParents hplaced]

/-- Arenas with the same kinds have the same number of nodes. -/
theorem length_eq_of_kinds_eq (h : arena'.kinds = arena.kinds) : arena'.length = arena.length := by
  rw [← List.length_map Entry.kind, ← List.length_map Entry.kind]
  exact congrArg List.length h

end Arena

/-! ## Tables of groups -/

/-- The numbers of capturing groups with the indices of the groups, in the order of the numbers. -/
abbrev GroupTable := List (Nat × Nat)

namespace GroupTable

/-- Enters a group under its number, in the place of the group that is already there. -/
def insert (number group : Nat) : GroupTable → GroupTable
  | [] => [(number, group)]
  | (key, other) :: table =>
    if number < key then (number, group) :: (key, other) :: table
    else if number = key then (number, group) :: table
    else (key, other) :: insert number group table

/-- Enters a group if it has a number. -/
def register (table : GroupTable) : Option Nat → Nat → GroupTable
  | none, _ => table
  | some number, group => table.insert number group

/-- The numbers ascend. -/
def IsSorted (table : GroupTable) : Prop :=
  table.Pairwise fun entry entry' => entry.1 < entry'.1

variable {table table' : GroupTable} {entry : Nat × Nat} {number group : Nat}

/-- Nothing but the group is entered. -/
theorem eq_or_mem_of_mem_insert (h : entry ∈ table.insert number group) :
    entry = (number, group) ∨ entry ∈ table := by
  induction table with
  | nil => exact .inl (List.mem_singleton.1 h)
  | cons first table ih =>
      unfold insert at h
      split at h
      · exact List.mem_cons.1 h
      · split at h
        · exact (List.mem_cons.1 h).imp_right (List.mem_cons_of_mem _)
        · obtain rfl | h := List.mem_cons.1 h
          · exact .inr List.mem_cons_self
          · exact (ih h).imp_right (List.mem_cons_of_mem _)

/-- The order of the numbers is kept. -/
theorem IsSorted.insert (h : table.IsSorted) (number group : Nat) :
    (table.insert number group).IsSorted := by
  induction table with
  | nil => exact List.pairwise_singleton _ _
  | cons first table ih =>
      obtain ⟨hfirst, htable⟩ := List.pairwise_cons.1 h
      unfold GroupTable.insert
      split
      · next hlt =>
          refine List.pairwise_cons.2 ⟨fun entry hmem => ?_, h⟩
          obtain rfl | hmem := List.mem_cons.1 hmem
          · exact hlt
          · exact hlt.trans (hfirst entry hmem)
      · next hle =>
          split
          · next heq => exact List.pairwise_cons.2 ⟨heq ▸ hfirst, htable⟩
          · next hne =>
              refine List.pairwise_cons.2 ⟨fun entry hmem => ?_, ih htable⟩
              obtain rfl | hmem := eq_or_mem_of_mem_insert hmem
              · exact lt_of_le_of_ne (not_lt.1 hle) (Ne.symm hne)
              · exact hfirst entry hmem

/-- A number that is not in the table gets an entry of its own. -/
theorem insert_perm (h : number ∉ table.map Prod.fst) (group : Nat) :
    (table.insert number group).Perm ((number, group) :: table) := by
  induction table with
  | nil => exact .refl _
  | cons first table ih =>
      obtain ⟨hne, hnew⟩ := not_or.1 (mt List.mem_cons.2 h)
      rw [insert, if_neg hne]
      split
      · exact .refl _
      · exact ((ih hnew).cons _).trans (.swap _ _ _)

/-- A group that is entered under a number that is not in the table gets an entry of its own. -/
theorem register_perm {number? : Option Nat} (h : ∀ number ∈ number?, number ∉ table.map Prod.fst)
    (group : Nat) : (table.register number? group).Perm
      (number?.toList.map (fun number => (number, group)) ++ table) := by
  cases number? with
  | none => exact .refl _
  | some number => exact insert_perm (h number rfl) group

/-- Entering a group, with a number or without one, keeps the order. -/
theorem IsSorted.register (h : table.IsSorted) (number? : Option Nat) (group : Nat) :
    (table.register number? group).IsSorted := by
  cases number? with
  | none => exact h
  | some number => exact h.insert number group

/-- A table is known from its entries. -/
theorem eq_of_perm (h : table.IsSorted) (h' : table'.IsSorted) (hperm : table.Perm table') :
    table = table' :=
  hperm.eq_of_pairwise (fun _ _ _ _ hlt hgt => absurd hlt hgt.asymm) h h'

end GroupTable

/-- What a builder makes. -/
structure Tree where
  nodes : Arena
  groups : GroupTable
  deriving DecidableEq, Repr

end Backref
