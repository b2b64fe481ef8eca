import Backref.Proofs.Pattern.Arena
import Mathlib.Logic.Relation

/-!
# Building a pattern in an arena

`Builder` reads a text into an arena, one construct in each round of a loop. It keeps a stack of the
nodes that are open: the root, the groups that are not closed, and the branches to which the next
items belong. A branch is listed among the children of its alternation only when it is closed, and a
capturing group is entered in the table of groups only when it is closed.

The builder takes care of states that should not occur, and stops there with a `Defect`. What a
round can do is said by `Builder.round_eq_ok`: it goes on in the text, and it makes nodes.
-/

namespace Backref

/-- The state of a builder. -/
structure Builder where
  /-- The index of the next character. -/
  position : Nat
  arena : Arena
  /-- The indices of the open nodes, innermost first. -/
  openNodes : List Nat
  /-- The number of groups that are not closed. -/
  depth : Nat
  /-- The number of capturing groups opened. -/
  groupCount : Nat
  /-- The largest group named by an expression reference. -/
  maxExpressionRef : Nat
  /-- The capturing groups that have been closed. -/
  groups : GroupTable
  deriving DecidableEq, Repr

namespace Builder

/-- Before the first character only the root is there, and it is open. -/
def start : Builder :=
  { position := 0
    arena := [⟨.sequence, [], none, 0⟩]
    openNodes := [0]
    depth := 0
    groupCount := 0
    maxExpressionRef := 0
    groups := [] }

/-- A character that is found at the index has to belong to the alphabet. -/
def checked (index : Nat) : Option Char → Except Stop (Option Char)
  | none => .ok none
  | some c =>
    if Alphabet.contains c then .ok (some c) else .error (.rejected (.invalidChar c index))

/-- The character at the index. -/
def charAt (text : List Char) (index : Nat) : Except Stop (Option Char) :=
  checked index text[index]?

/-- Whether the character before the index is a letter or a closing parenthesis. -/
def followsAtom (text : List Char) : Nat → Bool
  | 0 => false
  | before + 1 => text[before]?.any fun c => c = ')' ∨ Alphabet.isLetter c

/-- The innermost open node. -/
def current (builder : Builder) : Except Stop Nat :=
  match builder.openNodes with
  | [] => .error (.stuck .nothingOpen)
  | current :: _ => .ok current

/-- Makes a node and lists it as the last child of the innermost open node. -/
def append (builder : Builder) (kind : Kind) (start : Nat) : Except Stop Builder := do
  let parent ← builder.current
  let node := builder.arena.length
  let arena ← (builder.arena.push ⟨kind, [], some parent, start⟩).listChild parent node
  return { builder with arena := arena }

/-- Appends a group and opens it. -/
def openGroup (builder : Builder) (number : Option Nat) (start : Nat) : Except Stop Builder := do
  let group := builder.arena.length
  let builder ← { builder with depth := builder.depth + 1 }.append (.group number) start
  return { builder with openNodes := group :: builder.openNodes }

/-- Closes the innermost open node if it is a branch, and lists it in its alternation. -/
def closeBranch (builder : Builder) : Except Stop (Builder × Option Nat) := do
  let top ← builder.current
  let branch ← builder.arena.entry top
  if branch.kind = .branch then
    match branch.parent with
    | none => .error (.stuck .orphanBranch)
    | some alternation => do
      let owner ← builder.arena.lister alternation
      if top ∈ owner.children then .error (.stuck .listedBranch)
      else do
        let arena ← builder.arena.listChild alternation top
        return ({ builder with arena := arena, openNodes := builder.openNodes.tail }, some top)
  else return (builder, none)

/-- The index where the text of the first node starts, or that of the bar after no nodes. -/
def beginning (arena : Arena) (bar : Nat) : List Nat → Except Stop Nat
  | [] => .ok bar
  | first :: _ => do
    let entry ← arena.entry first
    return entry.position

/-- Puts the children of the innermost open node into the first branch of a new alternation, which
becomes its only child. -/
def startAlternation (builder : Builder) (bar : Nat) : Except Stop (Builder × Nat) := do
  let current ← builder.current
  let (moved, arena) ← builder.arena.takeChildren current
  let beginning ← beginning arena bar moved
  let alternation := arena.length
  let arena ← (arena.pushAlternation current beginning).fillAlternation moved current alternation
    (alternation + 1)
  return ({ builder with arena := arena }, alternation)

/-- The alternation of the branch that was closed last, or a new one. -/
def alternation (builder : Builder) (bar : Nat) : Option Nat → Except Stop (Builder × Nat)
  | none => builder.startAlternation bar
  | some branch => do
    let entry ← builder.arena.entry branch
    match entry.parent with
    | none => .error (.stuck .orphanBranch)
    | some alternation => return (builder, alternation)

/-- Reads `*`, which puts the last child of the innermost open node below a repetition. -/
def readStar (text : List Char) (builder : Builder) : Except Stop Builder :=
  if followsAtom text builder.position then do
    let current ← builder.current
    let owner ← builder.arena.entry current
    match owner.children.getLast? with
    | none => .error (.stuck .nothingToRepeat)
    | some last => do
      let item ← builder.arena.entry last
      let repetition := builder.arena.length
      let arena ← (builder.arena.push ⟨.repetition, [last], some current, item.position⟩).setParent
        last repetition
      let arena ← arena.changeChildren current (·.dropLast ++ [repetition])
      return { builder with arena := arena, position := builder.position + 1 }
  else .error (.rejected (.misplacedStar builder.position))

/-- Reads `|`, which opens the next branch of an alternation. -/
def readBar (text : List Char) (builder : Builder) : Except Stop Builder :=
  if builder.position = 0 ∨ builder.position + 1 = text.length then
    .error (.rejected (.misplacedBar builder.position))
  else do
    let (closed, last?) ← builder.closeBranch
    let (opened, alternation) ← closed.alternation builder.position last?
    let branch := opened.arena.length
    return { opened with
      arena := opened.arena.push ⟨.branch, [], some alternation, builder.position + 1⟩
      openNodes := branch :: opened.openNodes
      position := builder.position + 1 }

/-- Reads `(?N)`, whose digit has been read. -/
def readReference (text : List Char) (builder : Builder) (group : Nat) :
    Except Stop Builder := do
  match ← charAt text (builder.position + 3) with
  | none => .error (.rejected (.unexpectedEnd (builder.position + 3)))
  | some c =>
    if c = ')' then do
      let appended ← { builder with
        maxExpressionRef := max builder.maxExpressionRef group }.append (.expressionRef group)
          builder.position
      return { appended with position := builder.position + 4 }
    else .error (.rejected (.unexpectedChar c (builder.position + 3)))

/-- Reads `(?:` or `(?N)`. -/
def readQuery (text : List Char) (builder : Builder) : Except Stop Builder := do
  match ← charAt text (builder.position + 2) with
  | none => .error (.rejected (.unexpectedEnd (builder.position + 2)))
  | some c =>
    if c = ':' then do
      let opened ← builder.openGroup none builder.position
      return { opened with position := builder.position + 3 }
    else
      match Alphabet.groupNumber? c with
      | none => .error (.rejected (.unexpectedChar c (builder.position + 2)))
      | some group => builder.readReference text group

/-- Reads `(`, which opens a capturing group. -/
def readCapturing (builder : Builder) : Except Stop Builder :=
  if builder.groupCount = maxGroups then .error (.rejected (.tooManyGroups builder.position))
  else do
    let opened ← { builder with groupCount := builder.groupCount + 1 }.openGroup
      (some (builder.groupCount + 1)) builder.position
    return { opened with position := builder.position + 1 }

/-- Reads `(`, `(?:` or `(?N)`. -/
def readOpen (text : List Char) (builder : Builder) : Except Stop Builder := do
  let next ← charAt text (builder.position + 1)
  if next = some '?' then builder.readQuery text else builder.readCapturing

/-- Reads `)`, which closes the innermost group, after its last branch if it has branches. The table
gets the group if it captures. -/
def readClose (builder : Builder) : Except Stop Builder :=
  if builder.depth = 0 then .error (.rejected (.unmatchedClose builder.position))
  else do
    let (closed, _) ← { builder with depth := builder.depth - 1 }.closeBranch
    let top ← closed.current
    let group ← closed.arena.entry top
    match group.kind with
    | .group number? =>
      return { closed with
        openNodes := closed.openNodes.tail
        groups := closed.groups.register number? top
        position := builder.position + 1 }
    | _ => .error (.stuck .noGroup)

/-- Reads `\N`. -/
def readStringRef (text : List Char) (builder : Builder) : Except Stop Builder := do
  match ← charAt text (builder.position + 1) with
  | none => .error (.rejected (.unexpectedEnd (builder.position + 1)))
  | some c =>
    match Alphabet.groupNumber? c with
    | none => .error (.rejected (.unexpectedChar c (builder.position + 1)))
    | some group =>
      if builder.groupCount < group then
        .error (.rejected (.undeclaredGroup group builder.position))
      else do
        let appended ← builder.append (.stringRef group) builder.position
        return { appended with position := builder.position + 2 }

/-- Reads the construct that the character begins. -/
def read (text : List Char) (builder : Builder) (c : Char) : Except Stop Builder :=
  if c = '*' then builder.readStar text
  else if c = '|' then builder.readBar text
  else if c = '(' then builder.readOpen text
  else if c = ')' then builder.readClose
  else if c = '\\' then builder.readStringRef text
  else if Alphabet.isLetter c then do
    let appended ← builder.append (.literal c) builder.position
    return { appended with position := builder.position + 1 }
  else .error (.rejected (.unexpectedChar c builder.position))

/-- One round of the loop: reads a construct, unless the text is at its end. -/
def round (text : List Char) (builder : Builder) : Except Stop (Option Builder) := do
  match ← charAt text builder.position with
  | none => return none
  | some c =>
    let next ← builder.read text c
    return some next

/-- Ends the text. -/
def finish (builder : Builder) : Except Stop Tree :=
  if builder.depth ≠ 0 then .error (.rejected (.unclosed builder.depth))
  else do
    let (closed, _) ← builder.closeBranch
    if closed.groupCount < closed.maxExpressionRef then
      .error (.rejected (.unknownGroup closed.maxExpressionRef closed.groupCount))
    else return ⟨closed.arena, closed.groups⟩

/-! ### What the operations do to the cells -/

section Cells

variable {builder : Builder} {top : Nat} {more : List Nat} {entry : Entry}
  {rest : Multiset (Entry × Nat)}

/-- An open node is found. -/
theorem current_eq (hopen : builder.openNodes = top :: more) : builder.current = .ok top := by
  rw [current, hopen]

/-- The new node is the last child of the node that is open. -/
theorem append_eq (hopen : builder.openNodes = top :: more)
    (hcells : builder.arena.cells = {(entry, top)} + rest) (hkind : entry.kind.keepsChildren)
    (kind : Kind) (start : Nat) :
    ∃ arena, builder.append kind start = .ok { builder with arena := arena } ∧
      arena.cells = {(entry.withChildren (entry.children ++ [builder.arena.length]), top)} +
        (rest + {(⟨kind, [], some top, start⟩, builder.arena.length)}) := by
  have hpushed := builder.arena.cells_push ⟨kind, [], some top, start⟩
  rw [hcells, add_assoc] at hpushed
  obtain ⟨arena, harena, hchanged⟩ :=
    Arena.listChild_eq hpushed hkind builder.arena.length
  exact ⟨arena, Except.bind_eq_ok_iff.2 ⟨_, current_eq hopen, Except.bind_eq_ok_iff.2
    ⟨_, harena, rfl⟩⟩, hchanged⟩

/-- A node that is not a branch is not closed with the branches. -/
theorem closeBranch_of_ne (hopen : builder.openNodes = top :: more)
    (hcells : builder.arena.cells = {(entry, top)} + rest) (hkind : entry.kind ≠ .branch) :
    builder.closeBranch = .ok (builder, none) :=
  Except.bind_eq_ok_iff.2 ⟨_, current_eq hopen, Except.bind_eq_ok_iff.2
    ⟨_, Arena.entry_eq hcells, if_neg hkind⟩⟩

/-- A branch is closed by listing it in its alternation. -/
theorem closeBranch_of_branch {children branches : List Nat} {alternation position : Nat}
    (hopen : builder.openNodes = top :: more)
    (hcells : builder.arena.cells = {(⟨.branch, children, some alternation, position⟩, top)} +
      ({(entry, alternation)} + rest))
    (hkind : entry.kind.keepsChildren) (hchildren : entry.children = branches)
    (hnew : top ∉ branches) : ∃ arena,
      builder.closeBranch = .ok ({ builder with arena := arena, openNodes := more }, some top) ∧
      arena.cells = {(entry.withChildren (branches ++ [top]), alternation)} +
        ({(⟨.branch, children, some alternation, position⟩, top)} + rest) := by
  subst hchildren
  have hswapped : builder.arena.cells = {(entry, alternation)} +
      ({(⟨.branch, children, some alternation, position⟩, top)} + rest) := by
    rw [hcells]
    exact (by ac_rfl)
  obtain ⟨arena, harena, hchanged⟩ := Arena.listChild_eq hswapped hkind top
  refine ⟨arena, Except.bind_eq_ok_iff.2 ⟨_, current_eq hopen, Except.bind_eq_ok_iff.2
    ⟨_, Arena.entry_eq hcells, ?_⟩⟩, hchanged⟩
  refine (if_pos rfl).trans (Except.bind_eq_ok_iff.2 ⟨_, Arena.lister_eq hswapped hkind, ?_⟩)
  refine (if_neg hnew).trans (Except.bind_eq_ok_iff.2 ⟨_, harena, ?_⟩)
  rw [hopen]
  rfl

/-- A star puts the last child below a repetition, which takes its place. -/
theorem readStar_eq {text : List Char} {before : List Nat} {item : Entry} {last : Nat}
    (hfollows : followsAtom text builder.position) (hopen : builder.openNodes = top :: more)
    (hcells : builder.arena.cells = {(entry, top)} + ({(item, last)} + rest))
    (hkind : entry.kind.keepsChildren) (hchildren : entry.children = before ++ [last]) :
    ∃ arena, builder.readStar text =
        .ok { builder with arena := arena, position := builder.position + 1 } ∧
      arena.cells = {(entry.withChildren (before ++ [builder.arena.length]), top)} +
        ({(⟨.repetition, [last], some top, item.position⟩, builder.arena.length)} +
          ({(item.withParent builder.arena.length, last)} + rest)) := by
  have hitem : builder.arena.cells = {(item, last)} + ({(entry, top)} + rest) := by
    rw [hcells]
    exact (by ac_rfl)
  have hpushed := builder.arena.cells_push ⟨.repetition, [last], some top, item.position⟩
  rw [hitem, add_assoc] at hpushed
  obtain ⟨moved, hmoved, hcellsMoved⟩ := Arena.setParent_eq hpushed builder.arena.length
  have howner : moved.cells = {(entry, top)} +
      ({(⟨.repetition, [last], some top, item.position⟩, builder.arena.length)} +
        ({(item.withParent builder.arena.length, last)} + rest)) := by
    rw [hcellsMoved]
    exact (by ac_rfl)
  obtain ⟨arena, harena, hchanged⟩ :=
    Arena.changeChildren_eq howner hkind (·.dropLast ++ [builder.arena.length])
  have hlast : entry.children.getLast? = some last := by
    rw [hchildren, List.getLast?_concat]
  rw [hchildren, List.dropLast_concat] at hchanged
  refine ⟨arena, (if_pos hfollows).trans ?_, hchanged⟩
  refine Except.bind_eq_ok_iff.2 ⟨_, current_eq hopen, Except.bind_eq_ok_iff.2
    ⟨_, Arena.entry_eq hcells, ?_⟩⟩
  rw [hlast]
  exact Except.bind_eq_ok_iff.2 ⟨_, Arena.entry_eq hitem, Except.bind_eq_ok_iff.2
    ⟨_, hmoved, Except.bind_eq_ok_iff.2 ⟨_, harena, rfl⟩⟩⟩

end Cells

/-! ### What a construct adds -/

section Adds

variable {text : List Char} {builder next : Builder} {c : Char}

/-- The builder goes on by some characters and makes nodes of the given kinds. -/
structure Adds (builder next : Builder) (count : Nat) (made : List Kind) : Prop where
  position : next.position = builder.position + count
  kinds : next.arena.kinds = builder.arena.kinds ++ made
  groupCount : next.groupCount = builder.groupCount + made.countP Kind.captures

/-- Only the arena changes when a node is appended. -/
theorem append_eq_ok {kind : Kind} {start : Nat} (h : builder.append kind start = .ok next) :
    ∃ arena : Arena, arena.kinds = builder.arena.kinds ++ [kind] ∧
      next = { builder with arena := arena } := by
  obtain ⟨_, _, h⟩ := Except.bind_eq_ok_iff.1 h
  obtain ⟨arena, harena, h⟩ := Except.bind_eq_ok_iff.1 h
  cases h
  exact ⟨arena, (Arena.kinds_of_changeChildren harena).trans (Arena.kinds_push _ _), rfl⟩

/-- Closing a branch makes no node. -/
theorem closeBranch_eq_ok {branch? : Option Nat} (h : builder.closeBranch = .ok (next, branch?)) :
    ∃ (arena : Arena) (openNodes : List Nat), arena.kinds = builder.arena.kinds ∧
      next = { builder with arena := arena, openNodes := openNodes } := by
  obtain ⟨_, _, h⟩ := Except.bind_eq_ok_iff.1 h
  obtain ⟨branch, _, h⟩ := Except.bind_eq_ok_iff.1 h
  split at h
  · split at h
    · cases h
    · obtain ⟨owner, _, h⟩ := Except.bind_eq_ok_iff.1 h
      split at h
      · cases h
      · obtain ⟨arena, harena, h⟩ := Except.bind_eq_ok_iff.1 h
        cases h
        exact ⟨arena, _, Arena.kinds_of_changeChildren harena, rfl⟩
  · cases h
    exact ⟨_, _, rfl, rfl⟩

/-- A new alternation has one branch at first. -/
theorem startAlternation_eq_ok {bar alternation : Nat}
    (h : builder.startAlternation bar = .ok (next, alternation)) :
    ∃ arena : Arena, arena.kinds = builder.arena.kinds ++ [.alternation, .branch] ∧
      next = { builder with arena := arena } := by
  obtain ⟨_, _, h⟩ := Except.bind_eq_ok_iff.1 h
  obtain ⟨⟨moved, emptied⟩, hemptied, h⟩ := Except.bind_eq_ok_iff.1 h
  obtain ⟨_, _, h⟩ := Except.bind_eq_ok_iff.1 h
  obtain ⟨arena, harena, h⟩ := Except.bind_eq_ok_iff.1 h
  cases h
  refine ⟨arena, ?_, rfl⟩
  rw [Arena.kinds_of_fillAlternation harena, Arena.kinds_pushAlternation,
    Arena.kinds_of_takeChildren hemptied]

/-- A star makes a repetition. -/
theorem adds_of_readStar (h : builder.readStar text = .ok next) :
    builder.Adds next 1 [.repetition] := by
  unfold readStar at h
  split at h
  · obtain ⟨_, _, h⟩ := Except.bind_eq_ok_iff.1 h
    obtain ⟨_, _, h⟩ := Except.bind_eq_ok_iff.1 h
    split at h
    · cases h
    · obtain ⟨_, _, h⟩ := Except.bind_eq_ok_iff.1 h
      obtain ⟨moved, hmoved, h⟩ := Except.bind_eq_ok_iff.1 h
      obtain ⟨arena, harena, h⟩ := Except.bind_eq_ok_iff.1 h
      cases h
      refine ⟨rfl, ?_, rfl⟩
      rw [Arena.kinds_of_changeChildren harena, Arena.kinds_of_setParent hmoved, Arena.kinds_push]
  · cases h

/-- A bar makes a branch and, if it is the first one, an alternation with another branch. -/
theorem adds_of_readBar (h : builder.readBar text = .ok next) :
    builder.Adds next 1 [.branch] ∨ builder.Adds next 1 [.alternation, .branch, .branch] := by
  unfold readBar at h
  split at h
  · cases h
  · obtain ⟨⟨closed, last?⟩, hclosed, h⟩ := Except.bind_eq_ok_iff.1 h
    obtain ⟨⟨opened, alternation⟩, hopened, h⟩ := Except.bind_eq_ok_iff.1 h
    cases h
    obtain ⟨arena, openNodes, hkinds, rfl⟩ := closeBranch_eq_ok hclosed
    cases last? with
    | some branch =>
        obtain ⟨entry, _, hopened⟩ := Except.bind_eq_ok_iff.1 hopened
        split at hopened
        · cases hopened
        · cases hopened
          refine .inl ⟨rfl, ?_, rfl⟩
          rw [Arena.kinds_push, hkinds]
    | none =>
        obtain ⟨arena', hkinds', rfl⟩ := startAlternation_eq_ok hopened
        refine .inr ⟨rfl, ?_, rfl⟩
        rw [Arena.kinds_push, hkinds', hkinds, List.append_assoc]
        rfl

/-- A closing parenthesis makes no node. -/
theorem adds_of_readClose (h : builder.readClose = .ok next) : builder.Adds next 1 [] := by
  unfold readClose at h
  split at h
  · cases h
  · obtain ⟨⟨closed, last?⟩, hclosed, h⟩ := Except.bind_eq_ok_iff.1 h
    obtain ⟨arena, openNodes, hkinds, rfl⟩ := closeBranch_eq_ok hclosed
    obtain ⟨_, _, h⟩ := Except.bind_eq_ok_iff.1 h
    obtain ⟨_, _, h⟩ := Except.bind_eq_ok_iff.1 h
    split at h
    · cases h
      exact ⟨rfl, hkinds.trans (List.append_nil _).symm, rfl⟩
    · cases h

/-- An expression reference is a node of its own. -/
theorem adds_of_readReference {group : Nat} (h : builder.readReference text group = .ok next) :
    builder.Adds next 4 [.expressionRef group] := by
  obtain ⟨following, _, h⟩ := Except.bind_eq_ok_iff.1 h
  cases following with
  | none => cases h
  | some c =>
      dsimp only at h
      split at h
      · obtain ⟨_, happend, h⟩ := Except.bind_eq_ok_iff.1 h
        cases h
        obtain ⟨arena, hkinds, rfl⟩ := append_eq_ok happend
        exact ⟨rfl, hkinds, rfl⟩
      · cases h

/-- Opening a group makes it. -/
theorem openGroup_eq_ok {number : Option Nat} {start : Nat}
    (h : builder.openGroup number start = .ok next) :
    next.arena.kinds = builder.arena.kinds ++ [.group number] ∧
      next.groupCount = builder.groupCount := by
  obtain ⟨_, happend, h⟩ := Except.bind_eq_ok_iff.1 h
  cases h
  obtain ⟨arena, hkinds, rfl⟩ := append_eq_ok happend
  exact ⟨hkinds, rfl⟩

/-- An opening parenthesis makes a group or an expression reference. -/
theorem adds_of_readOpen (h : builder.readOpen text = .ok next) :
    ∃ count kind, builder.Adds next (count + 1) [kind] := by
  obtain ⟨_, _, h⟩ := Except.bind_eq_ok_iff.1 h
  split at h
  · obtain ⟨following, _, h⟩ := Except.bind_eq_ok_iff.1 h
    cases following with
    | none => cases h
    | some c =>
        dsimp only at h
        split at h
        · obtain ⟨opened, hopen, h⟩ := Except.bind_eq_ok_iff.1 h
          cases h
          obtain ⟨hkinds, hcount⟩ := openGroup_eq_ok hopen
          exact ⟨2, .group none, rfl, hkinds, hcount⟩
        · split at h
          · cases h
          · exact ⟨3, _, adds_of_readReference h⟩
  · unfold readCapturing at h
    split at h
    · cases h
    · obtain ⟨opened, hopen, h⟩ := Except.bind_eq_ok_iff.1 h
      cases h
      obtain ⟨hkinds, hcount⟩ := openGroup_eq_ok hopen
      exact ⟨0, .group (some _), rfl, hkinds, hcount⟩

/-- A string reference is a node of its own. -/
theorem adds_of_readStringRef (h : builder.readStringRef text = .ok next) :
    ∃ group, builder.Adds next 2 [.stringRef group] := by
  obtain ⟨following, _, h⟩ := Except.bind_eq_ok_iff.1 h
  cases following with
  | none => cases h
  | some c =>
      dsimp only at h
      split at h
      · cases h
      · split at h
        · cases h
        · obtain ⟨_, happend, h⟩ := Except.bind_eq_ok_iff.1 h
          cases h
          obtain ⟨arena, hkinds, rfl⟩ := append_eq_ok happend
          exact ⟨_, rfl, hkinds, rfl⟩

/-- Every construct has characters. -/
theorem adds_of_read (h : builder.read text c = .ok next) :
    ∃ count made, builder.Adds next (count + 1) made := by
  unfold read at h
  split at h
  · exact ⟨0, _, adds_of_readStar h⟩
  split at h
  · obtain hadds | hadds := adds_of_readBar h
    · exact ⟨0, _, hadds⟩
    · exact ⟨0, _, hadds⟩
  split at h
  · obtain ⟨count, kind, hadds⟩ := adds_of_readOpen h
    exact ⟨count, _, hadds⟩
  split at h
  · exact ⟨0, _, adds_of_readClose h⟩
  split at h
  · obtain ⟨group, hadds⟩ := adds_of_readStringRef h
    exact ⟨1, _, hadds⟩
  split at h
  · obtain ⟨_, happend, h⟩ := Except.bind_eq_ok_iff.1 h
    cases h
    obtain ⟨arena, hkinds, rfl⟩ := append_eq_ok happend
    exact ⟨0, _, rfl, hkinds, rfl⟩
  · cases h

/-- A round that is not the last one reads a construct. -/
theorem round_eq_ok (h : builder.round text = .ok (some next)) :
    builder.position < text.length ∧ ∃ count made, builder.Adds next (count + 1) made := by
  obtain ⟨found, hfound, h⟩ := Except.bind_eq_ok_iff.1 h
  cases found with
  | none => cases h
  | some c =>
      obtain ⟨read, hread, h⟩ := Except.bind_eq_ok_iff.1 h
      cases h
      refine ⟨?_, adds_of_read hread⟩
      by_contra hend
      rw [charAt, List.getElem?_eq_none (Nat.le_of_not_lt hend)] at hfound
      cases hfound

end Adds

/-- Makes rounds to the end of the text. -/
def run (text : List Char) (builder : Builder) : Except Stop Tree :=
  match _ : builder.round text with
  | .error stop => .error stop
  | .ok none => builder.finish
  | .ok (some next) => next.run text
termination_by text.length - builder.position
decreasing_by
  obtain ⟨hlt, count, made, hadds⟩ := round_eq_ok ‹_›
  have hposition := hadds.position
  omega

section Run

variable {text : List Char} {builder next : Builder} {stop : Stop}

theorem run_of_error (h : builder.round text = .error stop) : builder.run text = .error stop := by
  rw [run]
  split
  · next hround =>
      cases h.symm.trans hround
      rfl
  · next hround => cases h.symm.trans hround
  · next hround => cases h.symm.trans hround

theorem run_of_none (h : builder.round text = .ok none) : builder.run text = builder.finish := by
  rw [run]
  split
  · next hround => cases h.symm.trans hround
  · rfl
  · next hround => cases h.symm.trans hround

theorem run_of_some (h : builder.round text = .ok (some next)) :
    builder.run text = next.run text := by
  rw [run]
  split
  · next hround => cases h.symm.trans hround
  · next hround => cases h.symm.trans hround
  · next hround =>
      cases h.symm.trans hround
      rfl

end Run

/-- The builder comes to the second state in some rounds. -/
def Reaches (text : List Char) : Builder → Builder → Prop :=
  Relation.ReflTransGen fun builder next => builder.round text = .ok (some next)

end Builder

end Backref
