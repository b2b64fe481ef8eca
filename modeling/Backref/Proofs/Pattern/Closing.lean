import Backref.Proofs.Pattern.Unfolding

/-!
# Groups that close

A capturing group gets its number when it opens, and it is complete when it closes. While a text is
read, each capturing group is either open or among the nodes that have been read: no group is lost
when a bar, a star or another parenthesis puts it below a new node (`Parser.places_read`), and no
number is given out twice (`Parser.numbers_perm`). So the groups that are closed from the first
character to the last one are the entries of the table, each of them once
(`Pattern.closings_perm_groups`).
-/

namespace Backref

/-! ## Groups of a level -/

/-- The label and the number of a capturing group. -/
def Node.numbered? (node : Node) : Option (Label × Nat) :=
  match node.kind with
  | .group (some number) => some (node.label, number)
  | _ => none

/-- The place of a capturing group is a part of its label. -/
theorem Node.capture?_eq_map (node : Node) :
    node.capture? = node.numbered?.map fun (label, number) => (label.position, number) := by
  obtain ⟨label, kind, children⟩ := node
  cases kind with
  | group number => cases number <;> rfl
  | _ => rfl

/-- The capturing groups among some nodes and below them. -/
def Node.captures (nodes : List Node) : List (Label × Nat) :=
  (Node.subtrees nodes).filterMap Node.numbered?

namespace Node

/-- The groups of nodes one after the other. -/
theorem captures_append (nodes nodes' : List Node) :
    captures (nodes ++ nodes') = captures nodes ++ captures nodes' := by
  rw [captures, subtrees_append, List.filterMap_append]
  rfl

/-- The groups of a node are itself, if it is one, and those of its children. -/
theorem captures_singleton (node : Node) :
    captures [node] = node.numbered?.toList ++ captures node.children := by
  rw [captures, subtrees, subtrees, List.append_nil, subtree_eq, List.filterMap_cons]
  cases node.numbered? <;> rfl

/-- A node that is no capturing group has the groups of its children. -/
theorem captures_of_numbered? {node : Node} (h : node.numbered? = none) :
    captures [node] = captures node.children := by
  rw [captures_singleton, h]
  rfl

end Node

/-- The capturing groups of a level. -/
def Level.captures (level : Level) : List (Label × Nat) := Node.captures level.nodes

namespace Level

/-- The groups of a level after a bar are those of its branches. -/
theorem captures_choice (items : List Node) (choice : Choice) :
    (Level.mk items (some choice)).captures =
      Node.captures choice.closed.reverse ++ Node.captures items.reverse := by
  have hbranch : Node.captures [⟨choice.current, .branch, items.reverse⟩] =
      Node.captures items.reverse := Node.captures_of_numbered? rfl
  have hchoice : (Level.mk items (some choice)).captures =
      Node.captures (choice.close items).reverse := Node.captures_of_numbered? rfl
  rw [hchoice, Choice.close, List.reverse_cons, Node.captures_append, hbranch]

/-- An item brings its groups after those of the level. -/
theorem captures_add (level : Level) (item : Node) :
    (level.add item).captures = level.captures ++ Node.captures [item] := by
  obtain ⟨items, choice⟩ := level
  cases choice with
  | none =>
      show Node.captures (item :: items).reverse = Node.captures items.reverse ++ _
      rw [List.reverse_cons, Node.captures_append]
  | some choice =>
      rw [add, captures_choice, captures_choice, List.reverse_cons, Node.captures_append,
        List.append_assoc]

end Level

/-! ## Groups of a parser -/

/-- The label and the number of an open capturing group. -/
def OpenGroup.numbered? (group : OpenGroup) : Option (Label × Nat) :=
  group.number.map fun number => (group.label, number)

namespace Parser

variable {parser base next : Parser} {c : Char}

/-- The capturing groups that have been closed, level by level. -/
def captures (parser : Parser) : List (Label × Nat) :=
  parser.level.captures ++ parser.enclosing.flatMap fun group => group.outer.captures

/-- The places and the numbers of the capturing groups that have been closed. -/
def places (parser : Parser) : List (Nat × Nat) :=
  parser.captures.map fun (label, number) => (label.position, number)

/-- What keeps the closed groups keeps their places. -/
theorem places_eq (h : next.captures = parser.captures) : next.places = parser.places :=
  congrArg (List.map _) h

/-- The innermost open group, if it is a capturing one. -/
def innermost? (parser : Parser) : Option (Nat × Nat) :=
  parser.enclosing.head?.bind fun group =>
    group.number.map fun number => (group.label.position, number)

/-- The capturing group that a parser closes when it reads the character. A parenthesis that stands
inside another construct closes none. -/
def closed? (parser : Parser) (c : Char) : Option (Nat × Nat) :=
  match parser.settle with
  | .ok base => if c = ')' then base.innermost? else none
  | .error _ => none

/-- The capturing groups that a parser closes when it reads the text, in the order in which it
closes them. -/
def closings (parser : Parser) : List Char → List (Nat × Nat)
  | [] => []
  | c :: text =>
      match parser.feed c with
      | .ok next => (parser.closed? c).toList ++ next.closings text
      | .error _ => []

/-! ### What a part of a token does -/

/-- A leaf is no capturing group. -/
theorem captures_addLeaf {kind : Kind} (parser : Parser) (start : Nat)
    (hkind : Node.numbered? ⟨⟨parser.nextId, start⟩, kind, []⟩ = none) :
    (parser.addLeaf kind start).captures = parser.captures := by
  have hleaf : Node.captures [⟨⟨parser.nextId, start⟩, kind, []⟩] = [] :=
    Node.captures_of_numbered? hkind
  show (parser.level.add _).captures ++ _ = _
  rw [Level.captures_add, hleaf, List.append_nil]
  rfl

/-- A group that opens is not closed yet. -/
theorem captures_openGroup (parser : Parser) (number : Option Nat) (start : Nat) :
    (parser.openGroup number start).captures = parser.captures := by
  show [] ++ (parser.level.captures ++ _) = _
  rw [List.nil_append]
  rfl

/-- Settling a parenthesis opens a group. -/
theorem places_settle (h : parser.settle = .ok base) : base.places = parser.places := by
  rcases settle_cases h with ⟨_, rfl⟩ | ⟨start, _, hopen⟩
  · rfl
  · obtain ⟨_, rfl⟩ := openCapturing_eq_ok_iff.1 hopen
    exact places_eq (captures_openGroup _ _ _)

/-- A star puts the last item below a repetition. -/
theorem captures_star (h : parser.star = .ok next) : next.captures = parser.captures := by
  obtain ⟨item, items, hitems, _, rfl⟩ := star_eq_ok_iff.1 h
  have hlevel : parser.level = Level.add ⟨items, parser.level.choice⟩ item := by
    rw [Level.add, ← hitems]
  have hloop : Node.captures [⟨⟨parser.nextId, item.position⟩, .repetition, [item]⟩] =
      Node.captures [item] := Node.captures_of_numbered? rfl
  show (Level.add ⟨items, parser.level.choice⟩ _).captures ++ _ = parser.level.captures ++ _
  rw [hlevel, Level.captures_add, Level.captures_add, hloop]
  rfl

/-- A bar puts the items before it below a branch. -/
theorem captures_bar (h : parser.bar = .ok next) : next.captures = parser.captures := by
  obtain ⟨position, nextId, groupCount, maxExpressionRef, pending, ⟨items, choice⟩, enclosing⟩ :=
    parser
  unfold bar at h
  split at h
  · cases h
  · -- The new branch is empty, and the branches before it have the groups of the level.
    have hempty : ∀ closing : Choice, (Level.mk [] (some closing)).captures =
        Node.captures closing.closed.reverse := fun closing =>
      (Level.captures_choice [] closing).trans (List.append_nil _)
    cases choice with
    | none =>
        cases h
        show (Level.mk [] _).captures ++ _ = Node.captures items.reverse ++ _
        rw [hempty]
        exact congrArg (· ++ _) (Node.captures_of_numbered? rfl)
    | some choice =>
        cases h
        show (Level.mk [] _).captures ++ _ = (Level.mk items (some choice)).captures ++ _
        rw [hempty, Level.captures_choice]
        show Node.captures (choice.close items).reverse ++ _ = _
        rw [Choice.close, List.reverse_cons, Node.captures_append]
        exact congrArg (_ ++ · ++ _) (Node.captures_of_numbered? rfl)

/-- A closing parenthesis adds the group that it closes. -/
theorem captures_close (h : parser.close = .ok next) :
    next.captures.Perm ((parser.enclosing.head?.bind OpenGroup.numbered?).toList ++
      parser.captures) := by
  obtain ⟨group, enclosing, henclosing, rfl⟩ := close_eq_ok_iff.1 h
  have hgroup : Node.numbered? ⟨group.label, .group group.number, parser.level.nodes⟩ =
      group.numbered? := by
    rw [OpenGroup.numbered?, Node.numbered?]
    cases group.number <;> rfl
  rw [henclosing, List.head?_cons, Option.bind_some]
  show ((group.outer.add _).captures ++ _).Perm _
  rw [Level.captures_add, Node.captures_singleton, hgroup, captures, henclosing,
    List.flatMap_cons, List.append_assoc, List.append_assoc]
  exact (List.perm_append_comm_assoc _ _ _).trans
    ((List.perm_append_comm_assoc _ _ _).append_left _)

/-- A closing parenthesis adds the place of the group that it closes. -/
theorem places_close (h : parser.close = .ok next) :
    next.places.Perm (parser.innermost?.toList ++ parser.places) := by
  have hinnermost : parser.innermost? =
      (parser.enclosing.head?.bind OpenGroup.numbered?).map fun (label, number) =>
        (label.position, number) := by
    rw [innermost?, Option.map_bind]
    congr 1
    funext group
    rw [Function.comp_apply, OpenGroup.numbered?, Option.map_map]
    rfl
  rw [places, places, hinnermost, Option.toList_map, ← List.map_append]
  exact (captures_close h).map _

/-- The first character of an item, or one that stands for itself, closes a group if it is a closing
parenthesis. -/
theorem places_begin (h : parser.begin c = .ok next) :
    next.places.Perm ((if c = ')' then parser.innermost? else none).toList ++ parser.places) := by
  by_cases hclosing : c = ')'
  · subst hclosing
    have hclose : Parser.close { parser with pending := .nothing } = .ok next := h
    have hperm := places_close hclose
    exact hperm
  · rw [if_neg hclosing]
    have hcaptures : next.captures = parser.captures := by
      unfold begin at h
      dsimp only at h
      split at h
      · exact (captures_star h).trans rfl
      · split at h
        · exact (captures_bar h).trans rfl
        · split at h
          · cases h
            rfl
          · split at h
            · cases h
              rfl
            · split at h
              · cases h
                exact captures_addLeaf _ _ rfl
              · cases h
    exact .of_eq (places_eq hcaptures)

/-! ### Characters and texts -/

/-- What a settled parser closes. -/
theorem closed?_of_settle (h : parser.settle = .ok base) (c : Char) :
    parser.closed? c = if c = ')' then base.innermost? else none := by
  rw [closed?, h]

/-- A parser that cannot be settled closes nothing. -/
theorem closed?_of_error {rejection : Rejection} (h : parser.settle = .error rejection) (c : Char) :
    parser.closed? c = none := by
  rw [closed?, h]

/-- Reading a character adds the group that it closes. -/
theorem places_read (h : parser.read c = .ok next) :
    next.places.Perm ((parser.closed? c).toList ++ parser.places) := by
  unfold read at h
  split at h
  · next hpending =>
      have hsettle : parser.settle = .ok { parser with pending := .nothing } := by
        rw [settle, hpending]
      rw [closed?_of_settle hsettle]
      exact places_begin h
  · next index hpending =>
      have hsettle : parser.settle = .ok { parser with pending := .nothing } := by
        rw [settle, hpending]
      rw [closed?_of_settle hsettle]
      exact places_begin h
  · next start hpending =>
      have hsettle : parser.settle = parser.openCapturing start := by
        rw [settle, hpending]
      split at h
      · next hquery =>
          -- The question mark makes it no capturing group, so it is not opened.
          cases h
          have hnone : parser.closed? c = none := by
            rw [closed?, hquery]
            split <;> rfl
          rw [hnone]
          exact .refl _
      · obtain ⟨base, hopen, h⟩ := Except.bind_eq_ok_iff.1 h
        rw [hopen] at hsettle
        rw [closed?_of_settle hsettle, ← places_settle hsettle]
        exact places_begin h
  · next start hpending =>
      rw [closed?_of_error (by rw [settle, hpending])]
      unfold afterQuery at h
      split at h
      · cases h
        exact .of_eq (places_eq (captures_openGroup _ _ _))
      · split at h
        · cases h
          exact .refl _
        · cases h
  · next start group hpending =>
      rw [closed?_of_error (by rw [settle, hpending])]
      unfold afterQueryDigit at h
      split at h
      · cases h
        exact .of_eq (places_eq (captures_addLeaf _ _ rfl))
      · cases h
  · next start hpending =>
      rw [closed?_of_error (by rw [settle, hpending])]
      unfold afterBackslash at h
      split at h
      · split at h
        · cases h
        · cases h
          exact .of_eq (places_eq (captures_addLeaf _ _ rfl))
      · cases h

/-- Reading a text adds the groups that it closes. -/
theorem places_closings {text : List Char} (h : text.foldlM feed parser = .ok next) :
    next.places.Perm (parser.closings text ++ parser.places) := by
  induction text generalizing parser with
  | nil =>
      cases h
      exact .refl _
  | cons c text ih =>
      obtain ⟨middle, hmiddle, h⟩ := Except.bind_eq_ok_iff.1 h
      have hfirst : middle.places.Perm ((parser.closed? c).toList ++ parser.places) := by
        unfold feed at hmiddle
        split at hmiddle
        · obtain ⟨read, hread, hmiddle⟩ := Except.bind_eq_ok_iff.1 hmiddle
          cases hmiddle
          have hperm := places_read hread
          exact hperm
        · cases hmiddle
      rw [closings, hmiddle]
      show next.places.Perm ((parser.closed? c).toList ++ middle.closings text ++ parser.places)
      rw [List.append_assoc]
      exact ((ih h).trans (hfirst.append_left _)).trans (List.perm_append_comm_assoc _ _ _)

/-- When no group is open, the groups that have been closed are those of the pattern. -/
theorem captures_conclude {pattern : Pattern} (h : parser.conclude = .ok pattern) :
    pattern.root.subtree.filterMap Node.numbered? = parser.captures := by
  obtain ⟨henclosing, _⟩ := conclude_cases h
  rw [captures, henclosing, List.flatMap_nil, List.append_nil]
  unfold conclude at h
  split at h
  · cases h
  · split at h
    · cases h
    · cases h
      rw [Node.subtree_eq, List.filterMap_cons]
      rfl

/-- At the end of a text no group is open any more. -/
theorem places_finish {pattern : Pattern} (h : parser.finish = .ok pattern) :
    pattern.root.subtree.filterMap Node.capture? = parser.places := by
  unfold finish at h
  split at h
  · rw [places, ← captures_conclude h, List.map_filterMap]
    exact congrArg (List.filterMap · _) (funext Node.capture?_eq_map)
  · cases h
  · obtain ⟨opened, hopen, h⟩ := Except.bind_eq_ok_iff.1 h
    obtain ⟨_, rfl⟩ := openCapturing_eq_ok_iff.1 hopen
    cases h
  · cases h
  · cases h
  · cases h

/-! ### Numbers

Every number is that of one group, be it closed or open. -/

/-- The numbers of the capturing groups, first of those that have been closed and then of the open
ones. -/
def numbers (parser : Parser) : List Nat :=
  parser.captures.map Prod.snd ++ parser.enclosing.filterMap OpenGroup.number

/-- What keeps the closed groups and the open ones keeps their numbers. -/
theorem numbers_eq (hcaptures : next.captures = parser.captures)
    (henclosing : next.enclosing = parser.enclosing) : next.numbers = parser.numbers := by
  rw [numbers, numbers, hcaptures, henclosing]

/-- A leaf has no number. -/
theorem numbers_addLeaf (kind : Kind) (parser : Parser) (start : Nat)
    (hkind : Node.numbered? ⟨⟨parser.nextId, start⟩, kind, []⟩ = none) :
    (parser.addLeaf kind start).numbers = parser.numbers :=
  numbers_eq (captures_addLeaf parser start hkind) rfl

/-- A closing parenthesis closes the group with its number. -/
theorem numbers_close (h : parser.close = .ok next) : next.numbers.Perm parser.numbers := by
  have hcaptures := (captures_close h).map Prod.snd
  obtain ⟨group, enclosing, henclosing, rfl⟩ := close_eq_ok_iff.1 h
  rw [henclosing, List.map_append] at hcaptures
  have hnumber : (group.numbered?.toList).map Prod.snd = group.number.toList := by
    rw [OpenGroup.numbered?]
    cases group.number <;> rfl
  have hopen : parser.enclosing.filterMap OpenGroup.number =
      group.number.toList ++ enclosing.filterMap OpenGroup.number := by
    rw [henclosing, List.filterMap_cons]
    cases group.number <;> rfl
  rw [List.head?_cons, Option.bind_some, hnumber] at hcaptures
  rw [numbers, numbers, hopen]
  refine (hcaptures.append_right _).trans ?_
  rw [List.append_assoc]
  exact List.perm_append_comm_assoc _ _ _

/-- Reading a token keeps every number up to the count at one group. -/
theorem numbers_consume {token : Token} (h : parser.consume token = .ok next)
    (hnumbers : parser.numbers.Perm (List.range' 1 parser.groupCount)) :
    next.numbers.Perm (List.range' 1 next.groupCount) := by
  cases token with
  | letter c =>
      cases h
      have hleaf := numbers_addLeaf (.literal c.char) parser parser.position rfl
      exact (List.Perm.of_eq hleaf).trans hnumbers
  | opening captures =>
      cases captures with
      | true =>
          obtain ⟨middle, hopen, h⟩ := Except.bind_eq_ok_iff.1 h
          obtain ⟨_, rfl⟩ := openCapturing_eq_ok_iff.1 hopen
          cases h
          -- The new group gets the number after those that were given out before.
          show (_ ++ (parser.groupCount + 1) :: parser.enclosing.filterMap OpenGroup.number).Perm
            (List.range' 1 (parser.groupCount + 1))
          rw [List.range'_1_concat, Nat.add_comm 1]
          have hlast := List.perm_append_singleton (parser.groupCount + 1)
            (List.range' 1 parser.groupCount)
          exact (List.perm_middle.trans (hnumbers.cons _)).trans hlast.symm
      | false =>
          cases h
          exact hnumbers
  | closing =>
      obtain ⟨middle, hclose, h⟩ := Except.bind_eq_ok_iff.1 h
      cases h
      have hcount : middle.groupCount = parser.groupCount := by
        obtain ⟨_, _, _, rfl⟩ := close_eq_ok_iff.1 hclose
        rfl
      show middle.numbers.Perm (List.range' 1 middle.groupCount)
      rw [hcount]
      exact (numbers_close hclose).trans hnumbers
  | star =>
      obtain ⟨middle, hstar, h⟩ := Except.bind_eq_ok_iff.1 h
      cases h
      have hcaptures := captures_star hstar
      obtain ⟨_, _, _, _, rfl⟩ := star_eq_ok_iff.1 hstar
      exact (List.Perm.of_eq (numbers_eq hcaptures rfl)).trans hnumbers
  | bar =>
      obtain ⟨middle, hbar, h⟩ := Except.bind_eq_ok_iff.1 h
      cases h
      have hcaptures := captures_bar hbar
      obtain ⟨_, _, _, rfl⟩ := bar_cases hbar
      exact (List.Perm.of_eq (numbers_eq hcaptures rfl)).trans hnumbers
  | expressionRef group =>
      cases h
      have hleaf := numbers_addLeaf (.expressionRef group.value) parser parser.position rfl
      exact (List.Perm.of_eq hleaf).trans hnumbers
  | stringRef group =>
      simp only [consume] at h
      split at h
      · cases h
      · cases h
        have hleaf := numbers_addLeaf (.stringRef group.value) parser parser.position rfl
        exact (List.Perm.of_eq hleaf).trans hnumbers

/-- The capturing groups that have been read have the numbers from one on, each of them once. -/
theorem numbers_perm {tokens : List Token} (h : start.consumeAll tokens = .ok parser) :
    parser.numbers.Perm (List.range' 1 parser.groupCount) := by
  induction tokens using List.reverseRecOn generalizing parser with
  | nil =>
      cases h
      exact .refl _
  | append_singleton tokens token ih =>
      rw [consumeAll_append] at h
      obtain ⟨middle, hmiddle, h⟩ := Except.bind_eq_ok_iff.1 h
      rw [consumeAll_singleton] at h
      exact numbers_consume h (ih hmiddle)

/-- No open group has the number of a group that has been closed. -/
theorem number_notMem_captures {tokens : List Token} {group : OpenGroup}
    (h : start.consumeAll tokens = .ok parser) (hgroup : group ∈ parser.enclosing) :
    ∀ number ∈ group.number, number ∉ parser.captures.map Prod.snd := by
  intro number hnumber hclosed
  have hnodup : parser.numbers.Nodup := (numbers_perm h).nodup_iff.2 List.nodup_range'
  exact List.disjoint_of_nodup_append hnodup hclosed
    (List.mem_filterMap.2 ⟨group, hgroup, hnumber⟩)

end Parser

namespace Pattern

/-- The groups that the parser closes while it reads a text, in the order in which it closes them,
are the entries of the table. -/
theorem closings_perm_groups {text : String} {pattern : Pattern}
    (h : Pattern.parse text = .ok pattern) :
    (Parser.start.closings text.toList).Perm
      (pattern.groups.map fun group => (group.2.position, group.1)) := by
  obtain ⟨parser, hfold, hfinish⟩ := Except.bind_eq_ok_iff.1 h
  rw [groups_eq, Parser.places_finish hfinish]
  have hperm := Parser.places_closings hfold
  rw [show Parser.start.places = [] from rfl, List.append_nil] at hperm
  exact hperm.symm

end Pattern

end Backref
