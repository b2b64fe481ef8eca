import Backref.Proofs.Pattern.Shape

/-!
# A pattern inside a group

`Pattern.wrap` is the tree of a pattern in `(?:` and `)`. What was the whole pattern is now a group
that does not capture; everything in it stands three characters further to the right, and every node
has the next identifier. Read `Pattern.parse_wrap` first.
-/

namespace Backref

/-- What becomes of a kind: the whole pattern is a group from now on. -/
def Kind.wrap : Kind → Kind
  | .sequence => .group none
  | kind => kind

/-- How far a node moves to the right. The group starts where the whole pattern started. -/
def Kind.delay : Kind → Nat
  | .sequence => 0
  | _ => 3

namespace Node

mutual

/-- A node of a pattern that has been put into `(?:` and `)`. -/
def wrap : Node → Node
  | ⟨label, kind, children⟩ =>
      ⟨⟨label.id + 1, label.position + kind.delay⟩, kind.wrap, wrapAll children⟩

/-- Some nodes of a pattern that has been put into `(?:` and `)`. -/
def wrapAll : List Node → List Node
  | [] => []
  | node :: nodes => node.wrap :: wrapAll nodes

end

/-- Nodes are wrapped one by one. -/
theorem wrapAll_eq_map (nodes : List Node) : wrapAll nodes = nodes.map wrap := by
  induction nodes with
  | nil => rfl
  | cons node nodes ih => rw [wrapAll, ih, List.map_cons]

theorem wrap_mk (label : Label) (kind : Kind) (children : List Node) :
    wrap ⟨label, kind, children⟩ =
      ⟨⟨label.id + 1, label.position + kind.delay⟩, kind.wrap, children.map wrap⟩ := by
  rw [wrap, wrapAll_eq_map]

@[simp] theorem wrap_id (node : Node) : node.wrap.id = node.id + 1 := by
  cases node
  rw [wrap]
  rfl

@[simp] theorem wrap_kind (node : Node) : node.wrap.kind = node.kind.wrap := by
  cases node
  rw [wrap]

@[simp] theorem wrap_children (node : Node) : node.wrap.children = node.children.map wrap := by
  cases node
  rw [wrap_mk]

/-- What lies below the root moves by the length of `(?:`. -/
theorem wrap_position {node : Node} (h : node.kind ≠ .sequence) :
    node.wrap.position = node.position + 3 := by
  obtain ⟨label, kind, children⟩ := node
  rw [wrap]
  cases kind with
  | sequence => exact absurd rfl h
  | _ => rfl

end Node

/-- The pattern inside a group that does not capture. -/
def Pattern.wrap (pattern : Pattern) : Pattern :=
  ⟨⟨⟨0, 0⟩, .sequence, [pattern.root.wrap]⟩⟩

/-! ## The tree of the longer text -/

namespace Cursor

/-- The order in which characters and nodes are passed does not matter. -/
theorem skip_comm (cursor : Cursor) (characters nodes characters' nodes' : Nat) :
    (cursor.skip characters nodes).skip characters' nodes' =
      (cursor.skip characters' nodes').skip characters nodes := by
  simp only [skip, Nat.add_right_comm]

/-- A group opens behind `(?:` as it did before. -/
theorem enter_skip (cursor : Cursor) (captures : Bool) :
    (cursor.skip 3 1).enter captures = (cursor.enter captures).skip 3 1 := by
  cases captures with
  | true => simp only [enter, skip, Nat.add_right_comm]
  | false => rfl

/-- An alternation is created behind `(?:` as it was before. -/
theorem alternate_skip (cursor : Cursor) (others : List (List Item)) :
    (cursor.skip 3 1).alternate others = (cursor.alternate others).skip 3 1 := by
  unfold alternate
  split
  · rfl
  · exact cursor.skip_comm 3 1 0 2

end Cursor

/-- A repetition moves together with its child. -/
theorem Node.starIf_wrap (starred : Bool) {node : Node} (h : node.kind ≠ .sequence)
    (cursor : Cursor) :
    Node.starIf starred node.wrap (cursor.skip 3 1) =
      ((Node.starIf starred node cursor).1.wrap, (Node.starIf starred node cursor).2.skip 3 1) := by
  cases starred with
  | false => rfl
  | true =>
      simp only [starIf, if_true, wrap_mk, wrap_position h, List.map_cons, List.map_nil,
        cursor.skip_comm 3 1 1 1]
      rfl

/-- A sequence of items begins three characters further to the right. -/
theorem Node.beginning_wrap {nodes : List Node} (h : ∀ node ∈ nodes, node.kind.isItem)
    (cursor : Cursor) :
    Node.beginning (nodes.map wrap) (cursor.skip 3 1) = Node.beginning nodes cursor + 3 := by
  cases nodes with
  | nil => rfl
  | cons first nodes =>
      have hkind : first.kind ≠ .sequence := fun hkind => by
        have hitem := h first List.mem_cons_self
        rw [hkind] at hitem
        cases hitem
      exact wrap_position hkind

/-- An alternation moves together with its branches. -/
theorem Node.alternate_wrap {nodes : List Node} (h : ∀ node ∈ nodes, node.kind.isItem)
    (cursor : Cursor) (branches : List Node) :
    Node.alternate (nodes.map wrap) (cursor.skip 3 1) (branches.map wrap) =
      (Node.alternate nodes cursor branches).map wrap := by
  cases branches with
  | nil => rfl
  | cons branch branches =>
      -- The alternation is created after its branches, with the next identifier.
      have hid : (cursor.skip 3 1).nextId = cursor.nextId + 1 := rfl
      simp only [List.map_cons, alternate, beginning_wrap h, hid, List.map_nil, wrap_mk]
      rfl

mutual

/-- The node of an item behind `(?:`. -/
theorem Item.build_wrap : ∀ (item : Item) (cursor : Cursor),
    item.build (cursor.skip 3 1) = ((item.build cursor).1.wrap, (item.build cursor).2.skip 3 1)
  | .letter c starred, cursor => by
      rw [Item.build, Item.build, cursor.skip_comm 3 1 1 1, ← Node.starIf_wrap starred]
      · rfl
      · nofun
  | .group captures first others starred, cursor => by
      have hitem : ∀ node ∈ (Item.buildSequence first (cursor.enter captures)).1,
          node.kind.isItem := fun _ => Item.isItem_of_mem_buildSequence
      rw [Item.build, Item.build, ← Node.starIf_wrap starred]
      -- The cursor goes past `(?:` last: first past what opens the group, then past its body.
      · simp only [cursor.enter_skip, Item.buildSequence_wrap first, Cursor.alternate_skip,
          Item.buildBranches_wrap others, Node.alternate_wrap hitem, Node.wrap_mk,
          Cursor.skip_comm _ 3 1 1 0]
        rfl
      · nofun
  | .expressionRef number starred, cursor => by
      rw [Item.build, Item.build, cursor.skip_comm 3 1 4 1, ← Node.starIf_wrap starred]
      · rfl
      · nofun
  | .stringRef number, cursor => by
      rw [Item.build, Item.build, cursor.skip_comm 3 1 2 1]
      rfl

/-- The nodes of a sequence behind `(?:`. -/
theorem Item.buildSequence_wrap : ∀ (items : List Item) (cursor : Cursor),
    Item.buildSequence items (cursor.skip 3 1) =
      ((Item.buildSequence items cursor).1.map Node.wrap,
        (Item.buildSequence items cursor).2.skip 3 1)
  | [], cursor => rfl
  | item :: items, cursor => by
      simp only [Item.buildSequence, Item.build_wrap item, Item.buildSequence_wrap items,
        List.map_cons]

/-- The branches of some sequences behind `(?:`. -/
theorem Item.buildBranches_wrap : ∀ (others : List (List Item)) (cursor : Cursor),
    Item.buildBranches others (cursor.skip 3 1) =
      ((Item.buildBranches others cursor).1.map Node.wrap,
        (Item.buildBranches others cursor).2.skip 3 1)
  | [], cursor => rfl
  | items :: others, cursor => by
      simp only [Item.buildBranches, cursor.skip_comm 3 1 1 1, Item.buildSequence_wrap items,
        Item.buildBranches_wrap others, List.map_cons, Node.wrap_mk]
      simp only [Cursor.skip, Nat.add_right_comm]
      rfl

end

namespace Regex

/-- The abstract pattern in `(?:` and `)`. -/
def wrap (regex : Regex) : Regex := ⟨[.group false regex.first regex.others false], []⟩

/-- The tokens of a pattern in a group. -/
theorem tokens_wrap (regex : Regex) :
    regex.wrap.tokens = .opening false :: (regex.tokens ++ [.closing]) := by
  simp [wrap, tokens, Item.sequenceTokens, Item.barredTokens, Item.tokens, Token.starIf]

/-- The text of a pattern in a group. -/
theorem text_wrap (regex : Regex) : regex.wrap.text = "(?:".toList ++ regex.text ++ ")".toList := by
  simp [text, tokens_wrap, Token.spell]

/-- A valid pattern is valid in a group: no group that captures is added, and what stands before a
string reference stays before it. -/
theorem Valid.wrap {regex : Regex} (h : regex.Valid) : regex.wrap.Valid := by
  have hcount : regex.wrap.tokens.count (.opening true) = regex.tokens.count (.opening true) := by
    simp [tokens_wrap]
  refine ⟨?_, ?_, ?_, fun hothers => absurd rfl hothers, fun _ hlast => nomatch hlast⟩
  · rw [hcount]
    exact h.groups_le
  · have hopening : Token.Declared 0 regex.wrap.tokens := by
      rw [tokens_wrap, Token.declared_cons, Token.declared_append]
      refine ⟨trivial, h.declared, ?_⟩
      rw [Token.declared_cons, Token.declared_nil]
      exact ⟨trivial, by simpa using h.groups_le⟩
    simpa using hopening.stringRef_le
  · intro group hmem
    rw [hcount]
    exact h.expressionRef_le group (by simpa [tokens_wrap] using hmem)

/-- The tree of a pattern in a group. -/
theorem build_wrap (regex : Regex) : regex.wrap.build = regex.build.wrap := by
  have hitem : ∀ node ∈ (Item.buildSequence regex.first .start).1, node.kind.isItem :=
    fun _ => Item.isItem_of_mem_buildSequence
  have hbody : (regex.buildBody (Cursor.start.skip 3 1)).1 =
      (regex.buildBody .start).1.map Node.wrap := by
    simp only [buildBody, Item.buildSequence_wrap, Cursor.alternate_skip, Item.buildBranches_wrap,
      Node.alternate_wrap hitem]
  rw [build, build, wrap, buildBody_single, Pattern.wrap, Node.wrap_mk, ← hbody]
  rfl

end Regex

/-- A pattern in `(?:` and `)` is a pattern, and its tree is that of the pattern in a group. -/
theorem Pattern.parse_wrap {text : String} {pattern : Pattern}
    (h : Pattern.parse text = .ok pattern) :
    Pattern.parse ("(?:" ++ text ++ ")") = .ok pattern.wrap := by
  obtain ⟨regex, hvalid, htext, rfl⟩ := Pattern.parse_eq_ok_iff.1 h
  refine Pattern.parse_eq_ok_iff.2 ⟨regex.wrap, hvalid.wrap, ?_, regex.build_wrap⟩
  rw [regex.text_wrap, htext, String.toList_append, String.toList_append]

end Backref
