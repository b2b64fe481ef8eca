import Backref.Proofs.Pattern.Draft
import Backref.Proofs.Pattern.Layout

/-!
# Reading the structure off a tree

`Pattern.regex?` reads a tree as an abstract pattern: a node whose only child is an alternation
stands around its branches, any other node around the sequence of its children, and a repetition
puts a star after its child. Parsing the text of a valid abstract pattern and reading the tree
gives back the same abstract pattern (`Regex.exists_parse_text`).
-/

namespace Backref

/-- The letter that a character is. -/
def Letter.ofChar? (c : Char) : Option Letter :=
  if h : Alphabet.isLetter c then some ⟨c, h⟩ else none

/-- The group number that a number is. -/
def GroupNumber.ofNat? (value : Nat) : Option GroupNumber :=
  if h : 0 < value ∧ value ≤ maxGroups then some ⟨value, h.1, h.2⟩ else none

/-- A letter is the letter of its character. -/
theorem Letter.ofChar?_char (c : Letter) : Letter.ofChar? c.char = some c :=
  dif_pos c.isLetter

/-- A group number is the group number of its value. -/
theorem GroupNumber.ofNat?_value (group : GroupNumber) :
    GroupNumber.ofNat? group.value = some group :=
  dif_pos ⟨group.pos, group.le⟩

/-- The item with a star, if it may have one and has none yet. -/
def Item.star? (item : Item) : Option Item :=
  if item.isRepeatable then some item.star else none

/-- The abstract pattern inside a node: the sequence of its children, or the choice that its only
child makes. -/
def Regex.ofParts? (items : Option (List Item)) (choice : Option Regex) : Option Regex :=
  (items.map fun items => ⟨items, []⟩).or choice

/-- A choice between at least two sequences. -/
def Regex.ofBranches? : List (List Item) → Option Regex
  | first :: second :: others => some ⟨first, second :: others⟩
  | _ => none

mutual

/-- The item that a node stands for. -/
def Node.item? : Node → Option Item
  | ⟨_, .literal letter, []⟩ => (Letter.ofChar? letter).map (.letter · false)
  | ⟨_, .group number, children⟩ =>
      (Regex.ofParts? (Node.items? children) (Node.choice? children)).map fun regex =>
        .group number.isSome regex.first regex.others false
  | ⟨_, .expressionRef group, []⟩ => (GroupNumber.ofNat? group).map (.expressionRef · false)
  | ⟨_, .stringRef group, []⟩ => (GroupNumber.ofNat? group).map .stringRef
  | ⟨_, .repetition, [child]⟩ => child.item?.bind Item.star?
  | _ => none

/-- The sequence for which some nodes stand. -/
def Node.items? : List Node → Option (List Item)
  | [] => some []
  | node :: nodes => do
      let item ← node.item?
      let items ← Node.items? nodes
      return item :: items

/-- The choice for which a single node stands that is an alternation. -/
def Node.choice? : List Node → Option Regex
  | [⟨_, .alternation, branches⟩] => (Node.branches? branches).bind Regex.ofBranches?
  | _ => none

/-- The sequences for which some branches stand. -/
def Node.branches? : List Node → Option (List (List Item))
  | [] => some []
  | ⟨_, .branch, children⟩ :: nodes => do
      let items ← Node.items? children
      let others ← Node.branches? nodes
      return items :: others
  | _ => none

end

/-- The abstract pattern for which a tree stands. -/
def Pattern.regex? (pattern : Pattern) : Option Regex :=
  match pattern.root with
  | ⟨_, .sequence, children⟩ =>
      Regex.ofParts? (Node.items? children) (Node.choice? children)
  | _ => none

/-! ## Reading a tree that was built -/

/-- A repetition reads as the item with a star. -/
theorem Node.item?_starIf (item : Item) {node : Node} (hitem : node.item? = some item)
    (hrepeatable : item.isRepeatable) (starred : Bool) (cursor : Cursor) :
    (Node.starIf starred node cursor).1.item? = some (if starred then item.star else item) := by
  cases starred with
  | false => exact hitem
  | true => simp [Node.starIf, Node.item?, hitem, Item.star?, hrepeatable]

/-- A node around the nodes of a sequence, or around an alternation between several sequences,
reads as these sequences. -/
theorem Regex.ofParts?_alternate {first : List Item} {others : List (List Item)}
    {nodes : List Node} {cursor : Cursor} (hfirst : Node.items? nodes = some first)
    (hothers : Node.branches? (Item.buildBranches others cursor).1 = some others)
    (middle : Cursor) :
    Regex.ofParts? (Node.items? (Node.alternate nodes middle (Item.buildBranches others cursor).1))
      (Node.choice? (Node.alternate nodes middle (Item.buildBranches others cursor).1)) =
        some ⟨first, others⟩ := by
  cases others with
  | nil => simp [Item.buildBranches, Node.alternate, Regex.ofParts?, hfirst]
  | cons items others =>
      rw [Item.buildBranches] at hothers ⊢
      -- The alternation is no item, so the children are read as a choice.
      simp [Node.alternate, Regex.ofParts?, Node.items?, Node.item?, Node.choice?,
        Node.branches?.eq_2, hfirst, hothers, Regex.ofBranches?]

mutual

/-- The node of an item reads as the item. -/
theorem Item.item?_build : ∀ (item : Item) (cursor : Cursor),
    (item.build cursor).1.item? = some item
  | .letter c starred, cursor => by
      rw [Item.build]
      refine (Node.item?_starIf (.letter c false) ?_ rfl starred _).trans ?_
      · simp [Node.item?, Letter.ofChar?_char]
      · cases starred <;> rfl
  | .group captures first others starred, cursor => by
      rw [Item.build]
      refine (Node.item?_starIf (.group captures first others false) ?_ rfl starred _).trans ?_
      · have hfirst := Item.items?_build first (cursor.enter captures)
        have hothers := Item.branches?_build others
          ((Item.buildSequence first (cursor.enter captures)).2.alternate others)
        rw [Node.item?, Regex.ofParts?_alternate hfirst hothers]
        cases captures <;> rfl
      · cases starred <;> rfl
  | .expressionRef number starred, cursor => by
      rw [Item.build]
      refine (Node.item?_starIf (.expressionRef number false) ?_ rfl starred _).trans ?_
      · simp [Node.item?, GroupNumber.ofNat?_value]
      · cases starred <;> rfl
  | .stringRef number, cursor => by
      simp [Item.build, Node.item?, GroupNumber.ofNat?_value]

/-- The nodes of a sequence read as the sequence. -/
theorem Item.items?_build : ∀ (items : List Item) (cursor : Cursor),
    Node.items? (Item.buildSequence items cursor).1 = some items
  | [], cursor => rfl
  | item :: items, cursor => by
      simp [Item.buildSequence, Node.items?, Item.item?_build item, Item.items?_build items]

/-- The branches of some sequences read as the sequences. -/
theorem Item.branches?_build : ∀ (others : List (List Item)) (cursor : Cursor),
    Node.branches? (Item.buildBranches others cursor).1 = some others
  | [], cursor => rfl
  | items :: others, cursor => by
      simp [Item.buildBranches, Node.branches?, Item.items?_build items,
        Item.branches?_build others]

end

/-- The tree of an abstract pattern reads as the pattern. -/
theorem Regex.regex?_build (regex : Regex) : regex.build.regex? = some regex :=
  Regex.ofParts?_alternate (Item.items?_build regex.first .start)
    (Item.branches?_build regex.others _) (Item.buildSequence regex.first .start).2

/-- The capturing groups of a pattern, taken from its nodes in order. -/
theorem Pattern.groups_eq (pattern : Pattern) :
    pattern.groups.map (fun group => (group.2.position, group.1)) =
      pattern.root.subtree.filterMap Node.capture? := by
  rw [← pattern.map_node_sites, List.filterMap_map, Pattern.groups, List.map_filterMap]
  congr 1
  funext site
  simp only [Function.comp, Node.capture?, Site.kind]
  split <;> simp_all [Site.position]

/-- The text of a valid abstract pattern is accepted, the tree reads as that pattern, and its
capturing groups are numbered in the order in which the text opens them. -/
theorem Regex.exists_parse_text {regex : Regex} (h : regex.Valid) :
    ∃ pattern, Pattern.parse (String.ofList regex.text) = .ok pattern ∧
      pattern.regex? = some regex ∧
      pattern.groups.map (fun group => (group.2.position, group.1)) =
        (captureIndices 0 regex.text).zipIdx 1 := by
  refine ⟨regex.build, ?_, regex.regex?_build, ?_⟩
  · exact Pattern.parse_eq_ok_iff.2 ⟨regex, h, String.toList_ofList.symm, rfl⟩
  · rw [Pattern.groups_eq, regex.captures_build]

/-- The abstract pattern of `(|a*||(?:(?1)*|))*b|\1` is recovered from that text. -/
theorem Regex.exists_parse_text_nested :
    let one : GroupNumber := ⟨1, by decide, by decide⟩
    let inner : Item := .group false [.expressionRef one true] [[]] false
    let outer : Item := .group true [] [[.letter ⟨'a', by decide⟩ true], [], [inner]] true
    let regex : Regex := ⟨[outer, .letter ⟨'b', by decide⟩ false], [[.stringRef one]]⟩
    String.ofList regex.text = "(|a*||(?:(?1)*|))*b|\\1" ∧ regex.Valid ∧
      ∃ pattern, Pattern.parse (String.ofList regex.text) = .ok pattern ∧
        pattern.regex? = some regex ∧
        pattern.groups.map (fun group => (group.2.position, group.1)) =
          (captureIndices 0 regex.text).zipIdx 1 := by
  intro one inner outer regex
  have hvalid : regex.Valid := by decide
  exact ⟨rfl, hvalid, Regex.exists_parse_text hvalid⟩

end Backref
