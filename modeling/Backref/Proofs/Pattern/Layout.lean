import Backref.Proofs.Pattern.Atoms
import Backref.Proofs.Pattern.Build
import Backref.Proofs.Pattern.Subtree

/-!
# Identifiers, positions and group numbers

`Node.LaidOut` relates nodes to the tokens from which they are built: which characters they span,
which identifiers they use up and which of them the tokens bring. `Regex.laidOut_buildBody`
says that the tree of an abstract pattern is laid out along its tokens.
-/

namespace Backref

/-- The place after a token that brings a node. -/
def Cursor.after (cursor : Cursor) (token : Token) : Cursor :=
  { cursor.skip token.spell.length 1 with
    groups := cursor.groups + [token].count (.opening true) }

/-- The nodes come from the tokens between two places. The identifiers between these places are
theirs, and the letters, groups and references among them are in the order of the text, with
identifiers in the same order. -/
structure Node.LaidOut (start : Cursor) (tokens : List Token) (nodes : List Node)
    (stop : Cursor) : Prop where
  position_eq : stop.position = start.position + (Token.spellAll tokens).length
  groups_eq : stop.groups = start.groups + tokens.count (.opening true)
  nextId_eq : stop.nextId = start.nextId + (Node.subtrees nodes).length
  ids_perm : ((Node.subtrees nodes).map Node.id).Perm
    (List.range' start.nextId (Node.subtrees nodes).length)
  atoms_eq : (Node.subtrees nodes).filterMap Node.atom? =
    Token.atoms start.position start.groups tokens
  ascending : (Node.subtrees nodes).Pairwise fun node later =>
    node.kind.isAtom → later.kind.isAtom → node.id < later.id

namespace Node.LaidOut

variable {start middle stop : Cursor} {tokens tokens' : List Token} {nodes nodes' : List Node}

/-- No nodes come from no tokens. -/
theorem nil (cursor : Cursor) : LaidOut cursor [] [] cursor := ⟨rfl, rfl, rfl, .nil, rfl, .nil⟩

/-- The identifiers of the nodes lie between the two places. -/
theorem id_bounds (h : LaidOut start tokens nodes stop) {node : Node}
    (hnode : node ∈ subtrees nodes) : start.nextId ≤ node.id ∧ node.id < stop.nextId := by
  have hid := List.mem_range'_1.1 (h.ids_perm.mem_iff.1 (List.mem_map_of_mem hnode))
  rwa [← h.nextId_eq] at hid

/-- Identifiers ascend along nodes one after the other. -/
theorem ascending_append (count : Nat) (h : LaidOut start tokens nodes middle)
    (h' : LaidOut (middle.skip 0 count) tokens' nodes' stop) :
    (subtrees nodes ++ subtrees nodes').Pairwise fun node later =>
      node.kind.isAtom → later.kind.isAtom → node.id < later.id := by
  refine List.pairwise_append.2 ⟨h.ascending, h'.ascending, ?_⟩
  intro node hnode later hlater _ _
  have hbound := (h.id_bounds hnode).2
  have hbound' : middle.nextId + count ≤ later.id := (h'.id_bounds hlater).1
  omega

/-- Nodes one after the other come from tokens one after the other. -/
theorem append (h : LaidOut start tokens nodes middle) (h' : LaidOut middle tokens' nodes' stop) :
    LaidOut start (tokens ++ tokens') (nodes ++ nodes') stop := by
  refine ⟨?_, ?_, ?_, ?_, ?_, ?_⟩
  · rw [h'.position_eq, h.position_eq, Token.spellAll_append, List.length_append, Nat.add_assoc]
  · rw [h'.groups_eq, h.groups_eq, List.count_append, Nat.add_assoc]
  · rw [h'.nextId_eq, h.nextId_eq, subtrees_append, List.length_append, Nat.add_assoc]
  · have hperm := h.ids_perm.append h'.ids_perm
    rw [h.nextId_eq, List.range'_append_1] at hperm
    rwa [subtrees_append, List.map_append, List.length_append]
  · rw [subtrees_append, List.filterMap_append, h.atoms_eq, h'.atoms_eq, Token.atoms_append,
      h.position_eq, h.groups_eq]
  · rw [subtrees_append]
    exact h.ascending_append 0 h'

/-- A closing parenthesis, a star or a bar brings no node of its own. -/
theorem token (token : Token) (cursor : Cursor) (htoken : token.kind? cursor.groups = none) :
    LaidOut cursor [token] [] (cursor.skip token.spell.length 0) := by
  refine ⟨?_, ?_, rfl, .nil, ?_, .nil⟩
  · simp [Cursor.skip]
  · rw [Token.count_opening_of_kind? htoken]
    rfl
  · simp [subtrees, Token.atoms, htoken]

/-- Nodes that no token brings take their identifiers between two of the nodes below them. -/
theorem around {outer : List Node} (parents : List Node) (h : LaidOut start tokens nodes middle)
    (h' : LaidOut (middle.skip 0 parents.length) tokens' nodes' stop)
    (hids : parents.map Node.id = List.range' middle.nextId parents.length)
    (hatoms : parents.filterMap Node.atom? = [])
    (houter : subtrees outer = parents ++ (subtrees nodes ++ subtrees nodes')) :
    LaidOut start (tokens ++ tokens') outer stop := by
  have hposition : stop.position = middle.position + (Token.spellAll tokens').length :=
    h'.position_eq
  have hgroups : stop.groups = middle.groups + tokens'.count (.opening true) := h'.groups_eq
  have hatoms' : (subtrees nodes').filterMap Node.atom? =
      Token.atoms middle.position middle.groups tokens' := h'.atoms_eq
  have hlength : (subtrees outer).length =
      (subtrees nodes).length + (parents.length + (subtrees nodes').length) := by
    rw [houter, List.length_append, List.length_append]
    omega
  refine ⟨?_, ?_, ?_, ?_, ?_, ?_⟩
  · rw [hposition, h.position_eq, Token.spellAll_append, List.length_append, Nat.add_assoc]
  · rw [hgroups, h.groups_eq, List.count_append, Nat.add_assoc]
  · have hnext : stop.nextId = middle.nextId + parents.length + (subtrees nodes').length :=
      h'.nextId_eq
    have hmiddle := h.nextId_eq
    omega
  · have hlater := h'.ids_perm
    rw [show (middle.skip 0 parents.length).nextId = middle.nextId + parents.length from rfl]
      at hlater
    have hperm := h.ids_perm.append ((List.Perm.of_eq hids).append hlater)
    rw [List.range'_append_1, h.nextId_eq, List.range'_append_1] at hperm
    rw [hlength, houter, List.map_append, List.map_append]
    exact List.perm_append_comm_assoc _ _ _ |>.trans hperm
  · rw [houter, List.filterMap_append, hatoms, List.nil_append, List.filterMap_append,
      h.atoms_eq, hatoms', Token.atoms_append, h.position_eq, h.groups_eq]
  · have hparents : ∀ parent ∈ parents, ¬ parent.kind.isAtom := fun parent hparent hatom =>
      nomatch (if_pos hatom).symm.trans (List.filterMap_eq_nil_iff.1 hatoms parent hparent)
    rw [houter]
    refine List.pairwise_append.2 ⟨?_, h.ascending_append _ h', ?_⟩
    · exact List.pairwise_of_forall_mem_list fun parent hparent _ _ hatom =>
        absurd hatom (hparents parent hparent)
    · intro parent hparent _ _ hatom
      exact absurd hatom (hparents parent hparent)

/-- A node that no token brings takes its identifier before the nodes below it. -/
theorem parent {label : Label} {kind : Kind} {cursor : Cursor} (hid : label.id = cursor.nextId)
    (hatom : Node.atom? ⟨label, kind, nodes⟩ = none)
    (h : LaidOut (cursor.skip 0 1) tokens nodes stop) :
    LaidOut cursor tokens [⟨label, kind, nodes⟩] stop := by
  refine around [⟨label, kind, nodes⟩] (.nil cursor) h ?_ ?_ ?_
  · show [label.id] = [cursor.nextId]
    rw [hid]
  · simp [hatom]
  · simp [subtrees, subtree]

/-- A node that a token brings takes its identifier and, if it captures, its number before the
nodes below it. -/
theorem atom (token : Token) {kind : Kind} {cursor : Cursor}
    (hkind : token.kind? cursor.groups = some kind)
    (h : LaidOut (cursor.after token) tokens nodes stop) :
    LaidOut cursor (token :: tokens) [⟨cursor.label, kind, nodes⟩] stop := by
  have hposition : stop.position =
      cursor.position + token.spell.length + (Token.spellAll tokens).length := h.position_eq
  have hgroups : stop.groups = cursor.groups + [token].count (.opening true) +
      tokens.count (.opening true) := h.groups_eq
  have hnextId : stop.nextId = cursor.nextId + 1 + (subtrees nodes).length := h.nextId_eq
  have hsubtrees : subtrees [⟨cursor.label, kind, nodes⟩] =
      ⟨cursor.label, kind, nodes⟩ :: subtrees nodes := by
    simp [subtrees, subtree]
  have hatom : Node.atom? ⟨cursor.label, kind, nodes⟩ = some (cursor.position, kind) :=
    if_pos (Token.isAtom_of_kind? hkind)
  refine ⟨?_, ?_, ?_, ?_, ?_, ?_⟩
  · rw [hposition, Token.spellAll_cons, List.length_append, Nat.add_assoc]
  · rw [hgroups, Token.count_opening_cons token tokens, Nat.add_assoc]
  · rw [hnextId, hsubtrees, List.length_cons]
    omega
  · rw [hsubtrees]
    exact h.ids_perm.cons cursor.nextId
  · rw [hsubtrees, List.filterMap_cons_some hatom, h.atoms_eq, Token.atoms, hkind]
    rfl
  · rw [hsubtrees]
    refine List.pairwise_cons.2 ⟨?_, h.ascending⟩
    intro later hlater _ _
    exact (h.id_bounds hlater).1

/-- A node without children comes from one token. -/
theorem leaf (token : Token) {kind : Kind} (cursor : Cursor)
    (hkind : token.kind? cursor.groups = some kind) :
    LaidOut cursor [token] [⟨cursor.label, kind, []⟩] (cursor.after token) :=
  atom token hkind (.nil _)

/-- A repetition takes its identifier after the nodes below it. -/
theorem starIf {node : Node} (starred : Bool) (h : LaidOut start tokens [node] stop) :
    LaidOut start (tokens ++ Token.starIf starred) [(Node.starIf starred node stop).1]
      (Node.starIf starred node stop).2 := by
  cases starred with
  | false =>
      show LaidOut start (tokens ++ []) [node] stop
      rwa [List.append_nil]
  | true =>
      have hstar := LaidOut.token .star (stop.skip 0 1) rfl
      refine h.around [⟨⟨stop.nextId, node.position⟩, .repetition, [node]⟩] hstar rfl rfl ?_
      simp [Node.starIf, subtrees, subtree]

/-- The first bar brings an alternation and its first branch, after the nodes of that branch. -/
theorem alternate {branch : Node} {branches : List Node} (h : LaidOut start tokens nodes middle)
    (h' : LaidOut (middle.skip 0 2) tokens' (branch :: branches) stop) :
    LaidOut start (tokens ++ tokens') (Node.alternate nodes middle (branch :: branches)) stop := by
  let beginning := Node.beginning nodes middle
  let first : Node := ⟨⟨middle.nextId + 1, beginning⟩, .branch, nodes⟩
  let choice : Node := ⟨⟨middle.nextId, beginning⟩, .alternation, first :: branch :: branches⟩
  refine h.around [choice, first] h' rfl rfl ?_
  show subtrees [choice] = _
  simp [choice, first, subtrees, subtree]

end Node.LaidOut

open Node

/-- The children of a node around an abstract pattern are laid out when its sequences are. -/
theorem Regex.laidOut_of_parts {first : List Item} {others : List (List Item)} {cursor : Cursor}
    (hfirst : LaidOut cursor (Item.sequenceTokens first) (Item.buildSequence first cursor).1
      (Item.buildSequence first cursor).2)
    (hothers : ∀ cursor, LaidOut cursor (Item.barredTokens others)
      (Item.buildBranches others cursor).1 (Item.buildBranches others cursor).2) :
    LaidOut cursor (Regex.mk first others).tokens ((Regex.mk first others).buildBody cursor).1
      ((Regex.mk first others).buildBody cursor).2 := by
  cases others with
  | nil => simpa [Regex.tokens, Item.barredTokens, Regex.buildBody_single] using hfirst
  | cons items others => exact hfirst.alternate (hothers _)

mutual

/-- The node of an item is laid out along the tokens of the item. -/
theorem Item.laidOut_build : ∀ (item : Item) (cursor : Cursor),
    LaidOut cursor item.tokens [(item.build cursor).1] (item.build cursor).2
  | .letter c starred, cursor => (LaidOut.leaf (.letter c) cursor rfl).starIf starred
  | .group captures first others starred, cursor => by
      have hbody := Regex.laidOut_of_parts
        (Item.laidOut_buildSequence first (cursor.enter captures))
        (Item.laidOut_buildBranches others)
      rw [Item.tokens_group, Item.build_group, List.append_cons, ← List.cons_append]
      refine LaidOut.starIf starred ?_
      have hclosing := hbody.append (LaidOut.token .closing _ rfl)
      rw [List.append_nil] at hclosing
      cases captures with
      | true => exact LaidOut.atom (.opening true) rfl hclosing
      | false => exact LaidOut.atom (.opening false) rfl hclosing
  | .expressionRef number starred, cursor =>
      (LaidOut.leaf (.expressionRef number) cursor rfl).starIf starred
  | .stringRef number, cursor => LaidOut.leaf (.stringRef number) cursor rfl

/-- The nodes of a sequence are laid out along the tokens of the sequence. -/
theorem Item.laidOut_buildSequence : ∀ (items : List Item) (cursor : Cursor),
    LaidOut cursor (Item.sequenceTokens items) (Item.buildSequence items cursor).1
      (Item.buildSequence items cursor).2
  | [], cursor => .nil cursor
  | item :: items, cursor =>
      (Item.laidOut_build item cursor).append (Item.laidOut_buildSequence items _)

/-- The branches of some sequences are laid out along the tokens of the sequences. -/
theorem Item.laidOut_buildBranches : ∀ (others : List (List Item)) (cursor : Cursor),
    LaidOut cursor (Item.barredTokens others) (Item.buildBranches others cursor).1
      (Item.buildBranches others cursor).2
  | [], cursor => .nil cursor
  | items :: others, cursor => by
      have hbar := LaidOut.token .bar cursor rfl
      have hbranch : LaidOut (cursor.skip 1 0) (Item.sequenceTokens items)
          [⟨⟨cursor.nextId, cursor.position + 1⟩, .branch,
            (Item.buildSequence items (cursor.skip 1 1)).1⟩] _ :=
        LaidOut.parent rfl rfl (Item.laidOut_buildSequence items (cursor.skip 1 1))
      exact (hbar.append hbranch).append (Item.laidOut_buildBranches others _)

end

namespace Regex

/-- The children of a node around an abstract pattern are laid out along its tokens. -/
theorem laidOut_buildBody (regex : Regex) (cursor : Cursor) :
    LaidOut cursor regex.tokens (regex.buildBody cursor).1 (regex.buildBody cursor).2 :=
  laidOut_of_parts (Item.laidOut_buildSequence regex.first cursor)
    (Item.laidOut_buildBranches regex.others)

/-- The identifiers of a tree are the numbers below its size. -/
theorem hasDenseIds_build (regex : Regex) : regex.build.HasDenseIds := by
  have hperm := (regex.laidOut_buildBody .start).ids_perm
  rw [Pattern.HasDenseIds, Pattern.size_eq, Node.subtree_eq, List.map_cons, List.length_cons,
    List.range_eq_range', List.range'_succ]
  exact hperm.cons 0

/-- The letters, groups and references of a tree are in the order of its tokens. -/
theorem atoms_build (regex : Regex) :
    regex.build.root.subtree.filterMap Node.atom? = Token.atoms 0 0 regex.tokens := by
  rw [Node.subtree_eq]
  exact (regex.laidOut_buildBody .start).atoms_eq

/-- The identifiers of the letters, groups and references of a tree are in the order of its
tokens. -/
theorem ascending_build (regex : Regex) :
    regex.build.root.subtree.Pairwise fun node later =>
      node.kind.isAtom → later.kind.isAtom → node.id < later.id := by
  rw [Node.subtree_eq]
  refine List.pairwise_cons.2 ⟨?_, (regex.laidOut_buildBody .start).ascending⟩
  intro _ _ hatom
  cases hatom

/-- The capturing groups of a tree start where the text opens them, and their numbers count
them. -/
theorem captures_build (regex : Regex) :
    regex.build.root.subtree.filterMap Node.capture? =
      (captureIndices 0 regex.text).zipIdx 1 := by
  rw [text, Token.captureIndices_spellAll, ← Token.captures_atoms, ← regex.atoms_build,
    List.filterMap_filterMap]
  congr 1
  funext node
  exact node.capture?_eq

end Regex

end Backref
