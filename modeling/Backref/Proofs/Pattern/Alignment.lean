import Backref.Proofs.Pattern.Links
import Backref.Proofs.Pattern.Scan
import Backref.Proofs.Pattern.Span

/-!
# Nodes and tokens

`Pattern.IsAligned` says how the nodes of a pattern lie along its text: the letters, groups and
references are the tokens that the text brings, one for one and in the same order, and the other
nodes start where what is inside of them starts. `Pattern.isAligned_of_parse` says this of every
parsed pattern.
-/

namespace Backref

/-- Of two different members of a list one comes before the other. -/
theorem pair_sublist_or {α : Type} {list : List α} {first second : α} (hfirst : first ∈ list)
    (hsecond : second ∈ list) (hne : first ≠ second) :
    [first, second].Sublist list ∨ [second, first].Sublist list := by
  obtain ⟨front, back, rfl⟩ := List.append_of_mem hfirst
  rcases List.mem_append.1 hsecond with hmem | hmem
  · exact .inr ((List.singleton_sublist.2 hmem).append
      (List.singleton_sublist.2 List.mem_cons_self))
  · have hback := List.mem_of_ne_of_mem hne.symm hmem
    exact .inl (((List.singleton_sublist.2 hback).cons_cons first).trans
      (List.sublist_append_right _ _))

/-- Where the members of a list that have a property come in the order of their values, one comes
before another exactly when its value is smaller. -/
theorem sublist_iff_of_pairwise {α : Type} {list : List α} {property : α → Bool} {value : α → Nat}
    (h : list.Pairwise fun member later =>
      property member → property later → value member < value later)
    {first second : α} (hfirst : first ∈ list) (hsecond : second ∈ list)
    (hproperty : property first) (hproperty' : property second) :
    [first, second].Sublist list ↔ value first < value second := by
  rw [List.pairwise_iff_forall_sublist] at h
  constructor
  · intro hsublist
    exact h hsublist hproperty hproperty'
  · intro hlt
    refine (pair_sublist_or hfirst hsecond ?_).resolve_right fun hsublist => ?_
    · rintro rfl
      exact Nat.lt_irrefl _ hlt
    · exact Nat.lt_asymm hlt (h hsublist hproperty' hproperty)

/-- Such a member is the only one with its value. -/
theorem filter_eq_singleton_of_pairwise {α : Type} {list : List α} {property : α → Bool}
    {value : α → Nat}
    (h : list.Pairwise fun member later =>
      property member → property later → value member < value later)
    {member : α} (hmember : member ∈ list) (hproperty : property member) :
    (list.filter fun other => property other && value other == value member) = [member] := by
  have hpairs := h.filter fun other => property other && value other == value member
  have hmem : member ∈ list.filter fun other => property other && value other == value member :=
    List.mem_filter.2 ⟨hmember, by simp [hproperty]⟩
  have hall : ∀ other ∈ list.filter fun other => property other && value other == value member,
      property other ∧ value other = value member := fun other hother => by
    simpa using (List.mem_filter.1 hother).2
  generalize (list.filter fun other => property other && value other == value member) = found
    at hpairs hmem hall
  match found with
  | [] => cases hmem
  | [only] => rw [List.mem_singleton.1 hmem]
  | first :: second :: others =>
      obtain ⟨hfirst, hfirstValue⟩ := hall first (by simp)
      obtain ⟨hsecond, hsecondValue⟩ := hall second (by simp)
      have hlt := (List.pairwise_cons.1 hpairs).1 second (by simp) hfirst hsecond
      omega

/-- A node reads in a text from one index to another as it prints. -/
def Node.PrintsAt (text : List Char) (node : Node) (start stop : Nat) : Prop :=
  stop ≤ text.length ∧ text.drop start = node.print (text.drop stop)

/-- A node comes from a token exactly when its kind does. -/
theorem Node.atom?_eq_some_iff {node : Node} {position : Nat} {kind : Kind} :
    node.atom? = some (position, kind) ↔
      node.kind.isAtom ∧ node.position = position ∧ node.kind = kind := by
  simp [atom?]

namespace Pattern

/-- The nodes of the pattern lie along the text. -/
structure IsAligned (pattern : Pattern) (text : List Char) : Prop where
  /-- The text consists of its tokens. -/
  spellAll_scan : Token.spellAll (Token.scan text) = text
  /-- A letter, group or reference starts where a token starts that brings a node of its kind. -/
  exists_token (site : Site) (hsite : site ∈ pattern.sites) (hatom : site.kind.isAtom) :
    ∃ before token after, Token.scan text = before ++ token :: after ∧
      site.position = (Token.spellAll before).length ∧
      token.kind? (before.count (.opening true)) = some site.kind
  /-- Where a token starts that brings a node, one letter, group or reference starts, of the kind
  that the token brings. -/
  exists_site (before after : List Token) (token : Token) (kind : Kind)
    (htokens : Token.scan text = before ++ token :: after)
    (hkind : token.kind? (before.count (.opening true)) = some kind) :
    ∃ site, site.kind = kind ∧ (pattern.sites.filter fun site =>
      site.kind.isAtom && site.position == (Token.spellAll before).length) = [site]
  /-- Letters, groups and references are created from left to right. -/
  id_lt_iff (site other : Site) (hsite : site ∈ pattern.sites) (hother : other ∈ pattern.sites)
    (hatom : site.kind.isAtom) (hatom' : other.kind.isAtom) :
    site.id < other.id ↔ site.position < other.position
  /-- Letters, groups and references come from left to right in the tree. -/
  sublist_iff (site other : Site) (hsite : site ∈ pattern.sites) (hother : other ∈ pattern.sites)
    (hatom : site.kind.isAtom) (hatom' : other.kind.isAtom) :
    [site, other].Sublist pattern.sites ↔ site.position < other.position
  /-- Each node reads as it prints from its position on. -/
  printsAt (site : Site) (hsite : site ∈ pattern.sites) :
    ∃ stop, site.node.PrintsAt text site.position stop
  /-- A repetition starts with its child. -/
  repetition (site : Site) (hsite : site ∈ pattern.sites) (hkind : site.kind = .repetition) :
    ∃ child, site.node.children = [child] ∧ child.position = site.position
  /-- An alternation starts with its first branch, after what its parent writes first. -/
  alternation (site : Site) (hsite : site ∈ pattern.sites) (hkind : site.kind = .alternation) :
    ∃ owner up first others, site.ancestors = owner :: up ∧ site.node.children = first :: others ∧
      site.position = owner.position + owner.kind.opening.length ∧
      first.position = site.position
  /-- A branch ends at the bar before the next one. -/
  later_branch (site : Site) (hsite : site ∈ pattern.sites) (hkind : site.kind = .alternation)
    (front back : List Node) (branch next : Node)
    (hchildren : site.node.children = front ++ branch :: next :: back) :
    ∃ bar, branch.PrintsAt text branch.position bar ∧ text[bar]? = some '|' ∧
      next.position = bar + 1

variable {text : String} {pattern : Pattern} {site other : Site}

section Parsed

variable (h : Pattern.parse text = .ok pattern)
include h

/-- The letters, groups and references of a parsed pattern are those of its tokens. -/
theorem atoms_of_parse :
    Token.spellAll (Token.scan text.toList) = text.toList ∧
      (pattern.sites.filterMap fun site => site.node.atom?) =
        Token.atoms 0 0 (Token.scan text.toList) := by
  obtain ⟨regex, _, htext, htokens, rfl⟩ := exists_valid_of_parse h
  have hatoms := regex.atoms_build
  rw [← map_node_sites, List.filterMap_map, htokens] at hatoms
  rw [← htokens]
  exact ⟨htext, htokens ▸ hatoms⟩

/-- A letter, group or reference is the node of a token. -/
theorem mem_atoms_of_parse (hsite : site ∈ pattern.sites) (hatom : site.kind.isAtom) :
    (site.position, site.kind) ∈ Token.atoms 0 0 (Token.scan text.toList) := by
  rw [← (atoms_of_parse h).2]
  exact List.mem_filterMap.2 ⟨site, hsite, if_pos hatom⟩

/-- Letters, groups and references come from left to right in the tree. -/
theorem pairwise_position_of_parse :
    pattern.sites.Pairwise fun site later =>
      site.kind.isAtom → later.kind.isAtom → site.position < later.position := by
  have hpairs := Token.pairwise_atoms 0 0 (Token.scan text.toList)
  rw [← (atoms_of_parse h).2, List.pairwise_filterMap] at hpairs
  exact hpairs.imp fun hpair hatom hatom' => hpair _ (if_pos hatom) _ (if_pos hatom')

/-- Letters, groups and references are created in the order of the tree. -/
theorem pairwise_id_of_parse :
    pattern.sites.Pairwise fun site later =>
      site.kind.isAtom → later.kind.isAtom → site.id < later.id := by
  obtain ⟨regex, _, _, rfl⟩ := parse_eq_ok_iff.1 h
  have hpairs := regex.ascending_build
  rw [← map_node_sites, List.pairwise_map] at hpairs
  exact hpairs

/-- A letter, group or reference starts where a token starts that brings a node of its kind. -/
theorem exists_token_of_parse (hsite : site ∈ pattern.sites) (hatom : site.kind.isAtom) :
    ∃ before token after, Token.scan text.toList = before ++ token :: after ∧
      site.position = (Token.spellAll before).length ∧
      token.kind? (before.count (.opening true)) = some site.kind := by
  simpa using Token.mem_atoms_iff.1 (mem_atoms_of_parse h hsite hatom)

/-- Where a token starts that brings a node, one letter, group or reference starts. -/
theorem exists_site_of_parse {before after : List Token} {token : Token} {kind : Kind}
    (htokens : Token.scan text.toList = before ++ token :: after)
    (hkind : token.kind? (before.count (.opening true)) = some kind) :
    ∃ site, site.kind = kind ∧ (pattern.sites.filter fun site =>
      site.kind.isAtom && site.position == (Token.spellAll before).length) = [site] := by
  have hmem : ((Token.spellAll before).length, kind) ∈
      Token.atoms 0 0 (Token.scan text.toList) := by
    refine Token.mem_atoms_iff.2 ⟨before, token, after, htokens, (Nat.zero_add _).symm, ?_⟩
    rwa [Nat.zero_add]
  rw [← (atoms_of_parse h).2] at hmem
  obtain ⟨site, hsite, hfound⟩ := List.mem_filterMap.1 hmem
  obtain ⟨hatom, hposition, hsame⟩ := Node.atom?_eq_some_iff.1 hfound
  refine ⟨site, hsame, ?_⟩
  rw [← hposition]
  exact filter_eq_singleton_of_pairwise (pairwise_position_of_parse h) hsite hatom

/-- A repetition starts with its child. -/
theorem position_repetition_of_parse (hsite : site ∈ pattern.sites)
    (hkind : site.kind = .repetition) :
    ∃ child, site.node.children = [child] ∧ child.position = site.position := by
  have hformed := isFormed_of_mem_sites h hsite
  rw [Node.IsFormed, show site.node.kind = .repetition from hkind] at hformed
  obtain ⟨child, hchildren, _⟩ := hformed
  obtain ⟨stop, hspan, _⟩ := exists_span_of_parse h (mem_subtree_root.2 ⟨site, hsite, rfl⟩)
  refine ⟨child, hchildren, ?_⟩
  rw [hspan.spans.position_child hchildren, show site.node.kind = .repetition from hkind]
  rfl

/-- An alternation starts with its first branch, after what its parent writes first. -/
theorem position_alternation_of_parse (hsite : site ∈ pattern.sites)
    (hkind : site.kind = .alternation) :
    ∃ owner up first others, site.ancestors = owner :: up ∧ site.node.children = first :: others ∧
      site.position = owner.position + owner.kind.opening.length ∧
      first.position = site.position := by
  have hformed := isFormed_of_mem_sites h hsite
  rw [Node.IsFormed, show site.node.kind = .alternation from hkind] at hformed
  obtain ⟨first, others, hchildren⟩ : ∃ first others, site.node.children = first :: others :=
    List.exists_cons_of_length_pos (by omega)
  obtain ⟨stop, hspan, _⟩ := exists_span_of_parse h (mem_subtree_root.2 ⟨site, hsite, rfl⟩)
  have hfirst := hspan.spans.position_child hchildren
  rw [show site.node.kind = .alternation from hkind] at hfirst
  obtain ⟨owner, howner, hancestors, honly, _⟩ := exists_owner_of_alternation h hsite hkind
  obtain ⟨_, hownerSpan, _⟩ := exists_span_of_parse h (mem_subtree_root.2 ⟨owner, howner, rfl⟩)
  have hposition := hownerSpan.spans.position_child honly
  exact ⟨owner.node, owner.ancestors, first, others, hancestors, hchildren, hposition, hfirst⟩

/-- A node reads from its position on as it prints. -/
theorem printsAt_of_parse {node : Node} (hnode : node ∈ pattern.root.subtree) {start stop : Nat}
    (hspan : node.Spans text.toList start stop) (hstop : stop ≤ text.toList.length) :
    node.PrintsAt text.toList node.position stop := by
  refine ⟨hstop, ?_⟩
  rw [hspan.position_eq]
  exact hspan.print_eq fun inner hinner => isFormed_of_parse h (Node.subtree_subset hnode hinner)

/-- A branch ends at the bar before the next one. -/
theorem position_branch_of_parse (hsite : site ∈ pattern.sites) (hkind : site.kind = .alternation)
    {front back : List Node} {branch next : Node}
    (hchildren : site.node.children = front ++ branch :: next :: back) :
    ∃ bar, branch.PrintsAt text.toList branch.position bar ∧ text.toList[bar]? = some '|' ∧
      next.position = bar + 1 := by
  have hnode := mem_subtree_root.2 ⟨site, hsite, rfl⟩
  obtain ⟨stop, hspan, _⟩ := exists_span_of_parse h hnode
  obtain ⟨start, bar, hbranch, hword⟩ := hspan.spans.exists_separator hchildren
  rw [show site.node.kind = .alternation from hkind] at hword
  have hbar : text.toList[bar]? = some '|' := by
    have hhead := congrArg List.head? hword.drop_eq
    rwa [List.head?_drop] at hhead
  have hbranchNode : branch ∈ pattern.root.subtree :=
    Node.children_subset hnode branch (by rw [hchildren]; simp)
  have hlt := (List.getElem?_eq_some_iff.1 hbar).1
  exact ⟨bar, printsAt_of_parse h hbranchNode hbranch (by omega), hbar, hword.stop_eq⟩

/-- The nodes of a parsed pattern lie along its text: its letters, groups and references are the
tokens of the text that bring a node, one for one, and they are created, placed in the tree and
placed in the text in the same order. Each node starts where its own text starts: a repetition with
its child, an alternation with its first branch, and a later branch after the bar that ends the
branch before it. -/
theorem isAligned_of_parse : pattern.IsAligned text.toList where
  spellAll_scan := (atoms_of_parse h).1
  exists_token site hsite hatom := exists_token_of_parse h hsite hatom
  exists_site before after token kind htokens hkind := exists_site_of_parse h htokens hkind
  id_lt_iff site other hsite hother hatom hatom' :=
    (sublist_iff_of_pairwise (pairwise_id_of_parse h) hsite hother hatom hatom').symm.trans
      (sublist_iff_of_pairwise (pairwise_position_of_parse h) hsite hother hatom hatom')
  sublist_iff site other hsite hother hatom hatom' :=
    sublist_iff_of_pairwise (pairwise_position_of_parse h) hsite hother hatom hatom'
  printsAt site hsite := by
    have hnode := mem_subtree_root.2 ⟨site, hsite, rfl⟩
    obtain ⟨stop, hspan, hstop⟩ := exists_span_of_parse h hnode
    exact ⟨stop, printsAt_of_parse h hnode hspan.spans hstop⟩
  repetition site hsite hkind := position_repetition_of_parse h hsite hkind
  alternation site hsite hkind := position_alternation_of_parse h hsite hkind
  later_branch site hsite hkind front back branch next hchildren :=
    position_branch_of_parse h hsite hkind hchildren

end Parsed

/-- In `a(?:|b(c)*)(?1)\1|d` there is an empty branch before the branch with the repeated group, and
the outer alternation is created after all that stands in its first branch. -/
theorem isAligned_of_parse_nested :
    ∃ pattern, Pattern.parse "a(?:|b(c)*)(?1)\\1|d" = .ok pattern ∧
      pattern.IsAligned "a(?:|b(c)*)(?1)\\1|d".toList := by
  obtain ⟨pattern, hparse⟩ : ∃ pattern, Pattern.parse "a(?:|b(c)*)(?1)\\1|d" = .ok pattern :=
    ⟨_, rfl⟩
  exact ⟨pattern, hparse, isAligned_of_parse hparse⟩

end Pattern

end Backref
