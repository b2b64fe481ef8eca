import Backref.Proofs.Pattern.Ancestry

/-!
# Which node writes a character

Every character of a parsed text is written by one of the nodes, before, between or after its
children (`Node.Spans.exists_writes`). So the parentheses, bars and stars of the text can be traced
to groups, alternations and repetitions: `Pattern.encloses_iff_of_parse` says what parentheses
around an index are in the tree, `Pattern.exists_alternation_of_bar` where a bar comes from, and
`Pattern.exists_repetition_of_star` where a star comes from.
-/

namespace Backref

/-- A word that stands in a text has the characters of the text there. -/
theorem SpansWord.getElem?_eq {text word : List Char} {start stop index : Nat}
    (h : SpansWord text word start stop) (hstart : start ≤ index) (hstop : index < stop) :
    text[index]? = word[index - start]? := by
  have hlt : index - start < word.length := by
    have hlength := h.stop_eq
    omega
  calc text[index]? = (text.drop start)[index - start]? := by
        rw [List.getElem?_drop, Nat.add_sub_cancel' hstart]
    _ = word[index - start]? := by rw [h.drop_eq, List.getElem?_append_left hlt]

/-- A word of one character stands where the text has that character. -/
theorem SpansWord.eq_of_singleton {text : List Char} {start stop index : Nat} {c d : Char}
    (h : SpansWord text [d] start stop) (hstart : start ≤ index) (hstop : index < stop)
    (hc : text[index]? = some c) : c = d ∧ stop = index + 1 := by
  rw [h.getElem?_eq hstart hstop, List.getElem?_singleton] at hc
  have hlength := h.stop_eq
  rw [List.length_singleton] at hlength
  split at hc
  · exact ⟨(Option.some.inj hc).symm, by omega⟩
  · cases hc

/-- The node writes the character at the index itself: before, between or after its children. -/
inductive Node.Writes (text : List Char) (index : Nat) : Node → Prop where
  | opening {node : Node} {inside : Nat} :
      SpansWord text node.kind.opening node.position inside →
        node.position ≤ index → index < inside → Writes text index node
  | separator {node next : Node} {middle : Nat} :
      next ∈ node.children → SpansWord text node.kind.separator middle next.position →
        middle ≤ index → index < next.position → Writes text index node
  | closing {node : Node} {last stop : Nat} :
      node.Spans text node.position stop → SpansWord text node.kind.closing last stop →
        last ≤ index → index < stop → Writes text index node

namespace Node

variable {text : List Char} {node : Node} {start stop index : Nat}

mutual

/-- Every character of the span of a node is written by the node or by one below it. -/
theorem Spans.exists_writes : ∀ {node : Node} {start stop : Nat}, node.Spans text start stop →
    start ≤ index → index < stop → ∃ inner ∈ node.subtree, inner.Writes text index
  | ⟨label, kind, []⟩, start, stop, h, hstart, hstop => by
      have hwhole := h
      obtain ⟨rfl, inside, hopening, hclosing⟩ := h
      refine ⟨_, mem_subtree_self _, ?_⟩
      rcases Nat.lt_or_ge index inside with hlt | hge
      · exact .opening hopening hstart hlt
      · exact .closing hwhole hclosing hge hstop
  | ⟨label, kind, first :: others⟩, start, stop, h, hstart, hstop => by
      have hwhole := h
      obtain ⟨rfl, inside, middle, last, hopening, hfirst, hothers, hclosing⟩ := h
      rcases Nat.lt_or_ge index inside with hlt | hge
      · exact ⟨_, mem_subtree_self _, .opening hopening hstart hlt⟩
      rcases Nat.lt_or_ge index middle with hlt | hge
      · obtain ⟨inner, hinner, hwrites⟩ := hfirst.exists_writes hge hlt
        exact ⟨inner, mem_subtree_of_child List.mem_cons_self hinner, hwrites⟩
      rcases Nat.lt_or_ge index last with hlt | hge
      · rcases hothers.exists_writes hge hlt with ⟨inner, hinner, hwrites⟩ |
          ⟨next, hnext, bar, hword, hbar, hlt⟩
        · obtain ⟨child, hchild, hinner⟩ := mem_subtrees.1 hinner
          exact ⟨inner, mem_subtree_of_child (List.mem_cons_of_mem first hchild) hinner, hwrites⟩
        · exact ⟨_, mem_subtree_self _,
            .separator (List.mem_cons_of_mem first hnext) hword hbar hlt⟩
      · exact ⟨_, mem_subtree_self _, .closing hwhole hclosing hge hstop⟩

/-- Every character of nodes in a row is written by one of them, or it separates two of them. -/
theorem SpansAfter.exists_writes : ∀ {separator : List Char} {nodes : List Node}
    {start stop : Nat}, SpansAfter text separator nodes start stop → start ≤ index → index < stop →
      (∃ inner ∈ subtrees nodes, inner.Writes text index) ∨
        ∃ next ∈ nodes, ∃ bar, SpansWord text separator bar next.position ∧
          bar ≤ index ∧ index < next.position
  | _, [], start, stop, h, hstart, hstop => by
      obtain rfl : stop = start := h
      exact absurd hstart (Nat.not_le_of_lt hstop)
  | separator, node :: nodes, start, stop, h, hstart, hstop => by
      obtain ⟨inside, middle, hseparator, hnode, hnodes⟩ := h
      rcases Nat.lt_or_ge index inside with hlt | hge
      · have hposition := hnode.position_eq
        exact .inr ⟨node, List.mem_cons_self, start, hposition ▸ hseparator, hstart, by omega⟩
      rcases Nat.lt_or_ge index middle with hlt | hge
      · obtain ⟨inner, hinner, hwrites⟩ := hnode.exists_writes hge hlt
        exact .inl ⟨inner, List.mem_append_left _ hinner, hwrites⟩
      · rcases hnodes.exists_writes hge hstop with ⟨inner, hinner, hwrites⟩ | ⟨next, hnext, hword⟩
        · exact .inl ⟨inner, List.mem_append_right _ hinner, hwrites⟩
        · exact .inr ⟨next, List.mem_cons_of_mem node hnext, hword⟩

end

mutual

/-- A node has only one span. -/
theorem Spans.stop_unique : ∀ {node : Node} {start stop stop' : Nat}, node.Spans text start stop →
    node.Spans text start stop' → stop = stop'
  | ⟨label, kind, []⟩, start, stop, stop', h, h' => by
      obtain ⟨_, inside, hopening, hclosing⟩ := h
      obtain ⟨_, inside', hopening', hclosing'⟩ := h'
      obtain rfl : inside = inside' := hopening.stop_eq.trans hopening'.stop_eq.symm
      exact hclosing.stop_eq.trans hclosing'.stop_eq.symm
  | ⟨label, kind, first :: others⟩, start, stop, stop', h, h' => by
      obtain ⟨_, inside, middle, last, hopening, hfirst, hothers, hclosing⟩ := h
      obtain ⟨_, inside', middle', last', hopening', hfirst', hothers', hclosing'⟩ := h'
      obtain rfl : inside = inside' := hopening.stop_eq.trans hopening'.stop_eq.symm
      obtain rfl := hfirst.stop_unique hfirst'
      obtain rfl := hothers.stop_unique hothers'
      exact hclosing.stop_eq.trans hclosing'.stop_eq.symm

/-- Nodes in a row have only one span. -/
theorem SpansAfter.stop_unique : ∀ {separator : List Char} {nodes : List Node}
    {start stop stop' : Nat}, SpansAfter text separator nodes start stop →
      SpansAfter text separator nodes start stop' → stop = stop'
  | _, [], _, _, _, h, h' => by
      rw [show _ = _ from h, show _ = _ from h']
  | _, node :: nodes, start, stop, stop', h, h' => by
      obtain ⟨inside, middle, hseparator, hnode, hnodes⟩ := h
      obtain ⟨inside', middle', hseparator', hnode', hnodes'⟩ := h'
      obtain rfl : inside = inside' := hseparator.stop_eq.trans hseparator'.stop_eq.symm
      obtain rfl := hnode.stop_unique hnode'
      exact hnodes.stop_unique hnodes'

end

/-- The span of a node has room for what the node writes before and after its children. -/
theorem Spans.length_le (h : node.Spans text start stop) :
    start + node.kind.opening.length + node.kind.closing.length ≤ stop := by
  obtain ⟨label, kind, children⟩ := node
  show start + kind.opening.length + kind.closing.length ≤ stop
  cases children with
  | nil =>
      obtain ⟨_, inside, hopening, hclosing⟩ := h
      exact Nat.le_of_eq (by rw [hclosing.stop_eq, hopening.stop_eq])
  | cons first others =>
      obtain ⟨_, inside, middle, last, hopening, hfirst, hothers, hclosing⟩ := h
      have hmiddle := hfirst.position_bounds first first.mem_subtree_self
      have hlast := hothers.position_bounds.1
      have hstart := hopening.stop_eq
      have hstop := hclosing.stop_eq
      omega

/-- A repetition stands where its child and the star after it stand. -/
theorem Spans.of_repetition (h : node.Spans text start stop) (hkind : node.kind = .repetition)
    {child : Node} (hchildren : node.children = [child]) :
    ∃ last, child.Spans text start last ∧ SpansWord text ['*'] last stop := by
  obtain ⟨label, kind, children⟩ := node
  obtain rfl : kind = .repetition := hkind
  obtain rfl : children = [child] := hchildren
  obtain ⟨_, inside, middle, last, hopening, hchild, hlast, hclosing⟩ := h
  obtain rfl : inside = start := hopening.stop_eq
  obtain rfl : last = middle := hlast
  exact ⟨last, hchild, hclosing⟩

end Node

/-- What may have a star starts with a character. -/
theorem Kind.length_opening_pos {kind : Kind} (h : kind.isRepeatable) :
    0 < kind.opening.length := by
  cases kind with
  | group number => cases number <;> exact Nat.zero_lt_succ _
  | literal _ | expressionRef _ => exact Nat.zero_lt_succ _
  | sequence | alternation | branch | repetition | stringRef _ => cases h

/-- The characters that tell what a node is, wherever they stand in the text of a pattern. -/
def marks : List Char := ['(', '|', '*', '\\']

namespace Token

variable {groups offset : Nat} {token : Token} {kind : Kind} {c : Char}

/-- A node opens with the characters of its token. -/
theorem opening_of_kind? (h : token.kind? groups = some kind) : kind.opening = token.spell := by
  cases token with
  | opening captures => cases captures <;> cases h <;> rfl
  | closing | star | bar => cases h
  | _ => cases h; rfl

/-- No mark stands inside of a token. -/
theorem notMem_tail_spell (hmark : c ∈ marks) : c ∉ token.spell.tail := by
  have hdigit : ∀ group : GroupNumber, c ≠ group.digit := by
    rintro group rfl
    have hoperator : marks ⊆ Alphabet.operators := by decide
    exact group.digit_ne (hoperator hmark) rfl
  have hne : c ≠ '?' ∧ c ≠ ':' ∧ c ≠ ')' := by
    simp only [marks, List.mem_cons, List.not_mem_nil, or_false] at hmark
    rcases hmark with rfl | rfl | rfl | rfl <;> decide
  cases token with
  | opening captures => cases captures <;> simp [spell, hne]
  | letter _ | closing | star | bar => exact List.not_mem_nil
  | expressionRef group => simp [spell, hne, hdigit]
  | stringRef group => simp [spell, hdigit]

/-- A token that starts with a mark and brings a node brings a group or a reference. -/
theorem head_of_kind? (h : token.kind? groups = some kind) (hc : token.spell.head? = some c)
    (hmark : c ∈ marks) :
    (c = '(' ∧ ((∃ number, kind = .group number) ∨
      ∃ group : GroupNumber, kind = .expressionRef group.value)) ∨
    (c = '\\' ∧ ∃ group : GroupNumber, kind = .stringRef group.value) := by
  cases token with
  | letter l =>
      obtain rfl : l.char = c := Option.some.inj hc
      have hoperator : marks ⊆ Alphabet.operators := by decide
      exact absurd rfl (letter_char_ne l (hoperator hmark))
  | opening captures =>
      cases captures <;> exact .inl ⟨(Option.some.inj hc).symm, .inl ⟨_, (Option.some.inj h).symm⟩⟩
  | closing | star | bar => cases h
  | expressionRef group =>
      exact .inl ⟨(Option.some.inj hc).symm, .inr ⟨group, (Option.some.inj h).symm⟩⟩
  | stringRef group => exact .inr ⟨(Option.some.inj hc).symm, group, (Option.some.inj h).symm⟩

/-- Only parentheses bring a group. -/
theorem exists_opening_of_kind? {number : Option Nat}
    (h : token.kind? groups = some (.group number)) : ∃ captures, token = .opening captures := by
  cases token with
  | opening captures => exact ⟨captures, rfl⟩
  | _ => cases h

end Token

/-! ## Parentheses, bars and stars -/

/-- At the index of the text a group opens: a `(` stands there which is not that of an expression
reference. -/
def OpensGroup (text : List Char) (index : Nat) : Prop :=
  text[index]? = some '(' ∧ (text[index + 1]? = some '?' → text[index + 2]? = some ':')

/-- The index lies between the parentheses of the group that opens at the other index. -/
def Encloses (text : List Char) (opening index : Nat) : Prop :=
  OpensGroup text opening ∧
    ∃ closing, closing? text opening = some closing ∧ opening < index ∧ index < closing

/-- The index lies between the same parentheses as the start of the site. -/
structure Site.StandsAt (text : List Char) (index : Nat) (site : Site) : Prop where
  opening_iff (opening : Nat) (h : text[opening]? = some '(') :
    opening < index ↔ opening < site.position
  closing_iff (closing : Nat) (h : text[closing]? = some ')') :
    index < closing ↔ site.position ≤ closing

/-- A site stands where it starts, unless a parenthesis is closed there. -/
theorem Site.standsAt_position {text : List Char} {site : Site} {c : Char}
    (hc : text[site.position]? = some c) (hne : c ≠ ')') :
    site.StandsAt text site.position where
  opening_iff _ _ := Iff.rfl
  closing_iff closing hclosing := by
    refine ⟨Nat.le_of_lt, fun hle => Nat.lt_of_le_of_ne hle ?_⟩
    rintro rfl
    exact hne (Option.some.inj (hc.symm.trans hclosing))

/-- What starts after a bar stands at the bar. -/
theorem Site.standsAt_bar {text : List Char} {site : Site} {bar : Nat}
    (hbar : text[bar]? = some '|') (hposition : site.position = bar + 1) :
    site.StandsAt text bar where
  opening_iff opening hopening := by
    have hne : opening ≠ bar := by
      rintro rfl
      cases hbar.symm.trans hopening
    omega
  closing_iff closing _ := by omega

namespace Pattern

variable {text : String} {pattern : Pattern} {site other group : Site} {number : Option Nat}
variable {index opening : Nat} {c : Char}

section Parsed

variable (h : Pattern.parse text = .ok pattern)
include h

/-- A node has a mark only at its start. -/
theorem mark_cases_of_opening (hsite : site ∈ pattern.sites) {offset : Nat}
    (hc : site.kind.opening[offset]? = some c) (hmark : c ∈ marks) : offset = 0 ∧
      ((c = '(' ∧ ((∃ number, site.kind = .group number) ∨
        ∃ group : GroupNumber, site.kind = .expressionRef group.value)) ∨
      (c = '\\' ∧ ∃ group : GroupNumber, site.kind = .stringRef group.value)) := by
  have hatom : site.kind.isAtom := by
    cases hkind : site.kind with
    | literal _ | group _ | expressionRef _ | stringRef _ => rfl
    | sequence | alternation | branch | repetition => simp [hkind, Kind.opening] at hc
  obtain ⟨_, token, _, _, _, htoken⟩ := exists_token_of_parse h hsite hatom
  rw [Token.opening_of_kind? htoken] at hc
  cases offset with
  | zero => exact ⟨rfl, Token.head_of_kind? htoken (List.head?_eq_getElem? ▸ hc) hmark⟩
  | succ offset =>
      have hmem : c ∈ token.spell.tail := List.mem_of_getElem? (List.getElem?_tail.trans hc)
      exact absurd hmem (Token.notMem_tail_spell hmark)

/-- Where a mark of a parsed text comes from: a group or a reference starts with it, a bar separates
the branches of an alternation, or a star ends a repetition. -/
theorem exists_writer_of_parse (hc : text.toList[index]? = some c) (hmark : c ∈ marks) :
    ∃ site ∈ pattern.sites,
      (site.position = index ∧
        ((c = '(' ∧ ((∃ number, site.kind = .group number) ∨
          ∃ group : GroupNumber, site.kind = .expressionRef group.value)) ∨
        (c = '\\' ∧ ∃ group : GroupNumber, site.kind = .stringRef group.value))) ∨
      (c = '|' ∧ site.kind = .alternation ∧
        ∃ next ∈ site.node.children, next.position = index + 1) ∨
      (c = '*' ∧ site.kind = .repetition ∧
        site.node.Spans text.toList site.position (index + 1)) := by
  have hlt := (List.getElem?_eq_some_iff.1 hc).1
  obtain ⟨node, hnode, hwrites⟩ := (spans_of_parse h).exists_writes (Nat.zero_le index) hlt
  obtain ⟨site, hsite, rfl⟩ := mem_subtree_root.1 hnode
  refine ⟨site, hsite, ?_⟩
  cases hwrites with
  | opening hword hstart hstop =>
      rw [hword.getElem?_eq hstart hstop] at hc
      obtain ⟨hoffset, hstarts⟩ := mark_cases_of_opening h hsite hc hmark
      exact .inl ⟨Nat.le_antisymm hstart (Nat.sub_eq_zero_iff_le.1 hoffset), hstarts⟩
  | @separator next middle hnext hword hmiddle hstop =>
      cases hkind : site.node.kind with
      | alternation =>
          rw [hkind] at hword
          obtain ⟨rfl, hposition⟩ := SpansWord.eq_of_singleton hword hmiddle hstop hc
          exact .inr (.inl ⟨rfl, hkind, next, hnext, hposition⟩)
      | _ =>
          rw [hword.getElem?_eq hmiddle hstop, hkind] at hc
          cases hc
  | closing hspan hword hlast hstop =>
      cases hkind : site.node.kind with
      | repetition =>
          rw [hkind] at hword
          obtain ⟨rfl, rfl⟩ := SpansWord.eq_of_singleton hword hlast hstop hc
          exact .inr (.inr ⟨rfl, hkind, hspan⟩)
      | group number =>
          rw [hkind] at hword
          obtain ⟨rfl, _⟩ := SpansWord.eq_of_singleton hword hlast hstop hc
          exact absurd hmark (by decide)
      | _ =>
          rw [hword.getElem?_eq hlast hstop, hkind] at hc
          cases hc

/-- Where a group opens in a parsed text, there is a group of the pattern. -/
theorem exists_group_of_opensGroup (hopens : OpensGroup text.toList opening) :
    ∃ group ∈ pattern.sites, (∃ number, group.kind = .group number) ∧
      group.position = opening := by
  obtain ⟨site, hsite, hcases⟩ := exists_writer_of_parse h hopens.1 (by decide)
  rcases hcases with ⟨hposition, ⟨_, hgroup | ⟨number, hkind⟩⟩ | ⟨hc, _⟩⟩ | ⟨hc, _⟩ | ⟨hc, _⟩
  · exact ⟨site, hsite, hgroup, hposition⟩
  · -- The parenthesis of an expression reference opens no group.
    have hnode : site.node ∈ pattern.root.subtree := mem_subtree_root.2 ⟨site, hsite, rfl⟩
    obtain ⟨stop, hspan, _⟩ := exists_span_of_parse h hnode
    obtain ⟨inside, _, hword, _⟩ := hspan.spans.exists_inside (hasLetters_of_parse h hnode)
    rw [show site.node.kind = .expressionRef number.value from hkind,
      show site.node.position = opening from hposition] at hword
    have hstop : inside = opening + 4 := hword.stop_eq
    have hquery : text.toList[opening + 1]? = some '?' := by
      rw [hword.getElem?_eq (Nat.le_add_right _ _) (by omega), Nat.add_sub_cancel_left]
      rfl
    have hdigit : text.toList[opening + 2]? = some number.digit := by
      rw [hword.getElem?_eq (Nat.le_add_right _ _) (by omega), Nat.add_sub_cancel_left]
      rfl
    have hcolon := Option.some.inj (hdigit.symm.trans (hopens.2 hquery))
    exact absurd hcolon (number.digit_ne (by decide))
  all_goals cases hc

/-- Groups open where they start. -/
theorem opensGroup_of_group (hgroup : group ∈ pattern.sites) (hkind : group.kind = .group number) :
    OpensGroup text.toList group.position := by
  have hatom : group.kind.isAtom := by
    rw [hkind]
    rfl
  obtain ⟨before, token, after, htokens, hposition, htoken⟩ := exists_token_of_parse h hgroup hatom
  rw [hkind] at htoken
  obtain ⟨captures, rfl⟩ := Token.exists_opening_of_kind? htoken
  have htext := (atoms_of_parse h).1
  rw [htokens, Token.spellAll_append, Token.spellAll_cons] at htext
  have hget : ∀ offset, text.toList[group.position + offset]? =
      ((Token.opening captures).spell ++ Token.spellAll after)[offset]? := fun offset => by
    rw [← htext, hposition, List.getElem?_append_right (Nat.le_add_right _ _),
      Nat.add_sub_cancel_left]
  refine ⟨?_, fun hquery => ?_⟩
  · rw [← Nat.add_zero group.position, hget]
    cases captures <;> rfl
  · rw [hget] at hquery ⊢
    cases captures with
    | false => rfl
    | true =>
        refine absurd ?_ (Token.head?_spellAll_ne_query after)
        rw [List.head?_eq_getElem?]
        exact hquery

/-- Letters, groups and references that start at the same index are the same. -/
theorem eq_of_position_eq (hsite : site ∈ pattern.sites) (hother : other ∈ pattern.sites)
    (hatom : site.kind.isAtom) (hatom' : other.kind.isAtom)
    (hposition : site.position = other.position) : site = other := by
  have hpairs := pairwise_position_of_parse h
  rw [List.pairwise_iff_forall_sublist] at hpairs
  by_contra hne
  rcases pair_sublist_or hsite hother hne with hsublist | hsublist
  · exact Nat.ne_of_lt (hpairs hsublist hatom hatom') hposition
  · exact Nat.ne_of_lt (hpairs hsublist hatom' hatom) hposition.symm

/-- The parentheses around an index are those of the groups above what stands there. -/
theorem encloses_iff_of_parse (hsite : site ∈ pattern.sites)
    (hstands : site.StandsAt text.toList index) :
    Encloses text.toList opening index ↔ ∃ group ∈ pattern.sites,
      (∃ number, group.kind = .group number) ∧ group.position = opening ∧
        site.isBelow group.id := by
  have hbelow : ∀ group ∈ pattern.sites, ∀ number, group.kind = .group number →
      ∃ closing, closing? text.toList group.position = some closing ∧
        (site.isBelow group.id ↔ group.position < index ∧ index < closing) := by
    intro group hgroup number hkind
    obtain ⟨hopen, closing, hclosing, hclose, hspan⟩ := exists_closing_of_group h hgroup hkind
    refine ⟨closing, hclosing, (isBelow_iff_position h hgroup hkind hspan hsite).trans ?_⟩
    rw [hstands.opening_iff _ hopen, hstands.closing_iff _ hclose]
  constructor
  · rintro ⟨hopens, closing, hclosing, hbetween⟩
    obtain ⟨group, hgroup, ⟨number, hkind⟩, rfl⟩ := exists_group_of_opensGroup h hopens
    obtain ⟨_, hsame, hiff⟩ := hbelow group hgroup number hkind
    obtain rfl := Option.some.inj (hclosing.symm.trans hsame)
    exact ⟨group, hgroup, ⟨number, hkind⟩, rfl, hiff.2 hbetween⟩
  · rintro ⟨group, hgroup, ⟨number, hkind⟩, rfl, hsiteBelow⟩
    obtain ⟨closing, hclosing, hiff⟩ := hbelow group hgroup number hkind
    exact ⟨opensGroup_of_group h hgroup hkind, closing, hclosing, hiff.1 hsiteBelow⟩

/-- A bar stands before a branch of an alternation. -/
theorem exists_alternation_of_bar (hbar : text.toList[index]? = some '|') :
    ∃ alternation ∈ pattern.sites, alternation.kind = .alternation ∧
      ∃ next ∈ alternation.node.children, next.position = index + 1 := by
  obtain ⟨site, hsite, hcases⟩ := exists_writer_of_parse h hbar (by decide)
  rcases hcases with ⟨_, ⟨hc, _⟩ | ⟨hc, _⟩⟩ | ⟨_, hwriter⟩ | ⟨hc, _⟩
  · cases hc
  · cases hc
  · exact ⟨site, hsite, hwriter⟩
  · cases hc

/-- A star stands after the child of a repetition. -/
theorem exists_repetition_of_star (hstar : text.toList[index]? = some '*') :
    ∃ repetition ∈ pattern.sites, repetition.kind = .repetition ∧
      ∃ child, repetition.node.children = [child] ∧ child.kind.isRepeatable ∧
        child.Spans text.toList child.position index := by
  obtain ⟨site, hsite, hcases⟩ := exists_writer_of_parse h hstar (by decide)
  rcases hcases with ⟨_, ⟨hc, _⟩ | ⟨hc, _⟩⟩ | ⟨hc, _⟩ | ⟨_, hkind, hspan⟩
  · cases hc
  · cases hc
  · cases hc
  refine ⟨site, hsite, hkind, ?_⟩
  have hformed := isFormed_of_mem_sites h hsite
  rw [Node.IsFormed, show site.node.kind = .repetition from hkind] at hformed
  obtain ⟨child, hchildren, hrepeatable⟩ := hformed
  obtain ⟨last, hchild, hword⟩ := hspan.of_repetition hkind hchildren
  obtain rfl : index = last := Nat.succ.inj hword.stop_eq
  exact ⟨child, hchildren, hrepeatable, hchild.position_eq ▸ hchild⟩

end Parsed

end Pattern

end Backref
