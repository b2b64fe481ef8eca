import Backref.Pattern.Site
import Backref.Proofs.Pattern.Alignment
import Backref.Proofs.Pattern.GroupTable
import Backref.Reference.Placement

/-!
# References find their groups

The parser checks a string reference when it reads it and an expression reference when the text
ends, each against a number of groups. `Pattern.resolves_of_parse` says what this comes to: the
table of groups has an entry for every reference of a parsed pattern, and the group of a string
reference opens before the reference and, unless the reference stands inside of it, closes before
it.
-/

namespace Backref

/-! ## The parenthesis that closes a group -/

/-- The index of the first `)` without its `(` in a text whose first character has the given index
and stands inside `depth` parentheses. -/
def closingFrom (depth index : Nat) : List Char → Option Nat
  | [] => none
  | c :: text =>
      if c = '(' then closingFrom (depth + 1) (index + 1) text
      else if c = ')' then
        if depth = 0 then some index else closingFrom (depth - 1) (index + 1) text
      else closingFrom depth (index + 1) text

/-- The index of the `)` that belongs to the `(` at the given index. -/
def closing? (text : List Char) (opening : Nat) : Option Nat :=
  closingFrom 0 (opening + 1) (text.drop (opening + 1))

/-- Characters other than parentheses close nothing. -/
theorem closingFrom_append_of_notMem {word : List Char} (hopening : '(' ∉ word)
    (hclosing : ')' ∉ word) (depth index : Nat) (rest : List Char) :
    closingFrom depth index (word ++ rest) = closingFrom depth (index + word.length) rest := by
  induction word generalizing index with
  | nil => rfl
  | cons c word ih =>
      rw [List.mem_cons, not_or] at hopening hclosing
      rw [List.cons_append, closingFrom, if_neg (Ne.symm hopening.1), if_neg (Ne.symm hclosing.1),
        ih hopening.2 hclosing.2, List.length_cons, Nat.add_right_comm, Nat.add_assoc]

/-- How many parentheses a node of this kind opens before its children. -/
def Kind.depth : Kind → Nat
  | .group _ => 1
  | _ => 0

/-- The letters below a node are letters of the alphabet. -/
def Node.HasLetters (node : Node) : Prop :=
  ∀ inner ∈ node.subtree, ∀ letter, inner.kind = .literal letter → Alphabet.isLetter letter

/-- What a kind of node writes before its children opens its parentheses. -/
theorem Kind.closingFrom_opening {kind : Kind}
    (hletter : ∀ letter, kind = .literal letter → Alphabet.isLetter letter)
    (depth index : Nat) (rest : List Char) :
    closingFrom depth index (kind.opening ++ rest) =
      closingFrom (depth + kind.depth) (index + kind.opening.length) rest := by
  cases kind with
  | literal letter =>
      have hne : ∀ d ∈ Alphabet.operators, letter ≠ d := fun d =>
        Alphabet.ne_of_isLetter (hletter letter rfl)
      refine closingFrom_append_of_notMem ?_ ?_ depth index rest
      · simpa [opening] using (hne '(' (by decide)).symm
      · simpa [opening] using (hne ')' (by decide)).symm
  | group number =>
      cases number with
      | some number => rfl
      | none => rfl
  | expressionRef number => simp [opening, closingFrom, Kind.depth]
  | stringRef number =>
      exact closingFrom_append_of_notMem (by simp [opening]) (by simp [opening]) depth index rest
  | sequence | alternation | branch | repetition => rfl

/-- What a kind of node writes after its children closes its parentheses. -/
theorem Kind.closingFrom_closing (kind : Kind) (depth index : Nat) (rest : List Char) :
    closingFrom (depth + kind.depth) index (kind.closing ++ rest) =
      closingFrom depth (index + kind.closing.length) rest := by
  cases kind with
  | group number => rfl
  | _ => rfl

/-- What a kind of node writes between its children has no parenthesis. -/
theorem Kind.closingFrom_separator (kind : Kind) (depth index : Nat) (rest : List Char) :
    closingFrom depth index (kind.separator ++ rest) =
      closingFrom depth (index + kind.separator.length) rest := by
  cases kind <;> rfl

namespace Node

variable {text : List Char}

/-- The letters below a child are letters as well. -/
theorem HasLetters.child {node child : Node} (h : node.HasLetters)
    (hchild : child ∈ node.children) : child.HasLetters := fun inner hinner =>
  h inner (mem_subtree_of_child hchild hinner)

mutual

/-- The parentheses of a node are balanced. -/
theorem Spans.closingFrom_eq : ∀ {node : Node} {start stop : Nat}, node.Spans text start stop →
    node.HasLetters → ∀ depth,
      closingFrom depth start (text.drop start) = closingFrom depth stop (text.drop stop)
  | ⟨label, kind, []⟩, start, stop, h, hletters, depth => by
      obtain ⟨_, inside, hopening, hclosing⟩ := h
      have hletter : ∀ letter, kind = .literal letter → Alphabet.isLetter letter :=
        hletters _ (mem_subtree_self _)
      rw [hopening.drop_eq, Kind.closingFrom_opening hletter, ← hopening.stop_eq, hclosing.drop_eq,
        Kind.closingFrom_closing, ← hclosing.stop_eq]
  | ⟨label, kind, first :: others⟩, start, stop, h, hletters, depth => by
      obtain ⟨_, inside, middle, last, hopening, hfirst, hothers, hclosing⟩ := h
      have hletter : ∀ letter, kind = .literal letter → Alphabet.isLetter letter :=
        hletters _ (mem_subtree_self _)
      have hfirstLetters : first.HasLetters := hletters.child List.mem_cons_self
      have hothersLetters : ∀ node ∈ others, node.HasLetters := fun node hnode =>
        hletters.child (List.mem_cons_of_mem first hnode)
      calc closingFrom depth start (text.drop start)
          = closingFrom (depth + kind.depth) inside (text.drop inside) := by
            rw [hopening.drop_eq, Kind.closingFrom_opening hletter, ← hopening.stop_eq]
        _ = closingFrom (depth + kind.depth) last (text.drop last) := by
            rw [hfirst.closingFrom_eq hfirstLetters, hothers.closingFrom_eq hothersLetters]
        _ = closingFrom depth stop (text.drop stop) := by
            rw [hclosing.drop_eq, Kind.closingFrom_closing, ← hclosing.stop_eq]

/-- The parentheses of some nodes are balanced. -/
theorem SpansAfter.closingFrom_eq : ∀ {kind : Kind} {nodes : List Node} {start stop : Nat},
    SpansAfter text kind.separator nodes start stop → (∀ node ∈ nodes, node.HasLetters) →
      ∀ depth, closingFrom depth start (text.drop start) = closingFrom depth stop (text.drop stop)
  | _, [], start, stop, h, _, _ => by
      obtain rfl : stop = start := h
      rfl
  | kind, node :: nodes, start, stop, h, hletters, depth => by
      obtain ⟨inside, middle, hseparator, hnode, hnodes⟩ := h
      have hnodesLetters : ∀ node ∈ nodes, node.HasLetters := fun other hother =>
        hletters other (List.mem_cons_of_mem node hother)
      rw [hseparator.drop_eq, Kind.closingFrom_separator, ← hseparator.stop_eq,
        hnode.closingFrom_eq (hletters node List.mem_cons_self),
        hnodes.closingFrom_eq hnodesLetters]

end

/-- The parentheses between what a node writes before and after its children are balanced. -/
theorem Spans.exists_inside {node : Node} {start stop : Nat} (h : node.Spans text start stop)
    (hletters : node.HasLetters) : ∃ inside last,
      SpansWord text node.kind.opening start inside ∧ SpansWord text node.kind.closing last stop ∧
        ∀ depth, closingFrom depth inside (text.drop inside) =
          closingFrom depth last (text.drop last) := by
  obtain ⟨label, kind, children⟩ := node
  cases children with
  | nil =>
      obtain ⟨_, inside, hopening, hclosing⟩ := h
      exact ⟨inside, inside, hopening, hclosing, fun _ => rfl⟩
  | cons first others =>
      obtain ⟨_, inside, middle, last, hopening, hfirst, hothers, hclosing⟩ := h
      refine ⟨inside, last, hopening, hclosing, fun depth => ?_⟩
      rw [hfirst.closingFrom_eq (hletters.child List.mem_cons_self),
        hothers.closingFrom_eq fun node hnode => hletters.child (List.mem_cons_of_mem first hnode)]

/-- The parenthesis of a group is closed at the end of the group. -/
theorem Spans.closing?_eq {node : Node} {start stop : Nat} {number : Option Nat}
    (h : node.Spans text start stop) (hkind : node.kind = .group number)
    (hletters : node.HasLetters) :
    ∃ closing, closing? text start = some closing ∧ stop = closing + 1 := by
  obtain ⟨inside, last, hopening, hclosing, hinside⟩ := h.exists_inside hletters
  rw [hkind] at hopening hclosing
  obtain ⟨query, hquery, hnotOpening, hnotClosing⟩ :
      ∃ query, (Kind.group number).opening = '(' :: query ∧ '(' ∉ query ∧ ')' ∉ query := by
    cases number <;> exact ⟨_, rfl, by simp, by simp⟩
  rw [hquery] at hopening
  have hbody : text.drop (start + 1) = query ++ text.drop inside := by
    have htail := congrArg List.tail hopening.drop_eq
    rwa [List.tail_drop] at htail
  have hstop : start + 1 + query.length = inside := by
    have hlength := hopening.stop_eq
    rw [List.length_cons] at hlength
    omega
  refine ⟨last, ?_, hclosing.stop_eq⟩
  rw [closing?, hbody, closingFrom_append_of_notMem hnotOpening hnotClosing, hstop, hinside,
    hclosing.drop_eq]
  rfl

end Node

namespace Pattern

variable {text : String} {pattern : Pattern} {site : Site} {number : Nat}

/-- If the site is a reference, it finds its group in the table and in the text. -/
structure Resolves (pattern : Pattern) (text : List Char) (site : Site) : Prop where
  /-- Every reference names a group of the table. -/
  isSome_group? (number : Nat)
    (hkind : site.kind = .expressionRef number ∨ site.kind = .stringRef number) :
    (pattern.group? number).isSome
  /-- The group of a string reference opens before the reference and, unless the reference stands
  inside of it, closes before it. The structural rule asks for the group it finds. -/
  stringRef (number : Nat) (hkind : site.kind = .stringRef number) :
    ∃ target, pattern.group? number = some target ∧ target.position < site.position ∧
      (site.isBelow target.id = false →
        ∃ closing, closing? text target.position = some closing ∧ closing < site.position) ∧
      site.misplaced? pattern.groups =
        if site.maySee target then none else some (.uninitialized number site.position)

section Parsed

variable (h : Pattern.parse text = .ok pattern)
include h

/-- The nodes of a parsed pattern have letters of the alphabet. -/
theorem hasLetters_of_parse {node : Node} (hnode : node ∈ pattern.root.subtree) :
    node.HasLetters := by
  intro inner hinner letter hkind
  obtain ⟨site, hsite, rfl⟩ := mem_subtree_root.1 (Node.subtree_subset hnode hinner)
  have hatom : site.kind.isAtom := by
    rw [show site.kind = .literal letter from hkind]
    rfl
  obtain ⟨before, token, after, _, _, htoken⟩ := exists_token_of_parse h hsite hatom
  rw [show site.kind = .literal letter from hkind] at htoken
  obtain ⟨c, rfl, rfl⟩ := Token.exists_letter_of_kind? htoken
  exact c.isLetter

/-- A group is found under its number. -/
theorem group?_eq_some_iff_of_parse {target : Site} :
    pattern.group? number = some target ↔
      target ∈ pattern.sites ∧ target.kind = .group (some number) := by
  have hnodup : (pattern.groups.map Prod.fst).Nodup :=
    groups_numbers_of_parse h ▸ List.nodup_range'
  exact (lookup_eq_some_iff_of_nodup hnodup).trans mem_groups_iff

variable (hsite : site ∈ pattern.sites)
include hsite

/-- The group that an expression reference names is one of the pattern. -/
theorem isSome_group?_of_expressionRef (hkind : site.kind = .expressionRef number) :
    (pattern.group? number).isSome := by
  have hatom : site.kind.isAtom := by
    rw [hkind]
    rfl
  obtain ⟨before, token, after, htokens, _, htoken⟩ := exists_token_of_parse h hsite hatom
  rw [hkind] at htoken
  obtain ⟨group, rfl, rfl⟩ := Token.exists_expressionRef_of_kind? htoken
  obtain ⟨regex, hvalid, htext, hscan, rfl⟩ := exists_valid_of_parse h
  have hle : group.value ≤ capturingCount text.toList := by
    rw [← htext, Regex.text, Token.capturingCount_spellAll]
    exact hvalid.expressionRef_le group (by rw [hscan, htokens]; simp)
  obtain ⟨target, hentry, _⟩ := exists_entry_of_parse h group.pos hle
  rw [(group?_eq_some_iff_of_parse h).2 (mem_groups_iff.1 hentry)]
  rfl

/-- The group that a string reference names comes before it in the tree. -/
theorem exists_target_of_stringRef (hkind : site.kind = .stringRef number) :
    ∃ target, pattern.group? number = some target ∧ [target, site].Sublist pattern.sites := by
  obtain ⟨front, back, hsites⟩ := List.append_of_mem hsite
  have hnodes : pattern.root.subtree = front.map Site.node ++ site.node :: back.map Site.node := by
    rw [← map_node_sites, hsites, List.map_append, List.map_cons]
  obtain ⟨group, hgroup, hgroupKind⟩ := exists_group_of_stringRef h hnodes hkind
  obtain ⟨target, htarget, rfl⟩ := List.mem_map.1 hgroup
  refine ⟨target, (group?_eq_some_iff_of_parse h).2 ⟨?_, hgroupKind⟩, ?_⟩
  · rw [hsites]
    exact List.mem_append_left _ htarget
  · rw [hsites]
    exact (List.singleton_sublist.2 htarget).append
      (List.singleton_sublist.2 List.mem_cons_self)

/-- What lies in the subtree of another node lies below it. -/
theorem isBelow_of_mem_subtree {target : Site} (htarget : target ∈ pattern.sites)
    (hmem : site.node ∈ target.node.subtree) (hne : site.kind ≠ target.kind) :
    site.isBelow target.id := by
  obtain ⟨below, hbelow, hnode, hpath⟩ := exists_site_of_mem_subtree htarget hmem
  obtain rfl := (hasDenseIds_of_parse h).eq_of_id_eq hbelow hsite (congrArg Node.id hnode)
  rcases List.mem_cons.1 hpath with hself | hancestor
  · exact absurd (congrArg Node.kind hself).symm hne
  · exact List.contains_iff_mem.2 (List.mem_map_of_mem hancestor)

/-- A string reference whose group does not enclose it comes after the end of the group. -/
theorem exists_closing_of_not_isBelow {target : Site} (htarget : target ∈ pattern.sites)
    (htargetKind : target.kind = .group (some number)) (hkind : site.kind ≠ target.kind)
    (hlt : target.position < site.position) (hbelow : site.isBelow target.id = false) :
    ∃ closing, closing? text.toList target.position = some closing ∧ closing < site.position := by
  have htargetNode : target.node ∈ pattern.root.subtree := mem_subtree_root.2 ⟨_, htarget, rfl⟩
  obtain ⟨stop, hspan, _⟩ := exists_span_of_parse h htargetNode
  obtain ⟨closing, hclosing, rfl⟩ :=
    hspan.spans.closing?_eq htargetKind (hasLetters_of_parse h htargetNode)
  refine ⟨closing, hclosing, ?_⟩
  -- It starts neither inside of the group nor before it.
  rcases hspan.apart site.node (mem_subtree_root.2 ⟨site, hsite, rfl⟩) with hmem | hle | hle
  · have hinside := isBelow_of_mem_subtree h hsite htarget hmem hkind
    rw [hbelow] at hinside
    cases hinside
  · exact absurd hle (Nat.not_le_of_lt hlt)
  · exact hle

end Parsed

/-- Every reference of a parsed pattern resolves. -/
theorem resolves_of_parse (h : Pattern.parse text = .ok pattern) :
    ∀ site ∈ pattern.sites, pattern.Resolves text.toList site := by
  intro site hsite
  constructor
  case isSome_group? =>
    intro number hkind
    rcases hkind with hkind | hkind
    · exact isSome_group?_of_expressionRef h hsite hkind
    · obtain ⟨target, hfound, _⟩ := exists_target_of_stringRef h hsite hkind
      rw [hfound]
      rfl
  case stringRef =>
    intro number hkind
    obtain ⟨target, hfound, hsublist⟩ := exists_target_of_stringRef h hsite hkind
    obtain ⟨htarget, htargetKind⟩ := (group?_eq_some_iff_of_parse h).1 hfound
    have hlt : target.position < site.position :=
      List.pairwise_iff_forall_sublist.1 (pairwise_position_of_parse h) hsublist
        (by rw [htargetKind]; rfl) (by rw [hkind]; rfl)
    refine ⟨target, hfound, hlt, fun hbelow => ?_, ?_⟩
    · have hne : site.kind ≠ target.kind := by simp [hkind, htargetKind]
      exact exists_closing_of_not_isBelow h hsite htarget htargetKind hne hlt hbelow
    · rw [Site.misplaced?, hkind]
      show (if (pattern.group? number).any site.maySee then none else _) = _
      rw [hfound]
      rfl

/-- In `((a\1)b)(?2)\2` the first string reference stands inside its group, which closes later, and
the second one stands after the `)` of its group. -/
theorem resolves_of_parse_nested :
    ∃ pattern, Pattern.parse "((a\\1)b)(?2)\\2" = .ok pattern ∧
      (∀ site ∈ pattern.sites, pattern.Resolves "((a\\1)b)(?2)\\2".toList site) ∧
      (∃ site ∈ pattern.sites, site.kind = .stringRef 1 ∧ site.position = 3 ∧
        ∃ target ∈ pattern.group? 1, target.position = 0 ∧ site.isBelow target.id ∧
          closing? "((a\\1)b)(?2)\\2".toList 0 = some 7) ∧
      ∃ site ∈ pattern.sites, site.kind = .stringRef 2 ∧ site.position = 12 ∧
        ∃ target ∈ pattern.group? 2, target.position = 1 ∧ site.isBelow target.id = false ∧
          closing? "((a\\1)b)(?2)\\2".toList 1 = some 5 := by
  obtain ⟨pattern, hparse, hinside, hafter⟩ :
      ∃ pattern, Pattern.parse "((a\\1)b)(?2)\\2" = .ok pattern ∧
        (∃ site ∈ pattern.sites, site.kind = .stringRef 1 ∧ site.position = 3 ∧
          ∃ target ∈ pattern.group? 1, target.position = 0 ∧ site.isBelow target.id ∧
            closing? "((a\\1)b)(?2)\\2".toList 0 = some 7) ∧
        ∃ site ∈ pattern.sites, site.kind = .stringRef 2 ∧ site.position = 12 ∧
          ∃ target ∈ pattern.group? 2, target.position = 1 ∧ site.isBelow target.id = false ∧
            closing? "((a\\1)b)(?2)\\2".toList 1 = some 5 := ⟨_, rfl, by decide +kernel⟩
  exact ⟨pattern, hparse, resolves_of_parse hparse, hinside, hafter⟩

end Pattern

end Backref
