import Backref.Pattern.Printer
import Backref.Proofs.Pattern.Shape

/-!
# Where the nodes stand in the text

`Node.Spans` relates a node of a tree to the part of the text from which it was read. What a kind of
node writes itself stands before, between and after the spans of its children. A parsed tree spans
its text (`Pattern.spans_of_parse`), so each of its nodes has a span, and two spans lie side by side
unless one is inside the other (`Pattern.exists_span_of_parse`).
-/

namespace Backref

/-- A word stands in a text from one index to another. -/
structure SpansWord (text word : List Char) (start stop : Nat) : Prop where
  drop_eq : text.drop start = word ++ text.drop stop
  stop_eq : stop = start + word.length

/-- What a text goes on with after a word. -/
theorem drop_add_length {text word rest : List Char} {start : Nat}
    (h : text.drop start = word ++ rest) : text.drop (start + word.length) = rest := by
  rw [← List.drop_drop, h, List.drop_left]

/-- What a text goes on with stands in it. -/
theorem SpansWord.of_drop {text word rest : List Char} {start : Nat}
    (h : text.drop start = word ++ rest) : SpansWord text word start (start + word.length) := by
  refine ⟨?_, rfl⟩
  rwa [drop_add_length h]

/-- The empty word stands everywhere. -/
theorem SpansWord.nil (text : List Char) (index : Nat) : SpansWord text [] index index := ⟨rfl, rfl⟩

namespace Kind

/-- What a node of this kind writes before its children. -/
def opening : Kind → List Char
  | .literal letter => [letter]
  | .group (some _) => ['(']
  | .group none => ['(', '?', ':']
  | .expressionRef number => ['(', '?', number.digitChar, ')']
  | .stringRef number => ['\\', number.digitChar]
  | .sequence | .alternation | .branch | .repetition => []

/-- What a node of this kind writes between two children. -/
def separator : Kind → List Char
  | .alternation => ['|']
  | _ => []

/-- What a node of this kind writes after its children. -/
def closing : Kind → List Char
  | .group _ => [')']
  | .repetition => ['*']
  | _ => []

end Kind

mutual

/-- A node stands in a text from one index to another, and its label has the first of them. -/
def Node.Spans (text : List Char) : Node → Nat → Nat → Prop
  | ⟨label, kind, []⟩, start, stop =>
      label.position = start ∧ ∃ inside,
        SpansWord text kind.opening start inside ∧ SpansWord text kind.closing inside stop
  | ⟨label, kind, first :: others⟩, start, stop =>
      label.position = start ∧ ∃ inside middle last,
        SpansWord text kind.opening start inside ∧ first.Spans text inside middle ∧
          Node.SpansAfter text kind.separator others middle last ∧
            SpansWord text kind.closing last stop

/-- Some nodes stand in a text one after the other, with a separator before each of them. -/
def Node.SpansAfter (text separator : List Char) : List Node → Nat → Nat → Prop
  | [], start, stop => stop = start
  | node :: nodes, start, stop =>
      ∃ inside middle, SpansWord text separator start inside ∧ node.Spans text inside middle ∧
        Node.SpansAfter text separator nodes middle stop

end

namespace Node

variable {text : List Char} {start stop : Nat} {node : Node}

/-- A node has the position where it starts. -/
theorem Spans.position_eq (h : node.Spans text start stop) : node.position = start := by
  obtain ⟨label, kind, children⟩ := node
  cases children with
  | nil => exact h.1
  | cons first others => exact h.1

/-! ## Order -/

mutual

/-- What lies below a node starts within its span. -/
theorem Spans.position_bounds : ∀ {node : Node} {start stop : Nat}, node.Spans text start stop →
    ∀ inner ∈ node.subtree, start ≤ inner.position ∧ inner.position ≤ stop
  | ⟨label, kind, []⟩, start, stop, h, inner, hinner => by
      obtain ⟨hlabel, inside, hopening, hclosing⟩ := h
      obtain rfl := List.mem_singleton.1 hinner
      have hstart := hopening.stop_eq
      have hstop := hclosing.stop_eq
      show start ≤ label.position ∧ label.position ≤ stop
      omega
  | ⟨label, kind, first :: others⟩, start, stop, h, inner, hinner => by
      obtain ⟨hlabel, inside, middle, last, hopening, hfirst, hothers, hclosing⟩ := h
      have hfirstBounds := hfirst.position_bounds
      have hbounds := hothers.position_bounds
      have hself := (hfirstBounds first first.mem_subtree_self).2
      have hstart := hopening.stop_eq
      have hstop := hclosing.stop_eq
      have hfirstPosition := hfirst.position_eq
      rw [subtree, subtrees, List.mem_cons, List.mem_append] at hinner
      rcases hinner with rfl | hinner | hinner
      · show start ≤ label.position ∧ label.position ≤ stop
        omega
      · have hposition := hfirstBounds inner hinner
        omega
      · have hposition := hbounds.2 inner hinner
        omega

/-- What lies below some nodes starts where they stand. -/
theorem SpansAfter.position_bounds : ∀ {separator : List Char} {nodes : List Node}
    {start stop : Nat}, SpansAfter text separator nodes start stop → start ≤ stop ∧
      ∀ inner ∈ subtrees nodes, start ≤ inner.position ∧ inner.position ≤ stop
  | _, [], start, stop, h => ⟨Nat.le_of_eq h.symm, fun _ hinner => nomatch hinner⟩
  | _, node :: nodes, start, stop, h => by
      obtain ⟨inside, middle, hseparator, hnode, hnodes⟩ := h
      have hnodeBounds := hnode.position_bounds
      have hbounds := hnodes.position_bounds
      have hself := (hnodeBounds node node.mem_subtree_self)
      have hstart := hseparator.stop_eq
      refine ⟨by omega, fun inner hinner => ?_⟩
      rw [subtrees, List.mem_append] at hinner
      rcases hinner with hinner | hinner
      · have hposition := hnodeBounds inner hinner
        omega
      · have hposition := hbounds.2 inner hinner
        omega

end

/-- A node stands in a text, and of some other nodes each starts below it, before what is inside of
it, or after it. -/
structure SpansAmong (text : List Char) (others : List Node) (node : Node) (start stop : Nat) :
    Prop where
  spans : node.Spans text start stop
  apart : ∀ other ∈ others, other ∈ node.subtree ∨ other.position ≤ start ∨ stop ≤ other.position

/-- Nodes that start outside the span of a node can be added. -/
theorem SpansAmong.extend {others others' : List Node} (h : SpansAmong text others node start stop)
    (h' : ∀ other ∈ others', other ∈ others ∨ other.position ≤ start ∨ stop ≤ other.position) :
    SpansAmong text others' node start stop := by
  refine ⟨h.spans, fun other hother => ?_⟩
  rcases h' other hother with hother | hother
  · exact h.apart other hother
  · exact .inr hother

mutual

/-- What lies below a node has a span within that of the node. -/
theorem Spans.exists_span : ∀ {node : Node} {start stop : Nat}, node.Spans text start stop →
    ∀ inner ∈ node.subtree, ∃ start' stop', SpansAmong text node.subtree inner start' stop' ∧
      start ≤ start' ∧ stop' ≤ stop
  | ⟨label, kind, []⟩, start, stop, h, inner, hinner => by
      obtain rfl := List.mem_singleton.1 hinner
      exact ⟨start, stop, ⟨h, fun _ hother => .inl hother⟩, Nat.le_refl _, Nat.le_refl _⟩
  | ⟨label, kind, first :: others⟩, start, stop, h, inner, hinner => by
      have hwhole := h
      obtain ⟨hlabel, inside, middle, last, hopening, hfirst, hothers, hclosing⟩ := h
      have hfirstBounds := hfirst.position_bounds
      have hbounds := hothers.position_bounds
      have hstart := hopening.stop_eq
      have hstop := hclosing.stop_eq
      rw [subtree, subtrees, List.mem_cons, List.mem_append] at hinner
      rcases hinner with rfl | hinner | hinner
      · exact ⟨start, stop, ⟨hwhole, fun _ hother => .inl hother⟩, Nat.le_refl _, Nat.le_refl _⟩
      · obtain ⟨start', stop', hspan, hlow, hhigh⟩ := hfirst.exists_span inner hinner
        refine ⟨start', stop', hspan.extend fun other hother => ?_, by omega, by omega⟩
        rw [subtree, subtrees, List.mem_cons, List.mem_append] at hother
        rcases hother with rfl | hother | hother
        · exact .inr (.inl (by rw [hwhole.position_eq]; omega))
        · exact .inl hother
        · exact .inr (.inr (Nat.le_trans hhigh (hbounds.2 other hother).1))
      · obtain ⟨start', stop', hspan, hlow, hhigh⟩ := hothers.exists_span inner hinner
        have hmiddle := hfirstBounds first first.mem_subtree_self
        refine ⟨start', stop', hspan.extend fun other hother => ?_, by omega, by omega⟩
        rw [subtree, subtrees, List.mem_cons, List.mem_append] at hother
        rcases hother with rfl | hother | hother
        · exact .inr (.inl (by rw [hwhole.position_eq]; omega))
        · exact .inr (.inl (Nat.le_trans (hfirstBounds other hother).2 hlow))
        · exact .inl hother

/-- What lies below some nodes has a span where they stand. -/
theorem SpansAfter.exists_span : ∀ {separator : List Char} {nodes : List Node}
    {start stop : Nat}, SpansAfter text separator nodes start stop →
    ∀ inner ∈ subtrees nodes, ∃ start' stop',
      SpansAmong text (subtrees nodes) inner start' stop' ∧ start ≤ start' ∧ stop' ≤ stop
  | _, [], start, stop, h, _, hinner => nomatch hinner
  | _, node :: nodes, start, stop, h, inner, hinner => by
      obtain ⟨inside, middle, hseparator, hnode, hnodes⟩ := h
      have hnodeBounds := hnode.position_bounds
      have hbounds := hnodes.position_bounds
      have hstart := hseparator.stop_eq
      rw [subtrees, List.mem_append] at hinner
      rcases hinner with hinner | hinner
      · obtain ⟨start', stop', hspan, hlow, hhigh⟩ := hnode.exists_span inner hinner
        refine ⟨start', stop', hspan.extend fun other hother => ?_, by omega, by omega⟩
        rw [subtrees, List.mem_append] at hother
        rcases hother with hother | hother
        · exact .inl hother
        · exact .inr (.inr (Nat.le_trans hhigh (hbounds.2 other hother).1))
      · obtain ⟨start', stop', hspan, hlow, hhigh⟩ := hnodes.exists_span inner hinner
        have hmiddle := hnodeBounds node node.mem_subtree_self
        refine ⟨start', stop', hspan.extend fun other hother => ?_, by omega, by omega⟩
        rw [subtrees, List.mem_append] at hother
        rcases hother with hother | hother
        · exact .inr (.inl (Nat.le_trans (hnodeBounds other hother).2 hlow))
        · exact .inl hother

end

/-- The first child starts after what the node writes before its children. -/
theorem Spans.position_child (h : node.Spans text start stop) {first : Node} {others : List Node}
    (hchildren : node.children = first :: others) :
    first.position = start + node.kind.opening.length := by
  obtain ⟨label, kind, children⟩ := node
  obtain rfl : children = first :: others := hchildren
  obtain ⟨_, inside, _, _, hopening, hfirst, _⟩ := h
  rw [hfirst.position_eq, hopening.stop_eq]

/-- After a node comes a separator and then the next one. -/
theorem SpansAfter.exists_separator {separator : List Char} {front back : List Node}
    {branch next : Node}
    (h : SpansAfter text separator (front ++ branch :: next :: back) start stop) :
    ∃ start' middle, branch.Spans text start' middle ∧
      SpansWord text separator middle next.position := by
  induction front generalizing start with
  | nil =>
      obtain ⟨start', middle, _, hbranch, _, _, hword, hnext, _⟩ := h
      exact ⟨start', middle, hbranch, hnext.position_eq ▸ hword⟩
  | cons node front ih =>
      obtain ⟨_, _, _, _, hothers⟩ := h
      exact ih hothers

/-- Between two children of a node stands what the node writes there. -/
theorem Spans.exists_separator (h : node.Spans text start stop) {front back : List Node}
    {branch next : Node} (hchildren : node.children = front ++ branch :: next :: back) :
    ∃ start' middle, branch.Spans text start' middle ∧
      SpansWord text node.kind.separator middle next.position := by
  obtain ⟨label, kind, children⟩ := node
  obtain rfl : children = front ++ branch :: next :: back := hchildren
  cases front with
  | nil =>
      obtain ⟨_, _, middle, _, _, hfirst, ⟨_, _, hword, hnext, _⟩, _⟩ := h
      exact ⟨_, middle, hfirst, hnext.position_eq ▸ hword⟩
  | cons first front =>
      obtain ⟨_, _, _, _, _, _, hothers, _⟩ := h
      exact hothers.exists_separator

/-! ## Printing -/

/-- The texts of some nodes with a separator before each of them, followed by `rest`. -/
def printAfter (separator : List Char) (nodes : List Node) (rest : List Char) : List Char :=
  nodes.foldr (fun node rest => separator ++ node.print rest) rest

/-- Nodes printed one after the other. -/
theorem printAll_eq_printAfter (nodes : List Node) (rest : List Char) :
    printAll nodes rest = printAfter [] nodes rest := by
  induction nodes with
  | nil => rfl
  | cons node nodes ih =>
      rw [printAll, ih]
      rfl

/-- Nodes printed with a bar before each of them. -/
theorem printBarred_eq_printAfter (nodes : List Node) (rest : List Char) :
    printBarred nodes rest = printAfter ['|'] nodes rest := by
  induction nodes with
  | nil => rfl
  | cons node nodes ih =>
      rw [printBarred, ih]
      rfl

/-- A formed node without children prints as what its kind writes. -/
theorem IsFormed.print_nil {label : Label} {kind : Kind} (h : (Node.mk label kind []).IsFormed)
    (rest : List Char) :
    (Node.mk label kind []).print rest = kind.opening ++ (kind.closing ++ rest) := by
  cases kind with
  | group number => cases number <;> simp [print, printAll, Kind.opening, Kind.closing]
  | repetition => obtain ⟨_, hchildren, _⟩ := h; cases hchildren
  | _ => simp [print, printAll, Kind.opening, Kind.closing]

/-- A formed node with children prints as these between what its kind writes. -/
theorem IsFormed.print_cons {label : Label} {kind : Kind} {first : Node} {others : List Node}
    (h : (Node.mk label kind (first :: others)).IsFormed) (rest : List Char) :
    (Node.mk label kind (first :: others)).print rest =
      kind.opening ++ first.print (printAfter kind.separator others (kind.closing ++ rest)) := by
  cases kind with
  | group number =>
      cases number <;>
        simp [print, printAll, printAll_eq_printAfter, Kind.opening, Kind.closing, Kind.separator]
  | literal _ | expressionRef _ | stringRef _ => cases h
  | alternation =>
      simp [print, printBarred_eq_printAfter, Kind.opening, Kind.closing, Kind.separator]
  | _ => simp [print, printAll, printAll_eq_printAfter, Kind.opening, Kind.closing, Kind.separator]

mutual

/-- A node whose subtree is formed stands in the text as it prints. -/
theorem Spans.print_eq : ∀ {node : Node} {start stop : Nat}, node.Spans text start stop →
    (∀ inner ∈ node.subtree, inner.IsFormed) → text.drop start = node.print (text.drop stop)
  | ⟨label, kind, []⟩, start, stop, h, hformed => by
      obtain ⟨_, inside, hopening, hclosing⟩ := h
      rw [(hformed _ (mem_subtree_self _)).print_nil, hopening.drop_eq, hclosing.drop_eq]
  | ⟨label, kind, first :: others⟩, start, stop, h, hformed => by
      obtain ⟨_, inside, middle, last, hopening, hfirst, hothers, hclosing⟩ := h
      have hchildren : AllFormed (first :: others) := fun inner hinner =>
        hformed inner (List.mem_cons_of_mem _ hinner)
      rw [(hformed _ (mem_subtree_self _)).print_cons, hopening.drop_eq,
        hfirst.print_eq hchildren.of_cons.1, hothers.print_eq hchildren.of_cons.2,
        hclosing.drop_eq]

/-- Nodes whose subtrees are formed stand in the text as they print. -/
theorem SpansAfter.print_eq : ∀ {separator : List Char} {nodes : List Node} {start stop : Nat},
    SpansAfter text separator nodes start stop → AllFormed nodes →
      text.drop start = printAfter separator nodes (text.drop stop)
  | _, [], start, stop, h, _ => by
      obtain rfl : stop = start := h
      rfl
  | separator, node :: nodes, start, stop, h, hformed => by
      obtain ⟨inside, middle, hseparator, hnode, hnodes⟩ := h
      show text.drop start = separator ++ node.print (printAfter separator nodes (text.drop stop))
      rw [hseparator.drop_eq, hnode.print_eq hformed.of_cons.1, hnodes.print_eq hformed.of_cons.2]

end

/-! ## Trees that were built -/

/-- A node between whose children nothing is written stands around nodes in a row. -/
theorem Spans.around {inside last : Nat} {nodes : List Node} (kind : Kind) (id : Nat)
    (hseparator : kind.separator = []) (hopening : SpansWord text kind.opening start inside)
    (hnodes : SpansAfter text [] nodes inside last)
    (hclosing : SpansWord text kind.closing last stop) :
    Spans text ⟨⟨id, start⟩, kind, nodes⟩ start stop := by
  cases nodes with
  | nil =>
      obtain rfl : last = inside := hnodes
      exact ⟨rfl, last, hopening, hclosing⟩
  | cons first others =>
      obtain ⟨inside', middle, hword, hfirst, hothers⟩ := hnodes
      obtain rfl : inside' = inside := hword.stop_eq
      exact ⟨rfl, inside', middle, last, hopening, hfirst, hseparator ▸ hothers, hclosing⟩

/-- A node without children stands where its token is spelled. -/
theorem Spans.leaf {kind : Kind} {cursor : Cursor} {rest : List Char} (hclosing : kind.closing = [])
    (htext : text.drop cursor.position = kind.opening ++ rest) :
    Spans text ⟨cursor.label, kind, []⟩ cursor.position
      (cursor.position + kind.opening.length) := by
  refine ⟨rfl, _, .of_drop htext, ?_⟩
  rw [hclosing]
  exact .nil text _

/-- A single node stands where its row stands. -/
theorem Spans.single (h : node.Spans text start stop) : SpansAfter text [] [node] start stop :=
  ⟨start, stop, .nil text start, h, rfl⟩

/-- A repetition stands where its child and the star stand. -/
theorem Spans.starIf {cursor : Cursor} {rest : List Char} (starred : Bool)
    (h : node.Spans text start cursor.position)
    (htext : text.drop cursor.position = Token.spellAll (Token.starIf starred) ++ rest) :
    (Node.starIf starred node cursor).1.Spans text start
      (Node.starIf starred node cursor).2.position := by
  cases starred with
  | false => exact h
  | true =>
      show Spans text ⟨⟨cursor.nextId, node.position⟩, .repetition, [node]⟩ start
        (cursor.position + 1)
      rw [h.position_eq]
      exact .around .repetition cursor.nextId rfl (.nil text start) h.single (.of_drop htext)

/-- A sequence begins where its nodes stand. -/
theorem SpansAfter.beginning_eq {cursor : Cursor} {nodes : List Node}
    (h : SpansAfter text [] nodes start cursor.position) : Node.beginning nodes cursor = start := by
  cases nodes with
  | nil => exact h
  | cons node nodes =>
      obtain ⟨inside, _, hword, hnode, _⟩ := h
      obtain rfl : inside = start := hword.stop_eq
      exact hnode.position_eq

/-- A sequence and the branches after it stand where the children of a node around them stand. -/
theorem SpansAfter.alternate {cursor : Cursor} {nodes branches : List Node}
    (h : SpansAfter text [] nodes start cursor.position)
    (h' : SpansAfter text ['|'] branches cursor.position stop) :
    SpansAfter text [] (Node.alternate nodes cursor branches) start stop := by
  cases branches with
  | nil =>
      obtain rfl : stop = cursor.position := h'
      exact h
  | cons branch branches =>
      refine Spans.single ?_
      rw [h.beginning_eq]
      have hfirst := Spans.around .branch (cursor.nextId + 1) rfl (.nil text start) h
        (.nil text _)
      exact ⟨rfl, start, cursor.position, stop, .nil text start, hfirst, h', .nil text stop⟩

/-- After nodes that are laid out along the next tokens of a text comes the rest of the text. -/
theorem LaidOut.drop_stop {cursor next : Cursor} {tokens : List Token} {nodes : List Node}
    {rest : List Char} (h : LaidOut cursor tokens nodes next)
    (htext : text.drop cursor.position = Token.spellAll tokens ++ rest) :
    text.drop next.position = rest := by
  rw [h.position_eq, drop_add_length htext]

end Node

open Node

section Build

variable {text : List Char}

/-- The children of a node around an abstract pattern stand in the text when its sequences do. -/
theorem Regex.spansAfter_of_parts {first : List Item} {others : List (List Item)} {cursor : Cursor}
    {rest : List Char}
    (hfirst : ∀ rest, text.drop cursor.position =
      Token.spellAll (Item.sequenceTokens first) ++ rest →
        SpansAfter text [] (Item.buildSequence first cursor).1 cursor.position
          (Item.buildSequence first cursor).2.position)
    (hothers : ∀ cursor : Cursor, text.drop cursor.position =
      Token.spellAll (Item.barredTokens others) ++ rest →
        SpansAfter text ['|'] (Item.buildBranches others cursor).1 cursor.position
          (Item.buildBranches others cursor).2.position)
    (htext : text.drop cursor.position = Token.spellAll (Regex.mk first others).tokens ++ rest) :
    SpansAfter text [] ((Regex.mk first others).buildBody cursor).1 cursor.position
      ((Regex.mk first others).buildBody cursor).2.position := by
  rw [Regex.tokens, Token.spellAll_append, List.append_assoc] at htext
  have hmiddle := (Item.laidOut_buildSequence first cursor).drop_stop htext
  cases others with
  | nil => exact hfirst _ htext
  | cons items others => exact (hfirst _ htext).alternate (hothers (Cursor.skip _ 0 2) hmiddle)

mutual

/-- The node of an item stands where its tokens are spelled. -/
theorem Item.spans_build : ∀ (item : Item) (cursor : Cursor) (rest : List Char),
    text.drop cursor.position = Token.spellAll item.tokens ++ rest →
      (item.build cursor).1.Spans text cursor.position (item.build cursor).2.position
  | .letter c starred, cursor, rest, htext => by
      replace htext : text.drop cursor.position =
          [c.char] ++ (Token.spellAll (Token.starIf starred) ++ rest) := htext
      exact Spans.starIf starred (.leaf rfl htext) (drop_add_length htext)
  | .group captures first others starred, cursor, rest, htext => by
      rw [Item.tokens_group, Token.spellAll_cons, Token.spellAll_append, Token.spellAll_cons,
        List.append_assoc, List.append_assoc, List.append_assoc] at htext
      have hopening : (Kind.group (cursor.groupNumber? captures)).opening =
          (Token.opening captures).spell := by
        cases captures <;> rfl
      have henter : (cursor.enter captures).position =
          cursor.position + (Token.opening captures).spell.length := by
        cases captures <;> rfl
      have hinside := drop_add_length htext
      rw [← henter] at hinside
      have hbody := Regex.spansAfter_of_parts (Item.spans_buildSequence first _)
        (fun middle => Item.spans_buildBranches others middle _) hinside
      have hclosing := (Regex.laidOut_buildBody ⟨first, others⟩ _).drop_stop hinside
      have hword : SpansWord text (Kind.group (cursor.groupNumber? captures)).opening
          cursor.position (cursor.enter captures).position := by
        rw [hopening, henter]
        exact .of_drop htext
      rw [Item.build_group]
      exact Spans.starIf starred (.around _ cursor.nextId rfl hword hbody (.of_drop hclosing))
        (drop_add_length hclosing)
  | .expressionRef number starred, cursor, rest, htext => by
      replace htext : text.drop cursor.position = (Kind.expressionRef number.value).opening ++
          (Token.spellAll (Token.starIf starred) ++ rest) := htext
      exact Spans.starIf starred (.leaf rfl htext) (drop_add_length htext)
  | .stringRef number, cursor, rest, htext => .leaf rfl htext

/-- The nodes of a sequence stand where its tokens are spelled. -/
theorem Item.spans_buildSequence : ∀ (items : List Item) (cursor : Cursor) (rest : List Char),
    text.drop cursor.position = Token.spellAll (Item.sequenceTokens items) ++ rest →
      SpansAfter text [] (Item.buildSequence items cursor).1 cursor.position
        (Item.buildSequence items cursor).2.position
  | [], cursor, rest, htext => rfl
  | item :: items, cursor, rest, htext => by
      rw [Item.sequenceTokens, Token.spellAll_append, List.append_assoc] at htext
      have hmiddle := (Item.laidOut_build item cursor).drop_stop htext
      exact ⟨cursor.position, _, .nil text _, Item.spans_build item cursor _ htext,
        Item.spans_buildSequence items _ rest hmiddle⟩

/-- The branches of some sequences stand where their tokens are spelled. -/
theorem Item.spans_buildBranches : ∀ (others : List (List Item)) (cursor : Cursor)
    (rest : List Char), text.drop cursor.position =
      Token.spellAll (Item.barredTokens others) ++ rest →
        SpansAfter text ['|'] (Item.buildBranches others cursor).1 cursor.position
          (Item.buildBranches others cursor).2.position
  | [], cursor, rest, htext => rfl
  | items :: others, cursor, rest, htext => by
      rw [Item.barredTokens, Token.spellAll_cons, Token.spellAll_append, List.append_assoc,
        List.append_assoc] at htext
      have hbar := drop_add_length htext
      have hmiddle := (Item.laidOut_buildSequence items (cursor.skip 1 1)).drop_stop hbar
      have hbranch := Spans.around .branch cursor.nextId rfl (.nil text _)
        (Item.spans_buildSequence items (cursor.skip 1 1) _ hbar) (.nil text _)
      exact ⟨_, _, .of_drop htext, hbranch, Item.spans_buildBranches others _ rest hmiddle⟩

end

end Build

/-- The tree of an abstract pattern stands where its text is. -/
theorem Regex.spans_build (regex : Regex) :
    regex.build.root.Spans regex.text 0 regex.text.length := by
  have htext : regex.text.drop Cursor.start.position = Token.spellAll regex.tokens ++ [] :=
    (List.append_nil _).symm
  have hbody := Regex.spansAfter_of_parts (Item.spans_buildSequence regex.first _)
    (fun middle => Item.spans_buildBranches regex.others middle _) htext
  have hstop : (regex.buildBody .start).2.position = regex.text.length :=
    (regex.laidOut_buildBody .start).position_eq.trans (Nat.zero_add _)
  rw [hstop] at hbody
  exact Spans.around .sequence 0 rfl (.nil _ _) hbody (.nil _ _)

/-- A parsed tree stands in its text from the beginning to the end. -/
theorem Pattern.spans_of_parse {text : String} {pattern : Pattern}
    (h : Pattern.parse text = .ok pattern) :
    pattern.root.Spans text.toList 0 text.toList.length := by
  obtain ⟨regex, _, htext, rfl⟩ := Pattern.parse_eq_ok_iff.1 h
  rw [← htext]
  exact regex.spans_build

/-- The nodes of a parsed tree stand in its text, side by side or one inside the other. -/
theorem Pattern.exists_span_of_parse {text : String} {pattern : Pattern}
    (h : Pattern.parse text = .ok pattern) {node : Node} (hnode : node ∈ pattern.root.subtree) :
    ∃ stop, node.SpansAmong text.toList pattern.root.subtree node.position stop ∧
      stop ≤ text.toList.length := by
  obtain ⟨start, stop, hspan, _, hstop⟩ := (spans_of_parse h).exists_span node hnode
  rw [← hspan.spans.position_eq] at hspan
  exact ⟨stop, hspan, hstop⟩

end Backref
