import Backref.Proofs.Pattern.Grammar
import Mathlib.Data.List.Basic
import Mathlib.Data.List.Forall2

/-!
# Letters in the place of string references

A letter may stand wherever a string reference stands. `Parser.TurnsInto` compares the reading of a
text with that of the same text in which string references have been replaced by letters: nothing
that the parser asks for is lost by the replacement. `Pattern.exists_parse_of_letter` says that the
new text is a pattern again, and that `Node.TurnsInto` relates the two trees.
-/

namespace Backref

/-- The second token is the first one, or a letter in the place of a string reference. -/
inductive Token.TurnsInto : Token → Token → Prop
  | same (token : Token) : TurnsInto token token
  | letter (group : GroupNumber) (c : Letter) : TurnsInto (.stringRef group) (.letter c)

/-- The second tree is the first one, but for labels and for letters in the place of string
references. -/
inductive Node.TurnsInto : Node → Node → Prop
  | same (label label' : Label) (kind : Kind) {children children' : List Node} :
      List.Forall₂ TurnsInto children children' →
      TurnsInto ⟨label, kind, children⟩ ⟨label', kind, children'⟩
  | letter (label label' : Label) (group : Nat) (c : Char) :
      TurnsInto ⟨label, .stringRef group, []⟩ ⟨label', .literal c, []⟩

/-- Whatever can be repeated stays as it is. -/
theorem Node.TurnsInto.kind_eq_of_isRepeatable {node node' : Node} (h : node.TurnsInto node')
    (hrepeatable : node.kind.isRepeatable) : node'.kind = node.kind := by
  cases h with
  | same label label' kind hchildren => rfl
  | letter label label' group c => cases hrepeatable

/-! ## The parts of a state -/

/-- The closed branches are the same. -/
def Choice.TurnsInto (choice choice' : Choice) : Prop :=
  List.Forall₂ Node.TurnsInto choice.closed choice'.closed

/-- The same has been read of both levels. -/
structure Level.TurnsInto (level level' : Level) : Prop where
  items : List.Forall₂ Node.TurnsInto level.items level'.items
  choice : Option.Rel Choice.TurnsInto level.choice level'.choice

/-- The same groups are open. -/
structure OpenGroup.TurnsInto (group group' : OpenGroup) : Prop where
  number_eq : group'.number = group.number
  outer : group.outer.TurnsInto group'.outer

/-- The current branch is closed on both sides. -/
theorem Choice.TurnsInto.close {choice choice' : Choice} (h : choice.TurnsInto choice')
    {items items' : List Node} (hitems : List.Forall₂ Node.TurnsInto items items') :
    List.Forall₂ Node.TurnsInto (choice.close items) (choice'.close items') :=
  .cons (.same _ _ .branch (List.rel_reverse hitems)) h

namespace Level.TurnsInto

variable {level level' : Level} (h : level.TurnsInto level')
include h

/-- An item is appended on both sides. -/
theorem add {item item' : Node} (hitem : item.TurnsInto item') :
    (level.add item).TurnsInto (level'.add item') := ⟨.cons hitem h.items, h.choice⟩

/-- Both levels end with the same nodes. -/
theorem nodes : List.Forall₂ Node.TurnsInto level.nodes level'.nodes := by
  obtain ⟨items, choice⟩ := level
  obtain ⟨items', choice'⟩ := level'
  obtain ⟨hitems, hchoice⟩ := h
  cases hchoice with
  | none => exact List.rel_reverse hitems
  | some hclosed =>
      have hbranches := List.rel_reverse (Choice.TurnsInto.close hclosed hitems)
      exact .cons (.same _ _ .alternation hbranches) .nil

end Level.TurnsInto

/-! ## States -/

namespace Parser

/-- The same has been read on both sides, but for letters in the place of string references. A text
without a character stays empty. -/
structure TurnsInto (parser parser' : Parser) : Prop where
  position : parser'.position = 0 → parser.position = 0
  groupCount : parser'.groupCount = parser.groupCount
  maxExpressionRef : parser'.maxExpressionRef = parser.maxExpressionRef
  level : parser.level.TurnsInto parser'.level
  enclosing : List.Forall₂ OpenGroup.TurnsInto parser.enclosing parser'.enclosing

/-- Nothing has been read yet. -/
theorem turnsInto_start : start.TurnsInto start :=
  ⟨id, rfl, rfl, ⟨.nil, .none⟩, .nil⟩

variable {parser parser' next : Parser} {token token' : Token} {tokens tokens' : List Token}
  {pattern : Pattern}

namespace TurnsInto

variable (h : parser.TurnsInto parser')
include h

/-- The characters of a token have been read on both sides. -/
theorem advance (count : Nat) {count' : Nat} (hpos : 0 < count') :
    (parser.advance count).TurnsInto (parser'.advance count') := by
  refine ⟨fun hzero => ?_, h.groupCount, h.maxExpressionRef, h.level, h.enclosing⟩
  replace hzero : parser'.position + count' = 0 := hzero
  omega

/-- A leaf is appended on both sides. -/
theorem addLeaf {kind kind' : Kind}
    (hleaf : ∀ label label', Node.TurnsInto ⟨label, kind, []⟩ ⟨label', kind', []⟩)
    (start start' : Nat) : (parser.addLeaf kind start).TurnsInto (parser'.addLeaf kind' start') :=
  ⟨h.position, h.groupCount, h.maxExpressionRef, h.level.add (hleaf _ _), h.enclosing⟩

/-- A group is opened on both sides. -/
theorem openGroup (number : Option Nat) (start start' : Nat) :
    (parser.openGroup number start).TurnsInto (parser'.openGroup number start') :=
  ⟨h.position, h.groupCount, h.maxExpressionRef, ⟨.nil, .none⟩, .cons ⟨rfl, h.level⟩ h.enclosing⟩

/-- Where a capturing group may open, it may open on the other side. -/
theorem openCapturing {start : Nat} (hnext : parser.openCapturing start = .ok next)
    (start' : Nat) :
    ∃ next', parser'.openCapturing start' = .ok next' ∧ next.TurnsInto next' := by
  obtain ⟨hcount, rfl⟩ := openCapturing_eq_ok_iff.1 hnext
  have hcount' : parser'.groupCount ≠ maxGroups := h.groupCount ▸ hcount
  refine ⟨_, openCapturing_eq_ok_iff.2 ⟨hcount', rfl⟩, ?_⟩
  have hcounted : Parser.TurnsInto { parser with groupCount := parser.groupCount + 1 }
      { parser' with groupCount := parser'.groupCount + 1 } :=
    ⟨h.position, congrArg (· + 1) h.groupCount, h.maxExpressionRef, h.level, h.enclosing⟩
  rw [h.groupCount] at hcounted ⊢
  exact hcounted.openGroup _ _ _

/-- What can be repeated can be repeated on the other side. -/
theorem star (hnext : parser.star = .ok next) :
    ∃ next', parser'.star = .ok next' ∧ next.TurnsInto next' := by
  obtain ⟨item, items, hitems, hrepeatable, rfl⟩ := star_eq_ok_iff.1 hnext
  obtain ⟨item', items', hitem, hrest, hitems'⟩ :=
    List.forall₂_cons_left_iff.1 (hitems ▸ h.level.items)
  have hrepeatable' : item'.kind.isRepeatable := by
    rwa [hitem.kind_eq_of_isRepeatable hrepeatable]
  refine ⟨_, star_eq_ok_iff.2 ⟨item', items', hitems', hrepeatable', rfl⟩, ?_⟩
  exact ⟨h.position, h.groupCount, h.maxExpressionRef,
    ⟨.cons (.same _ _ .repetition (.cons hitem .nil)) hrest, h.level.choice⟩, h.enclosing⟩

/-- A bar that may stand on one side may stand on the other. -/
theorem bar (hnext : parser.bar = .ok next) :
    ∃ next', parser'.bar = .ok next' ∧ next.TurnsInto next' := by
  have hposition := (bar_cases hnext).1
  have hposition' : parser'.position ≠ 0 := fun hzero => hposition (h.position hzero)
  have hitems := h.level.items
  unfold Parser.bar at hnext ⊢
  rw [if_neg hposition] at hnext
  rw [if_neg hposition']
  generalize parser.level.choice = choice, parser'.level.choice = choice',
    h.level.choice = hchoice at hnext ⊢
  cases hchoice with
  | none =>
      cases hnext
      have hbranch := List.rel_reverse hitems
      exact ⟨_, rfl, h.position, h.groupCount, h.maxExpressionRef,
        ⟨.nil, .some (.cons (.same _ _ .branch hbranch) .nil)⟩, h.enclosing⟩
  | some hclosed =>
      cases hnext
      exact ⟨_, rfl, h.position, h.groupCount, h.maxExpressionRef,
        ⟨.nil, .some (Choice.TurnsInto.close hclosed hitems)⟩, h.enclosing⟩

/-- A group that can be closed can be closed on the other side. -/
theorem close (hnext : parser.close = .ok next) :
    ∃ next', parser'.close = .ok next' ∧ next.TurnsInto next' := by
  obtain ⟨group, enclosing, henclosing, rfl⟩ := close_eq_ok_iff.1 hnext
  obtain ⟨group', enclosing', hgroup, hrest, henclosing'⟩ :=
    List.forall₂_cons_left_iff.1 (henclosing ▸ h.enclosing)
  refine ⟨_, close_eq_ok_iff.2 ⟨group', enclosing', henclosing', rfl⟩, ?_⟩
  rw [hgroup.number_eq]
  exact ⟨h.position, h.groupCount, h.maxExpressionRef,
    hgroup.outer.add (.same _ _ (.group group.number) h.level.nodes), hrest⟩

omit h in
/-- A construct of one character is read on both sides when each side can read it. -/
theorem advance_one {result result' : Except Rejection Parser}
    (hresult : ∀ middle, result = .ok middle →
      ∃ middle', result' = .ok middle' ∧ middle.TurnsInto middle')
    (hnext : (result >>= fun parser => pure (parser.advance 1)) = .ok next) :
    ∃ next', (result' >>= fun parser => pure (parser.advance 1)) = .ok next' ∧
      next.TurnsInto next' := by
  obtain ⟨middle, hmiddle, hnext⟩ := Except.bind_eq_ok_iff.1 hnext
  cases hnext
  obtain ⟨middle', hmiddle', hstates⟩ := hresult middle hmiddle
  exact ⟨_, Except.bind_eq_ok_iff.2 ⟨middle', hmiddle', rfl⟩, hstates.advance 1 Nat.one_pos⟩

/-- What is read on one side is read on the other. -/
theorem consume (htoken : token.TurnsInto token') (hnext : parser.consume token = .ok next) :
    ∃ next', parser'.consume token' = .ok next' ∧ next.TurnsInto next' := by
  cases htoken with
  | letter group c =>
      simp only [Parser.consume] at hnext
      split at hnext
      · cases hnext
      · cases hnext
        have hleaf (label label' : Label) :
            Node.TurnsInto ⟨label, .stringRef group.value, []⟩ ⟨label', .literal c.char, []⟩ :=
          .letter label label' group.value c.char
        exact ⟨_, rfl, (h.addLeaf hleaf _ _).advance 2 Nat.one_pos⟩
  | same =>
      have hleaf (kind : Kind) (label label' : Label) :
          Node.TurnsInto ⟨label, kind, []⟩ ⟨label', kind, []⟩ := .same label label' kind .nil
      cases token with
      | letter c =>
          cases hnext
          exact ⟨_, rfl, (h.addLeaf (hleaf _) _ _).advance 1 Nat.one_pos⟩
      | opening captures =>
          cases captures with
          | true => exact advance_one (fun _ hopened => h.openCapturing hopened _) hnext
          | false =>
              cases hnext
              exact ⟨_, rfl, (h.openGroup none _ _).advance 3 (Nat.succ_pos 2)⟩
      | closing => exact advance_one (fun _ => h.close) hnext
      | star => exact advance_one (fun _ => h.star) hnext
      | bar => exact advance_one (fun _ => h.bar) hnext
      | expressionRef group =>
          cases hnext
          refine ⟨_, rfl, TurnsInto.advance ?_ 4 (Nat.succ_pos 3)⟩
          refine TurnsInto.addLeaf ?_ (hleaf _) _ _
          exact ⟨h.position, h.groupCount, congrArg (max · group.value) h.maxExpressionRef,
            h.level, h.enclosing⟩
      | stringRef group =>
          simp only [Parser.consume, h.groupCount] at hnext ⊢
          split at hnext
          · cases hnext
          · next hcount =>
              cases hnext
              rw [if_neg hcount]
              exact ⟨_, rfl, (h.addLeaf (hleaf _) _ _).advance 2 Nat.two_pos⟩

end TurnsInto

/-- Token by token, what is read on one side is read on the other. -/
theorem TurnsInto.consumeAll (h : parser.TurnsInto parser')
    (htokens : List.Forall₂ Token.TurnsInto tokens tokens')
    (hnext : parser.consumeAll tokens = .ok next) :
    ∃ next', parser'.consumeAll tokens' = .ok next' ∧ next.TurnsInto next' := by
  induction htokens generalizing parser parser' with
  | nil =>
      cases hnext
      exact ⟨parser', rfl, h⟩
  | cons htoken _ ih =>
      rw [consumeAll_cons] at hnext
      obtain ⟨middle, hmiddle, hnext⟩ := Except.bind_eq_ok_iff.1 hnext
      obtain ⟨middle', hmiddle', hstates⟩ := h.consume htoken hmiddle
      obtain ⟨next', hnext', hends⟩ := ih hstates hnext
      refine ⟨next', ?_, hends⟩
      rw [consumeAll_cons, hmiddle']
      exact hnext'

/-- A text that may end on one side may end on the other. -/
theorem TurnsInto.conclude (h : parser.TurnsInto parser')
    (hpattern : parser.conclude = .ok pattern) :
    ∃ pattern', parser'.conclude = .ok pattern' ∧ pattern.root.TurnsInto pattern'.root := by
  unfold Parser.conclude at hpattern ⊢
  split at hpattern
  · cases hpattern
  · next hclosed =>
      split at hpattern
      · cases hpattern
      · next hknown =>
          cases hpattern
          have hclosed' : ¬ parser'.enclosing ≠ [] := by
            rw [not_ne_iff] at hclosed ⊢
            exact List.forall₂_nil_left_iff.1 (hclosed ▸ h.enclosing)
          rw [if_neg hclosed', if_neg (by rwa [h.groupCount, h.maxExpressionRef])]
          exact ⟨_, rfl, .same _ _ .sequence h.level.nodes⟩

end Parser

namespace Pattern

/-- Where a string reference stands in a pattern, a letter may stand. -/
theorem exists_parse_of_letter {before after : List Char} {digit letter : Char} {pattern : Pattern}
    (hletter : Alphabet.isLetter letter)
    (h : Pattern.parse (String.ofList (before ++ '\\' :: digit :: after)) = .ok pattern) :
    ∃ pattern', Pattern.parse (String.ofList (before ++ letter :: after)) = .ok pattern' ∧
      pattern.root.TurnsInto pattern'.root := by
  rw [Pattern.parse, String.toList_ofList] at h ⊢
  obtain ⟨tokens, parser, htext, hlast, hrun, hconclude⟩ := parseChars_eq_ok_iff.1 h
  obtain ⟨front, group, back, rfl, rfl, _, rfl⟩ := Token.exists_stringRef htext
  let replaced : Token := .letter ⟨letter, hletter⟩
  have hsame (tokens : List Token) : List.Forall₂ Token.TurnsInto tokens tokens :=
    List.forall₂_same.2 fun token _ => .same token
  have htokens : List.Forall₂ Token.TurnsInto (front ++ .stringRef group :: back)
      (front ++ replaced :: back) :=
    List.rel_append (hsame front) (.cons (.letter group ⟨letter, hletter⟩) (hsame back))
  obtain ⟨parser', hrun', hstates⟩ := Parser.turnsInto_start.consumeAll htokens hrun
  obtain ⟨pattern', hconclude', htrees⟩ := hstates.conclude hconclude
  have hlast' : (front ++ replaced :: back).getLast? ≠ some .bar := by
    rw [List.getLast?_append_of_ne_nil _ (List.cons_ne_nil _ _)] at hlast ⊢
    cases back with
    | nil => exact nofun
    | cons token back => exact hlast
  refine ⟨pattern', parseChars_eq_ok_iff.2 ⟨_, parser', ?_, hlast', hrun', hconclude'⟩, htrees⟩
  rw [Token.spellAll_append, Token.spellAll_cons]
  rfl

end Pattern

end Backref
