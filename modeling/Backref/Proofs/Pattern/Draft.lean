import Backref.Proofs.Pattern.Reading

/-!
# Every accepted text is a printed pattern

A `Draft` is the abstract syntax of a level that is still being read. Each token that the parser
accepts extends the drafts of its levels (`Drafted.consume`), so at the end there is an abstract
pattern whose tokens are the ones read. With the converse in `Reading` this gives
`Pattern.parseChars_eq_ok_iff_build`: the parser accepts the texts of valid patterns and answers
with their trees.
-/

namespace Backref

/-! ## Drafts -/

/-- The abstract syntax of a level that is being read, latest part first. -/
structure Draft where
  /-- The sequences before the last bar. -/
  closed : List (List Item)
  /-- The items since the last bar. -/
  items : List Item

/-- A group that is still open, with the draft of the level in which it stands. -/
structure OpenDraft where
  captures : Bool
  outer : Draft

/-- Whether a star may follow the item. -/
def Item.isRepeatable : Item → Bool
  | .letter _ starred | .group _ _ _ starred | .expressionRef _ starred => !starred
  | .stringRef _ => false

/-- The item with a star, where it can have one. -/
def Item.star : Item → Item
  | .letter c _ => .letter c true
  | .group captures first others _ => .group captures first others true
  | .expressionRef number _ => .expressionRef number true
  | .stringRef number => .stringRef number

/-- The tokens of an item that gets a star. -/
theorem Item.tokens_star {item : Item} (h : item.isRepeatable) :
    item.star.tokens = item.tokens ++ [.star] := by
  cases item with
  | letter c starred =>
      cases starred with
      | false => rfl
      | true => cases h
  | group captures first others starred =>
      cases starred with
      | false => simp [Item.star, Item.tokens_group, Token.starIf]
      | true => cases h
  | expressionRef number starred =>
      cases starred with
      | false => rfl
      | true => cases h
  | stringRef number => cases h

/-- No second star follows the first. -/
theorem Item.isRepeatable_star (item : Item) : item.star.isRepeatable = false := by
  cases item <;> rfl

namespace Draft

/-- The tokens of closed sequences, each with the bar after it. -/
def closedTokens : List (List Item) → List Token
  | [] => []
  | items :: closed => closedTokens closed ++ Item.sequenceTokens items ++ [.bar]

/-- The tokens of a draft. -/
def tokens (draft : Draft) : List Token :=
  closedTokens draft.closed ++ Item.sequenceTokens draft.items.reverse

/-- The tokens before the present level, which is inside the given groups. -/
def enclosingTokens : List OpenDraft → List Token
  | [] => []
  | group :: enclosing =>
      enclosingTokens enclosing ++ group.outer.tokens ++ [.opening group.captures]

/-- The abstract pattern whose last sequence comes after the closed ones. -/
def close : List (List Item) → List Item → Regex
  | [], items => ⟨items, []⟩
  | previous :: closed, items =>
      let regex := close closed previous
      ⟨regex.first, regex.others ++ [items]⟩

/-- The abstract pattern that a draft has become at the end of its level. -/
def regex (draft : Draft) : Regex := close draft.closed draft.items.reverse

/-- Closing a draft keeps its tokens. -/
theorem tokens_close (closed : List (List Item)) (items : List Item) :
    (close closed items).tokens = closedTokens closed ++ Item.sequenceTokens items := by
  induction closed generalizing items with
  | nil => simp [close, closedTokens, Regex.tokens, Item.barredTokens]
  | cons previous closed ih =>
      have hprevious := ih previous
      unfold Regex.tokens at hprevious
      simp only [close, Regex.tokens, Item.barredTokens_append, ← List.append_assoc, hprevious]
      simp [closedTokens, Item.barredTokens]

/-- Adds an item. -/
def add (draft : Draft) (item : Item) : Draft := { draft with items := item :: draft.items }

/-- The tokens of a draft with one more item. -/
theorem tokens_add (draft : Draft) (item : Item) :
    (draft.add item).tokens = draft.tokens ++ item.tokens := by
  simp [add, tokens, Item.sequenceTokens_append, Item.sequenceTokens]

/-- Which items of a draft a star may follow. -/
def repeatable (draft : Draft) : List Bool := draft.items.map Item.isRepeatable

end Draft

/-- Which items of a level a star may follow. -/
def Level.repeatable (level : Level) : List Bool :=
  level.items.map fun item => item.kind.isRepeatable

/-! ## Each token extends the drafts -/

/-- The parser stands in a draft of the tokens that it has read. -/
structure Drafted (parser : Parser) (tokens : List Token) (draft : Draft)
    (enclosing : List OpenDraft) : Prop where
  tokens_eq : Draft.enclosingTokens enclosing ++ draft.tokens = tokens
  level_eq : parser.level.repeatable = draft.repeatable
  enclosing_eq : parser.enclosing.map (fun group => group.outer.repeatable) =
    enclosing.map fun group => group.outer.repeatable

namespace Drafted

variable {parser next : Parser} {tokens : List Token} {draft : Draft} {enclosing : List OpenDraft}

/-- An item that is added to the level is added to the draft. -/
theorem add (h : Drafted parser tokens draft enclosing) {node : Node} (item : Item)
    (hlevel : next.level = parser.level.add node) (henclosing : next.enclosing = parser.enclosing)
    (hitem : node.kind.isRepeatable = item.isRepeatable) :
    Drafted next (tokens ++ item.tokens) (draft.add item) enclosing := by
  refine ⟨?_, ?_, henclosing ▸ h.enclosing_eq⟩
  · rw [Draft.tokens_add, ← List.append_assoc, h.tokens_eq]
  · rw [hlevel]
    show node.kind.isRepeatable :: parser.level.repeatable = item.isRepeatable :: draft.repeatable
    rw [hitem, h.level_eq]

/-- An opening parenthesis starts an empty draft and puts the present one away. -/
theorem opening {captures : Bool} (h : Drafted parser tokens draft enclosing)
    (hnext : parser.consume (.opening captures) = .ok next) :
    Drafted next (tokens ++ [.opening captures]) ⟨[], []⟩ (⟨captures, draft⟩ :: enclosing) := by
  have hopened : next.level = .start ∧ ∃ label number,
      next.enclosing = ⟨label, number, parser.level⟩ :: parser.enclosing := by
    cases captures with
    | true =>
        obtain ⟨middle, hopen, hnext⟩ := Except.bind_eq_ok_iff.1 hnext
        obtain ⟨_, rfl⟩ := Parser.openCapturing_eq_ok_iff.1 hopen
        cases hnext
        exact ⟨rfl, _, _, rfl⟩
    | false =>
        cases hnext
        exact ⟨rfl, _, _, rfl⟩
  obtain ⟨hlevel, label, number, henclosing⟩ := hopened
  refine ⟨?_, ?_, ?_⟩
  · rw [← h.tokens_eq]
    simp [Draft.enclosingTokens, Draft.tokens, Draft.closedTokens, Item.sequenceTokens]
  · rw [hlevel]
    rfl
  · rw [henclosing, List.map_cons, List.map_cons, h.enclosing_eq, h.level_eq]

/-- A closing parenthesis adds the draft, as a group, to the draft in which it stands. -/
theorem closing (h : Drafted parser tokens draft enclosing)
    (hnext : parser.consume .closing = .ok next) :
    ∃ draft' enclosing', Drafted next (tokens ++ [.closing]) draft' enclosing' := by
  obtain ⟨middle, hclose, hnext⟩ := Except.bind_eq_ok_iff.1 hnext
  obtain ⟨group, outer, henclosing, rfl⟩ := Parser.close_eq_ok_iff.1 hclose
  cases hnext
  obtain ⟨htokens, hlevel, hstack⟩ := h
  rw [henclosing] at hstack
  cases enclosing with
  | nil => cases hstack
  | cons opened enclosing =>
      rw [List.map_cons, List.map_cons, List.cons.injEq] at hstack
      let item := Item.group opened.captures draft.regex.first draft.regex.others false
      refine ⟨opened.outer.add item, enclosing, ?_, ?_, hstack.2⟩
      · -- The tokens of the group are its parentheses around what the draft has.
        have hbody : draft.regex.tokens = draft.tokens := Draft.tokens_close _ _
        have hitem : item.tokens = .opening opened.captures :: (draft.tokens ++ [.closing]) := by
          rw [← hbody]
          exact Item.tokens_group _ _ _ _
        rw [Draft.tokens_add, hitem, ← htokens, Draft.enclosingTokens]
        simp only [List.append_assoc, List.cons_append, List.nil_append]
      · show _ :: group.outer.repeatable = _ :: opened.outer.repeatable
        rw [hstack.1]
        rfl

/-- A star belongs to the last item of the draft. -/
theorem star (h : Drafted parser tokens draft enclosing)
    (hnext : parser.consume .star = .ok next) :
    ∃ draft', Drafted next (tokens ++ [.star]) draft' enclosing := by
  obtain ⟨middle, hstar, hnext⟩ := Except.bind_eq_ok_iff.1 hnext
  obtain ⟨node, nodes, hitems, hnode, rfl⟩ := Parser.star_eq_ok_iff.1 hstar
  cases hnext
  obtain ⟨htokens, hlevel, hstack⟩ := h
  obtain ⟨closed, items⟩ := draft
  rw [Level.repeatable, hitems] at hlevel
  cases items with
  | nil => cases hlevel
  | cons item items =>
      rw [Draft.repeatable, List.map_cons, List.map_cons, List.cons.injEq] at hlevel
      have hitem : item.isRepeatable := hlevel.1 ▸ hnode
      refine ⟨⟨closed, item.star :: items⟩, ?_, ?_, hstack⟩
      · have hadd : ∀ last, (Draft.mk closed (last :: items)).tokens =
            (Draft.mk closed items).tokens ++ last.tokens := Draft.tokens_add ⟨closed, items⟩
        rw [hadd, Item.tokens_star hitem, ← htokens, hadd]
        simp only [List.append_assoc]
      · show _ :: nodes.map _ = _ :: items.map _
        rw [Item.isRepeatable_star, hlevel.2]
        rfl

/-- A bar closes the sequence of the draft. -/
theorem bar (h : Drafted parser tokens draft enclosing)
    (hnext : parser.consume .bar = .ok next) :
    Drafted next (tokens ++ [.bar]) ⟨draft.items.reverse :: draft.closed, []⟩ enclosing := by
  obtain ⟨middle, hbar, hnext⟩ := Except.bind_eq_ok_iff.1 hnext
  obtain ⟨_, count, choice, rfl⟩ := Parser.bar_cases hbar
  cases hnext
  refine ⟨?_, rfl, h.enclosing_eq⟩
  rw [← h.tokens_eq]
  simp [Draft.tokens, Draft.closedTokens, Item.sequenceTokens]

/-- A token that the parser accepts extends the drafts. -/
theorem consume {token : Token} (h : Drafted parser tokens draft enclosing)
    (hnext : parser.consume token = .ok next) :
    ∃ draft' enclosing', Drafted next (tokens ++ [token]) draft' enclosing' := by
  cases token with
  | letter c =>
      cases hnext
      exact ⟨_, _, h.add (.letter c false) rfl rfl rfl⟩
  | opening captures => exact ⟨_, _, h.opening hnext⟩
  | closing => exact h.closing hnext
  | star =>
      obtain ⟨draft', hdrafted⟩ := h.star hnext
      exact ⟨draft', enclosing, hdrafted⟩
  | bar => exact ⟨_, _, h.bar hnext⟩
  | expressionRef number =>
      cases hnext
      exact ⟨_, _, h.add (.expressionRef number false) rfl rfl rfl⟩
  | stringRef number =>
      simp only [Parser.consume] at hnext
      split at hnext
      · cases hnext
      · cases hnext
        exact ⟨_, _, h.add (.stringRef number) rfl rfl rfl⟩

/-- The tokens of a run extend the drafts. -/
theorem consumeAll {tokens' : List Token} (h : Drafted parser tokens draft enclosing)
    (hnext : parser.consumeAll tokens' = .ok next) :
    ∃ draft' enclosing', Drafted next (tokens ++ tokens') draft' enclosing' := by
  induction tokens' generalizing parser tokens draft enclosing with
  | nil =>
      cases hnext
      exact ⟨draft, enclosing, by rwa [List.append_nil]⟩
  | cons token tokens' ih =>
      rw [Parser.consumeAll_cons] at hnext
      obtain ⟨middle, hmiddle, hnext⟩ := Except.bind_eq_ok_iff.1 hnext
      obtain ⟨draft', enclosing', h'⟩ := h.consume hmiddle
      rw [List.append_cons]
      exact ih h' hnext

end Drafted

/-! ## What a successful run tells of its tokens -/

/-- A token that is read was allowed. -/
theorem Parser.consume_allowed {parser next : Parser} {token : Token}
    (hle : parser.groupCount ≤ maxGroups) (h : parser.consume token = .ok next) :
    token.Allowed parser.groupCount := by
  cases token with
  | opening captures =>
      cases captures with
      | true =>
          obtain ⟨middle, hopen, _⟩ := Except.bind_eq_ok_iff.1 h
          exact Nat.lt_of_le_of_ne hle (Parser.openCapturing_eq_ok_iff.1 hopen).1
      | false => trivial
  | stringRef number =>
      simp only [Parser.consume] at h
      split at h
      · cases h
      · next hcount => exact Nat.not_lt.1 hcount
  | letter c => trivial
  | closing => trivial
  | star => trivial
  | bar => trivial
  | expressionRef number => trivial

/-- Tokens that are read have their groups declared. -/
theorem Parser.consumeAll_declared {tokens : List Token} {parser next : Parser}
    (hle : parser.groupCount ≤ maxGroups) (h : parser.consumeAll tokens = .ok next) :
    Token.Declared parser.groupCount tokens := by
  induction tokens generalizing parser with
  | nil => exact Token.declared_nil.2 hle
  | cons token tokens ih =>
      rw [consumeAll_cons] at h
      obtain ⟨middle, hmiddle, h⟩ := Except.bind_eq_ok_iff.1 h
      have hallowed := consume_allowed hle hmiddle
      have hcount := (consume_tally hmiddle).groupCount
      have hmiddleLe : middle.groupCount ≤ maxGroups := by
        rw [hcount]
        cases token with
        | opening captures =>
            cases captures with
            | true => exact hallowed
            | false => exact hle
        | _ => exact hle
      exact Token.declared_cons.2 ⟨hallowed, hcount ▸ ih hmiddleLe h⟩

/-- No run starts with a bar. -/
theorem Parser.head?_ne_bar {tokens : List Token} {next : Parser}
    (h : Parser.start.consumeAll tokens = .ok next) : tokens.head? ≠ some .bar := by
  intro hhead
  obtain ⟨rest, rfl⟩ : ∃ rest, tokens = .bar :: rest := by
    cases tokens with
    | nil => cases hhead
    | cons token rest => cases hhead; exact ⟨rest, rfl⟩
  cases h

/-- What a parser needs to come to a good end. -/
theorem Parser.conclude_cases {parser : Parser} {pattern : Pattern}
    (h : parser.conclude = .ok pattern) :
    parser.enclosing = [] ∧ parser.maxExpressionRef ≤ parser.groupCount := by
  unfold conclude at h
  split at h
  · cases h
  · next henclosing =>
      split at h
      · cases h
      · next hmax => exact ⟨not_ne_iff.1 henclosing, Nat.not_lt.1 hmax⟩

/-- Tokens that are read to a good end are those of a valid abstract pattern. -/
theorem Regex.exists_of_consumeAll {tokens : List Token} {parser : Parser} {pattern : Pattern}
    (hrun : Parser.start.consumeAll tokens = .ok parser) (hlast : tokens.getLast? ≠ some .bar)
    (hconclude : parser.conclude = .ok pattern) :
    ∃ regex : Regex, regex.Valid ∧ regex.tokens = tokens := by
  obtain ⟨henclosing, hmax⟩ := Parser.conclude_cases hconclude
  have hstart : Drafted .start [] ⟨[], []⟩ [] := ⟨rfl, rfl, rfl⟩
  obtain ⟨draft, enclosing, htokens, _, hstack⟩ := hstart.consumeAll hrun
  rw [henclosing, List.map_nil, eq_comm, List.map_eq_nil_iff] at hstack
  subst hstack
  have heq : draft.regex.tokens = tokens := (Draft.tokens_close _ _).trans htokens
  have htally := Parser.consumeAll_tally hrun
  have hdeclared := Parser.consumeAll_declared (Nat.zero_le _) hrun
  have hcount : parser.groupCount = tokens.count (.opening true) := by
    rw [htally.groupCount]
    exact Nat.zero_add _
  refine ⟨draft.regex, ⟨?_, ?_, ?_, ?_, ?_⟩, heq⟩
  · rw [heq]
    exact Nat.le_trans (Nat.le_add_left _ _) hdeclared.groups_le
  · rw [heq]
    intro before group after hsplit
    have hle := hdeclared.stringRef_le before group after hsplit
    rwa [show Parser.start.groupCount = 0 from rfl, Nat.zero_add] at hle
  · rw [heq]
    intro group hmem
    rw [← hcount]
    exact ((htally.maxExpressionRef_le _).1 hmax).2 group hmem
  · exact Regex.head?_tokens_ne_bar.1 (heq ▸ Parser.head?_ne_bar hrun)
  · exact Regex.getLast?_tokens_ne_bar.1 (heq ▸ hlast)

/-- The parser accepts the texts of valid patterns and answers with their trees. -/
theorem Pattern.parseChars_eq_ok_iff_build {text : List Char} {pattern : Pattern} :
    Pattern.parseChars text = .ok pattern ↔
      ∃ regex : Regex, regex.Valid ∧ regex.text = text ∧ regex.build = pattern := by
  constructor
  · intro h
    obtain ⟨tokens, parser, rfl, hlast, hrun, hconclude⟩ := Pattern.parseChars_eq_ok_iff.1 h
    obtain ⟨regex, hvalid, rfl⟩ := Regex.exists_of_consumeAll hrun hlast hconclude
    refine ⟨regex, hvalid, rfl, ?_⟩
    exact Except.ok.inj ((Regex.parseChars_text hvalid).symm.trans h)
  · rintro ⟨regex, hvalid, rfl, rfl⟩
    exact Regex.parseChars_text hvalid

/-- A text is accepted when it is the text of a valid pattern, and its tree is the tree of that
pattern. -/
theorem Pattern.parse_eq_ok_iff {text : String} {pattern : Pattern} :
    Pattern.parse text = .ok pattern ↔
      ∃ regex : Regex, regex.Valid ∧ regex.text = text.toList ∧ regex.build = pattern :=
  Pattern.parseChars_eq_ok_iff_build

end Backref
