import Backref.Proofs.Pattern.Build
import Backref.Proofs.Pattern.Lexing

/-!
# Reading a printed pattern

`Regex.consumeAll_tokens` says that the parser reads the tokens of every valid abstract pattern and
builds its tree. The induction is on the abstract syntax; `Parser.Reads` says what the parser does
with the tokens of one part, whatever stands around it. `Parser.Tally` keeps the numbers that any
run adds up.
-/

namespace Backref

namespace Parser

/-! ## What a run adds up -/

/-- From `parser` to `next` the characters, groups and references of the tokens are counted. -/
structure Tally (parser next : Parser) (tokens : List Token) : Prop where
  position : next.position = parser.position + (Token.spellAll tokens).length
  groupCount : next.groupCount = parser.groupCount + tokens.count (.opening true)
  maxExpressionRef_le : ∀ bound, next.maxExpressionRef ≤ bound ↔
    parser.maxExpressionRef ≤ bound ∧
      ∀ group, .expressionRef group ∈ tokens → group.value ≤ bound

/-- Without a token nothing is counted. -/
theorem Tally.refl (parser : Parser) : Tally parser parser [] :=
  ⟨rfl, rfl, fun _ => ⟨fun h => ⟨h, fun _ hmem => by simp at hmem⟩, And.left⟩⟩

/-- Counts of consecutive runs add up. -/
theorem Tally.trans {parser middle next : Parser} {tokens tokens' : List Token}
    (h : Tally parser middle tokens) (h' : Tally middle next tokens') :
    Tally parser next (tokens ++ tokens') := by
  refine ⟨?_, ?_, fun bound => ?_⟩
  · rw [h'.position, h.position, Token.spellAll_append, List.length_append, Nat.add_assoc]
  · rw [h'.groupCount, h.groupCount, List.count_append, Nat.add_assoc]
  · rw [h'.maxExpressionRef_le, h.maxExpressionRef_le, and_assoc]
    simp only [List.mem_append, or_imp, forall_and]

/-- A token that is no expression reference leaves their maximum. -/
theorem Tally.of_eq {parser next : Parser} {token : Token}
    (hposition : next.position = parser.position + token.spell.length)
    (hcount : next.groupCount = parser.groupCount + [token].count (.opening true))
    (hmax : next.maxExpressionRef = parser.maxExpressionRef)
    (htoken : ∀ group, token ≠ .expressionRef group) : Tally parser next [token] := by
  refine ⟨by simpa using hposition, hcount, fun bound => ?_⟩
  rw [hmax, iff_self_and]
  intro _ group hmem
  exact absurd (List.mem_singleton.1 hmem).symm (htoken group)

/-- What one token adds up. -/
theorem consume_tally {parser next : Parser} {token : Token} (h : parser.consume token = .ok next) :
    Tally parser next [token] := by
  cases token with
  | letter c =>
      cases h
      exact .of_eq rfl rfl rfl (fun _ => Token.noConfusion)
  | opening captures =>
      cases captures with
      | true =>
          obtain ⟨middle, hopen, h⟩ := Except.bind_eq_ok_iff.1 h
          obtain ⟨_, rfl⟩ := openCapturing_eq_ok_iff.1 hopen
          cases h
          exact .of_eq rfl rfl rfl (fun _ => Token.noConfusion)
      | false =>
          cases h
          exact .of_eq rfl rfl rfl (fun _ => Token.noConfusion)
  | closing =>
      obtain ⟨middle, hclose, h⟩ := Except.bind_eq_ok_iff.1 h
      obtain ⟨group, enclosing, _, rfl⟩ := close_eq_ok_iff.1 hclose
      cases h
      exact .of_eq rfl rfl rfl (fun _ => Token.noConfusion)
  | star =>
      obtain ⟨middle, hstar, h⟩ := Except.bind_eq_ok_iff.1 h
      obtain ⟨item, items, _, _, rfl⟩ := star_eq_ok_iff.1 hstar
      cases h
      exact .of_eq rfl rfl rfl (fun _ => Token.noConfusion)
  | bar =>
      obtain ⟨middle, hbar, h⟩ := Except.bind_eq_ok_iff.1 h
      obtain ⟨_, count, choice, rfl⟩ := bar_cases hbar
      cases h
      exact .of_eq rfl rfl rfl (fun _ => Token.noConfusion)
  | expressionRef group =>
      cases h
      refine ⟨rfl, rfl, fun bound => ?_⟩
      show max parser.maxExpressionRef group.value ≤ bound ↔ _
      rw [Nat.max_le]
      simp
  | stringRef group =>
      simp only [consume] at h
      split at h
      · cases h
      · cases h
        exact .of_eq rfl rfl rfl (fun _ => Token.noConfusion)

/-- What a run adds up. -/
theorem consumeAll_tally {tokens : List Token} {parser next : Parser}
    (h : parser.consumeAll tokens = .ok next) : Tally parser next tokens := by
  induction tokens generalizing parser with
  | nil => cases h; exact .refl _
  | cons token tokens ih =>
      rw [consumeAll_cons] at h
      obtain ⟨middle, hmiddle, h⟩ := Except.bind_eq_ok_iff.1 h
      exact (consume_tally hmiddle).trans (ih h)

/-! ## Reading the parts of a pattern -/

/-- The place at which the parser stands. -/
def cursor (parser : Parser) : Cursor := ⟨parser.position, parser.nextId, parser.groupCount⟩

/-- The parser reads the tokens, changes its level and its place as given, and has the same groups
open as before. -/
def Reads (parser : Parser) (tokens : List Token) (level : Level) (cursor : Cursor) : Prop :=
  ∃ next, parser.consumeAll tokens = .ok next ∧ next.level = level ∧ next.cursor = cursor ∧
    next.enclosing = parser.enclosing

/-- Reading one part after another. -/
theorem Reads.append {parser : Parser} {tokens tokens' : List Token} {level level' : Level}
    {cursor cursor' : Cursor} (h : parser.Reads tokens level cursor)
    (h' : ∀ next : Parser, Tally parser next tokens → next.level = level →
      next.cursor = cursor → next.Reads tokens' level' cursor') :
    parser.Reads (tokens ++ tokens') level' cursor' := by
  obtain ⟨middle, hmiddle, hlevel, hcursor, henclosing⟩ := h
  obtain ⟨next, hnext, hlevel', hcursor', henclosing'⟩ :=
    h' middle (consumeAll_tally hmiddle) hlevel hcursor
  refine ⟨next, ?_, hlevel', hcursor', henclosing'.trans henclosing⟩
  rw [consumeAll_append, hmiddle]
  exact hnext

/-- Reading one token. -/
theorem Reads.single {parser next : Parser} {token : Token} (h : parser.consume token = .ok next)
    (henclosing : next.enclosing = parser.enclosing) :
    parser.Reads [token] next.level next.cursor :=
  ⟨next, (consumeAll_singleton parser token).trans h, rfl, rfl, henclosing⟩

/-- The star of the item that has been read last. -/
theorem reads_starIf {parser : Parser} {level : Level} {node : Node} (starred : Bool)
    (hlevel : parser.level = level.add node) (hnode : node.kind.isRepeatable) :
    parser.Reads (Token.starIf starred)
      (level.add (Node.starIf starred node parser.cursor).1)
      (Node.starIf starred node parser.cursor).2 := by
  cases starred with
  | false => exact ⟨parser, rfl, hlevel, rfl, rfl⟩
  | true =>
      have hitems : parser.level.items = node :: level.items := by rw [hlevel]; rfl
      have hstar := star_eq_ok_iff.2 ⟨node, level.items, hitems, hnode, rfl⟩
      have hconsume : parser.consume .star = .ok _ := Except.bind_eq_ok_iff.2 ⟨_, hstar, rfl⟩
      have hreads := Reads.single hconsume rfl
      rw [hlevel] at hreads
      exact hreads

/-- A leaf and its star. -/
theorem reads_leaf {parser next : Parser} {token : Token} {node : Node} {cursor : Cursor}
    (starred : Bool) (h : parser.consume token = .ok next)
    (henclosing : next.enclosing = parser.enclosing) (hlevel : next.level = parser.level.add node)
    (hcursor : next.cursor = cursor) (hnode : node.kind.isRepeatable) :
    parser.Reads (token :: Token.starIf starred)
      (parser.level.add (Node.starIf starred node cursor).1)
      (Node.starIf starred node cursor).2 := by
  refine (Reads.single h henclosing).append fun after _ hafter hplace => ?_
  rw [hcursor] at hplace
  rw [← hplace]
  exact reads_starIf starred (hafter.trans hlevel) hnode

end Parser

/-- Appends some items. -/
def Level.addAll (level : Level) (nodes : List Node) : Level :=
  { level with items := nodes.reverse ++ level.items }

/-- Items can be appended one by one. -/
theorem Level.addAll_cons (level : Level) (node : Node) (nodes : List Node) :
    level.addAll (node :: nodes) = (level.add node).addAll nodes := by
  unfold Level.addAll Level.add
  rw [List.reverse_cons, List.append_assoc]
  rfl

/-- The children of the node that owns the level when branches follow up to its end. -/
def Level.nodesWith (level : Level) (cursor : Cursor) (branches : List Node) : List Node :=
  match level.choice with
  | none => Node.alternate level.items.reverse cursor branches
  | some choice => [⟨choice.label, .alternation, (choice.close level.items).reverse ++ branches⟩]

/-- The place from which these branches are built. -/
def Level.branchCursor (level : Level) (cursor : Cursor) (others : List (List Item)) : Cursor :=
  match level.choice with
  | none => cursor.alternate others
  | some _ => cursor

/-- Without another branch the level ends as it is. -/
theorem Level.nodesWith_nil (level : Level) (cursor : Cursor) :
    level.nodesWith cursor [] = level.nodes := by
  unfold Level.nodesWith Level.nodes
  cases level.choice with
  | none => rfl
  | some choice => exact congrArg (fun nodes => [Node.mk _ _ nodes]) (List.append_nil _)

/-- The items of a level begin where its sequence of nodes does. -/
theorem Level.beginning_eq (level : Level) (cursor : Cursor) :
    level.beginning cursor.position = Node.beginning level.items.reverse cursor := by
  unfold Level.beginning Node.beginning
  rw [List.head?_reverse]
  cases level.items.getLast? <;> rfl

/-- A bar closes what stands before it as a branch and starts the next one. -/
theorem Parser.consume_bar {parser : Parser} (h : parser.position ≠ 0) (items : List Item)
    (others : List (List Item)) {place : Cursor}
    (hplace : parser.level.branchCursor parser.cursor (items :: others) = place) :
    ∃ next choice, parser.consume .bar = .ok next ∧ next.level = ⟨[], some choice⟩ ∧
      next.enclosing = parser.enclosing ∧ next.cursor = place.skip 1 1 ∧
      ∀ nodes branches cursor, (Level.mk nodes (some choice)).nodesWith cursor branches =
        parser.level.nodesWith parser.cursor
          (⟨⟨place.nextId, place.position + 1⟩, .branch, nodes.reverse⟩ :: branches) := by
  obtain ⟨position, nextId, groupCount, maxRef, pending, ⟨present, choice⟩, enclosing⟩ := parser
  replace h : position ≠ 0 := h
  subst hplace
  cases choice with
  | none =>
      refine ⟨_, _, Except.bind_eq_ok_iff.2 ⟨_, by unfold Parser.bar; rw [if_neg h], rfl⟩, rfl, rfl,
        rfl, fun nodes branches cursor => ?_⟩
      have hbeginning := Level.beginning_eq ⟨present, none⟩ ⟨position, nextId, groupCount⟩
      simp only [Level.nodesWith, Node.alternate, Choice.close, Parser.cursor]
      rw [← hbeginning]
      rfl
  | some choice =>
      refine ⟨_, _, Except.bind_eq_ok_iff.2 ⟨_, by unfold Parser.bar; rw [if_neg h], rfl⟩, rfl, rfl,
        rfl, fun nodes branches cursor => ?_⟩
      simp [Level.nodesWith, Level.branchCursor, Choice.close, Parser.cursor]

/-- An opening parenthesis starts an empty level around which the present one waits. -/
theorem Parser.consume_opening {parser : Parser} {captures : Bool}
    (h : (Token.opening captures).Allowed parser.groupCount) :
    ∃ next, parser.consume (.opening captures) = .ok next ∧ next.level = .start ∧
      next.enclosing = ⟨parser.cursor.label, parser.cursor.groupNumber? captures, parser.level⟩ ::
        parser.enclosing ∧
      next.cursor = parser.cursor.enter captures := by
  cases captures with
  | true =>
      have hopen : parser.openCapturing parser.position = .ok _ :=
        openCapturing_eq_ok_iff.2 ⟨Nat.ne_of_lt h, rfl⟩
      exact ⟨_, Except.bind_eq_ok_iff.2 ⟨_, hopen, rfl⟩, rfl, rfl, rfl⟩
  | false => exact ⟨_, rfl, rfl, rfl, rfl⟩

/-- A closing parenthesis puts the group into the level in which it stands. -/
theorem Parser.consume_closing {parser : Parser} {group : OpenGroup} {enclosing : List OpenGroup}
    (h : parser.enclosing = group :: enclosing) :
    ∃ next, parser.consume .closing = .ok next ∧
      next.level = group.outer.add ⟨group.label, .group group.number, parser.level.nodes⟩ ∧
      next.enclosing = enclosing ∧ next.cursor = parser.cursor.skip 1 0 := by
  have hclose := close_eq_ok_iff.2 ⟨group, enclosing, h, rfl⟩
  exact ⟨_, Except.bind_eq_ok_iff.2 ⟨_, hclose, rfl⟩, rfl, rfl, rfl⟩

/-- The parser reads a sequence and appends its nodes. -/
def Item.SequenceReads (items : List Item) : Prop :=
  ∀ parser : Parser, Token.Declared parser.groupCount (Item.sequenceTokens items) →
    parser.Reads (Item.sequenceTokens items)
      (parser.level.addAll (Item.buildSequence items parser.cursor).1)
      (Item.buildSequence items parser.cursor).2

/-- The parser reads branches up to the end of a level. -/
def Item.BranchesRead (others : List (List Item)) : Prop :=
  ∀ parser : Parser, (others ≠ [] → parser.position ≠ 0) →
    Token.Declared parser.groupCount (Item.barredTokens others) →
    ∃ level,
      parser.Reads (Item.barredTokens others) level
        (Item.buildBranches others (parser.level.branchCursor parser.cursor others)).2 ∧
      level.nodes = parser.level.nodesWith parser.cursor
        (Item.buildBranches others (parser.level.branchCursor parser.cursor others)).1

/-- A whole body is read when its parts are. -/
theorem Regex.body_reads (regex : Regex) (hfirst : Item.SequenceReads regex.first)
    (hothers : Item.BranchesRead regex.others) (parser : Parser) (hlevel : parser.level = .start)
    (hbar : regex.others ≠ [] → parser.position ≠ 0 ∨ regex.first ≠ [])
    (h : Token.Declared parser.groupCount regex.tokens) :
    ∃ level, parser.Reads regex.tokens level (regex.buildBody parser.cursor).2 ∧
      level.nodes = (regex.buildBody parser.cursor).1 := by
  obtain ⟨hdeclared, hdeclared'⟩ := Token.declared_append.1 h
  obtain ⟨middle, hmiddle, hmiddleLevel, hmiddleCursor, hmiddleEnclosing⟩ :=
    hfirst parser hdeclared
  have htally := Parser.consumeAll_tally hmiddle
  have hposition : regex.others ≠ [] → middle.position ≠ 0 := by
    intro hne
    rw [htally.position]
    rcases hbar hne with hposition | hitems
    · omega
    · have hlength := Token.length_spellAll_pos (Item.sequenceTokens_ne_nil hitems)
      omega
  obtain ⟨level, ⟨last, hlast, hlastLevel, hlastCursor, hlastEnclosing⟩, hnodes⟩ :=
    hothers middle hposition (htally.groupCount ▸ hdeclared')
  rw [hlevel] at hmiddleLevel
  rw [hmiddleLevel, hmiddleCursor] at hlastCursor hnodes
  refine ⟨level, ⟨last, ?_, hlastLevel, hlastCursor, hlastEnclosing.trans hmiddleEnclosing⟩, ?_⟩
  · show parser.consumeAll (_ ++ _) = _
    rw [Parser.consumeAll_append, hmiddle]
    exact hlast
  · rw [hnodes]
    simp only [Level.addAll, Level.nodesWith, Level.start, List.append_nil, List.reverse_reverse]
    rfl

mutual

/-- The parser reads an item and appends its node. -/
theorem Item.reads (item : Item) (parser : Parser)
    (h : Token.Declared parser.groupCount item.tokens) :
    parser.Reads item.tokens (parser.level.add (item.build parser.cursor).1)
      (item.build parser.cursor).2 := by
  match item with
  | .letter c starred => exact Parser.reads_leaf starred rfl rfl rfl rfl rfl
  | .group captures first others starred =>
      rw [Item.tokens_group, Token.declared_cons, Token.declared_append] at h
      obtain ⟨hallowed, hbody, _⟩ := h
      obtain ⟨opened, hopened, hopenedLevel, hopenedEnclosing, hopenedCursor⟩ :=
        Parser.consume_opening hallowed
      have htally := Parser.consume_tally hopened
      -- A bar in the body is not the first character of the text, as `(` stands before it.
      have hposition : opened.position ≠ 0 := by
        have hlength := Token.length_spell_pos (.opening captures)
        have := htally.position
        simp only [Token.spellAll_cons, Token.spellAll_nil, List.append_nil] at this
        omega
      obtain ⟨level, ⟨read, hread, hreadLevel, hreadCursor, hreadEnclosing⟩, hnodes⟩ :=
        Regex.body_reads ⟨first, others⟩ (Item.sequence_reads first)
          (Item.branches_read others) opened hopenedLevel (fun _ => .inl hposition)
          (htally.groupCount ▸ hbody)
      obtain ⟨closed, hclosed, hclosedLevel, hclosedEnclosing, hclosedCursor⟩ :=
        Parser.consume_closing (hreadEnclosing.trans hopenedEnclosing)
      rw [hreadLevel, hnodes, hopenedCursor] at hclosedLevel
      rw [hreadCursor, hopenedCursor] at hclosedCursor
      -- Only the star of the group is left, and the group is the last item then.
      have hrun : parser.consumeAll
          (.opening captures :: ((Regex.mk first others).tokens ++ [.closing])) = .ok closed := by
        rw [Parser.consumeAll_cons, hopened]
        show opened.consumeAll ((Regex.mk first others).tokens ++ [.closing]) = _
        rw [Parser.consumeAll_snoc hread, hclosed]
      have hgroup : parser.Reads (.opening captures ::
          ((Regex.mk first others).tokens ++ [.closing])) closed.level closed.cursor :=
        ⟨closed, hrun, rfl, rfl, hclosedEnclosing⟩
      rw [Item.tokens_group, Item.build_group, List.append_cons, ← List.cons_append]
      refine hgroup.append fun next _ hnextLevel hnextCursor => ?_
      rw [← hclosedCursor, ← hnextCursor]
      exact Parser.reads_starIf starred (hnextLevel.trans hclosedLevel) rfl
  | .expressionRef number starred =>
      have hconsume : parser.consume (.expressionRef number) = .ok _ := rfl
      exact Parser.reads_leaf starred hconsume rfl rfl rfl rfl
  | .stringRef number =>
      have hdeclared : ¬ parser.groupCount < number.value :=
        Nat.not_lt.2 (Token.declared_cons.1 h).1
      have hconsume : parser.consume (.stringRef number) = .ok _ := if_neg hdeclared
      exact Parser.Reads.single hconsume rfl

/-- The parser reads a sequence. -/
theorem Item.sequence_reads (items : List Item) : Item.SequenceReads items := by
  intro parser h
  match items with
  | [] => exact ⟨parser, rfl, rfl, rfl, rfl⟩
  | item :: items =>
      obtain ⟨hitem, hitems⟩ := Token.declared_append.1 h
      refine (Item.reads item parser hitem).append fun next htally hlevel hcursor => ?_
      rw [← htally.groupCount] at hitems
      have hreads := Item.sequence_reads items next hitems
      rw [hlevel, hcursor, ← Level.addAll_cons] at hreads
      exact hreads

/-- The parser reads branches. -/
theorem Item.branches_read (others : List (List Item)) : Item.BranchesRead others := by
  intro parser hposition h
  match others with
  | [] =>
      refine ⟨parser.level, ⟨parser, rfl, rfl, ?_, rfl⟩, (Level.nodesWith_nil _ _).symm⟩
      unfold Level.branchCursor
      split <;> rfl
  | items :: others =>
      obtain ⟨_, hdeclared⟩ := Token.declared_cons.1 h
      obtain ⟨hitems, hothers⟩ := Token.declared_append.1 hdeclared
      obtain ⟨next, choice, hbar, hlevel, henclosing, hcursor, hnodes⟩ :=
        Parser.consume_bar (hposition (by simp)) items others rfl
      -- After the bar come the items of the branch and then the other branches.
      have htally := Parser.consume_tally hbar
      obtain ⟨middle, hmiddle, hmiddleLevel, hmiddleCursor, hmiddleEnclosing⟩ :=
        Item.sequence_reads items next (htally.groupCount ▸ hitems)
      have hmiddleTally := Parser.consumeAll_tally hmiddle
      obtain ⟨level, ⟨last, hlast, hlastLevel, hlastCursor, hlastEnclosing⟩, hlevelNodes⟩ :=
        Item.branches_read others middle
          (fun _ => by rw [hmiddleTally.position, htally.position]; simp [Token.spell])
          (by rw [hmiddleTally.groupCount, htally.groupCount]; exact hothers)
      rw [hlevel] at hmiddleLevel
      rw [hmiddleLevel, hmiddleCursor, hcursor] at hlastCursor hlevelNodes
      refine ⟨level, ⟨last, ?_, hlastLevel, hlastCursor,
        hlastEnclosing.trans (hmiddleEnclosing.trans henclosing)⟩, ?_⟩
      · show parser.consumeAll (.bar :: (Item.sequenceTokens items ++ Item.barredTokens others)) = _
        rw [Parser.consumeAll_cons, hbar]
        show next.consumeAll (Item.sequenceTokens items ++ Item.barredTokens others) = _
        rw [Parser.consumeAll_append, hmiddle]
        exact hlast
      · rw [hlevelNodes]
        unfold Level.addAll
        rw [hnodes, List.append_nil, List.reverse_reverse]
        rfl

end

/-- The tokens of a valid pattern are read to a good end, and its tree is what has been read. -/
theorem Regex.consumeAll_tokens {regex : Regex} (h : regex.Valid) :
    ∃ parser, Parser.start.consumeAll regex.tokens = .ok parser ∧
      parser.conclude = .ok regex.build := by
  obtain ⟨level, ⟨parser, hrun, hlevel, _, henclosing⟩, hnodes⟩ :=
    Regex.body_reads regex (Item.sequence_reads regex.first) (Item.branches_read regex.others)
      Parser.start rfl (fun hne => .inr (h.first_ne_nil hne)) h.declared
  have htally := Parser.consumeAll_tally hrun
  have hcount : parser.groupCount = regex.tokens.count (.opening true) := by
    rw [htally.groupCount]
    exact Nat.zero_add _
  have hmax : parser.maxExpressionRef ≤ parser.groupCount := by
    rw [hcount, htally.maxExpressionRef_le]
    exact ⟨Nat.zero_le _, h.expressionRef_le⟩
  have hclosed : ¬ parser.enclosing ≠ [] := not_not_intro henclosing
  refine ⟨parser, hrun, ?_⟩
  unfold Parser.conclude
  rw [if_neg hclosed, if_neg (Nat.not_lt.2 hmax), hlevel, hnodes]
  rfl

/-- The text of a valid pattern is read as its tree. -/
theorem Regex.parseChars_text {regex : Regex} (h : regex.Valid) :
    Pattern.parseChars regex.text = .ok regex.build := by
  obtain ⟨parser, hrun, hconclude⟩ := Regex.consumeAll_tokens h
  exact Pattern.parseChars_eq_ok_iff.2 ⟨regex.tokens, parser, rfl,
    Regex.getLast?_tokens_ne_bar.2 h.last_ne_nil, hrun, hconclude⟩

end Backref
