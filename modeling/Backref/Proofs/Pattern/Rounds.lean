import Backref.Proofs.Pattern.Mirror

/-!
# The builder reads what the parser reads

`Builder.Traces` says that the builder has read some tokens and mirrors the parser that has read
them. `Builder.Traces.read` says what comes of the next character: the builder traces the parser
after one token more, or it ends with the rejection of the text, and it is never stuck.
-/

namespace Backref

/-! ## What a star may follow -/

/-- The last character of the token is a letter or a closing parenthesis. -/
def Token.endsAtom : Token → Bool
  | .letter _ | .closing | .expressionRef _ => true
  | .opening _ | .star | .bar | .stringRef _ => false

/-- Digits are not letters. -/
theorem GroupNumber.not_isLetter_digit (group : GroupNumber) :
    ¬Alphabet.isLetter group.digit := by
  intro h
  have hrange := Alphabet.of_eq_letter_iff.1 (of_decide_eq_true h)
  have hdigit := group.toNat_digit
  have hle : group.value ≤ 9 := group.le
  omega

/-- The last character of a token shows whether a star may follow. -/
theorem Token.exists_last (token : Token) : ∃ front c, token.spell = front ++ [c] ∧
    decide (c = ')' ∨ Alphabet.isLetter c) = token.endsAtom := by
  cases token with
  | letter c => exact ⟨[], c.char, rfl, decide_eq_true (.inr c.isLetter)⟩
  | opening captures =>
      cases captures with
      | true => exact ⟨[], '(', rfl, rfl⟩
      | false => exact ⟨['(', '?'], ':', rfl, rfl⟩
  | closing => exact ⟨[], ')', rfl, rfl⟩
  | star => exact ⟨[], '*', rfl, rfl⟩
  | bar => exact ⟨[], '|', rfl, rfl⟩
  | expressionRef group => exact ⟨['(', '?', group.digit], ')', rfl, rfl⟩
  | stringRef group =>
      exact ⟨['\\'], group.digit, rfl,
        decide_eq_false (not_or.2 ⟨group.digit_ne (by decide), group.not_isLetter_digit⟩)⟩

/-- Only a parenthesis that captures ends with an opening parenthesis. -/
theorem Token.eq_opening_of_getLast? {token : Token} (h : token.spell.getLast? = some '(') :
    token = .opening true := by
  cases token with
  | letter c => exact absurd (Option.some.inj h) (Alphabet.ne_of_isLetter c.isLetter (by decide))
  | opening captures =>
      cases captures with
      | true => rfl
      | false => cases h
  | stringRef group => exact absurd (Option.some.inj h) (group.digit_ne (by decide))
  | _ => cases h

/-- The token may stand before the rest of a text: something follows a bar, and no question mark
follows a parenthesis that captures. -/
def Token.StandsBefore (rest : List Char) : Token → Prop
  | .bar => rest ≠ []
  | .opening true => rest.head? ≠ some '?'
  | .opening false | .letter _ | .closing | .star | .expressionRef _ | .stringRef _ => True

namespace Parser

/-- A star may follow the last item that has been read. -/
def endsRepeatable (parser : Parser) : Bool :=
  parser.level.items.head?.any fun item => item.kind.isRepeatable

/-- A token shows by its last character whether a star may follow. -/
theorem endsRepeatable_of_consume {parser next : Parser} {token : Token}
    (h : parser.consume token = .ok next) : next.endsRepeatable = token.endsAtom := by
  cases token with
  | letter c => cases h; rfl
  | opening captures =>
      cases captures with
      | true =>
          obtain ⟨middle, hopen, h⟩ := Except.bind_eq_ok_iff.1 h
          obtain ⟨_, rfl⟩ := openCapturing_eq_ok_iff.1 hopen
          cases h
          rfl
      | false => cases h; rfl
  | closing =>
      obtain ⟨middle, hclose, h⟩ := Except.bind_eq_ok_iff.1 h
      obtain ⟨_, _, _, rfl⟩ := close_eq_ok_iff.1 hclose
      cases h
      rfl
  | star =>
      obtain ⟨middle, hstar, h⟩ := Except.bind_eq_ok_iff.1 h
      obtain ⟨_, _, _, _, rfl⟩ := star_eq_ok_iff.1 hstar
      cases h
      rfl
  | bar =>
      obtain ⟨middle, hbar, h⟩ := Except.bind_eq_ok_iff.1 h
      obtain ⟨_, _, _, rfl⟩ := bar_cases hbar
      cases h
      rfl
  | expressionRef group => cases h; rfl
  | stringRef group =>
      simp only [consume] at h
      split at h
      · cases h
      · cases h
        rfl

/-- A star is read where it may follow, and refused elsewhere. -/
theorem star_cases (parser : Parser) :
    (parser.endsRepeatable = true ∧ ∃ next, parser.star = .ok next) ∨
      (parser.endsRepeatable = false ∧
        parser.star = .error (.misplacedStar parser.position)) := by
  unfold endsRepeatable star
  cases parser.level.items with
  | nil => exact .inr ⟨rfl, rfl⟩
  | cons item items =>
      cases hitem : item.kind.isRepeatable with
      | true => exact .inl ⟨hitem, _, if_pos hitem⟩
      | false => exact .inr ⟨hitem, if_neg (Bool.eq_false_iff.1 hitem)⟩

end Parser

/-! ## What is still to be read -/

namespace Parser

variable {parser next base : Parser} {c : Char} {rest : List Char} {rejection : Rejection}

/-- The answer of the parser when the rest of the text is as given. -/
def answer (parser : Parser) (rest : List Char) : Except Rejection Pattern := do
  let last ← rest.foldlM feed parser
  last.finish

/-- At its end the text is concluded. -/
theorem answer_nil (parser : Parser) : parser.answer [] = parser.finish := rfl

/-- A character that is refused ends the text. -/
theorem answer_of_error (h : parser.feed c = .error rejection) :
    parser.answer (c :: rest) = .error rejection := by
  rw [answer, List.foldlM_cons, h]
  rfl

/-- A character that is read leaves the rest. -/
theorem answer_of_ok (h : parser.feed c = .ok next) :
    parser.answer (c :: rest) = next.answer rest := by
  rw [answer, List.foldlM_cons, h]
  rfl

/-- The answer after some characters that have been read. -/
theorem answer_append {front : List Char} (h : front.foldlM feed start = .ok parser) :
    Pattern.parseChars (front ++ rest) = parser.answer rest := by
  rw [Pattern.parseChars, List.foldlM_append, h]
  rfl

/-- A character outside the alphabet is refused by every parser. -/
theorem answer_of_not_contains (h : ¬Alphabet.contains c) :
    parser.answer (c :: rest) = .error (.invalidChar c parser.position) :=
  answer_of_error (if_neg h)

/-- A character with which no construct can begin is refused. -/
theorem answer_of_begin (h : parser.settle = .ok base) (hc : Alphabet.contains c) (hquery : c ≠ '?')
    (hbegin : base.begin c = .error rejection) : parser.answer (c :: rest) = .error rejection := by
  refine answer_of_error ?_
  rw [feed_of_settle h hc hquery, hbegin]
  rfl

/-- A question mark is refused except after a parenthesis. -/
theorem answer_of_questionMark (h : parser.settle = .ok base)
    (hpending : ∀ start, parser.pending ≠ .parenthesis start) :
    parser.answer ('?' :: rest) = .error (.unexpectedChar '?' base.position) := by
  refine answer_of_error ?_
  rw [feed, if_pos (by decide)]
  refine Except.bind_eq_error_iff.2 (.inl ?_)
  unfold read
  obtain ⟨hnothing | ⟨index, hbar⟩, rfl⟩ | ⟨start, hparenthesis, _⟩ := settle_cases h
  · rw [hnothing]
    rfl
  · rw [hbar]
    rfl
  · exact absurd hparenthesis (hpending start)

/-- After a backslash only a digit can stand. -/
theorem answer_backslash (start : Nat) (hc : Alphabet.contains c)
    (hgroup : Alphabet.groupNumber? c = none) :
    (parser.hold (.backslash start) 1).answer (c :: rest) =
      .error (.unexpectedChar c (parser.position + 1)) := by
  refine answer_of_error ?_
  rw [feed, if_pos hc]
  show ((parser.hold (.backslash start) 1).afterBackslash start c >>= _) = _
  rw [afterBackslash, hgroup]
  rfl

/-- After `(?` only `:` or a digit can stand. -/
theorem answer_query (start : Nat) (hc : Alphabet.contains c) (hcolon : c ≠ ':')
    (hgroup : Alphabet.groupNumber? c = none) :
    (parser.hold (.query start) 2).answer (c :: rest) =
      .error (.unexpectedChar c (parser.position + 2)) := by
  refine answer_of_error ?_
  rw [feed, if_pos hc]
  show ((parser.hold (.query start) 2).afterQuery start c >>= _) = _
  rw [afterQuery, if_neg hcolon, hgroup]
  rfl

/-- After `(?N` only `)` can stand. -/
theorem answer_queryDigit (start group : Nat) (hc : Alphabet.contains c) (hclosing : c ≠ ')') :
    (parser.hold (.queryDigit start group) 3).answer (c :: rest) =
      .error (.unexpectedChar c (parser.position + 3)) := by
  refine answer_of_error ?_
  rw [feed, if_pos hc]
  show ((parser.hold (.queryDigit start group) 3).afterQueryDigit start group c >>= _) = _
  rw [afterQueryDigit, if_neg hclosing]
  rfl

/-- An opening parenthesis is pending only after an opening parenthesis that captures. -/
theorem getLast?_of_pending {tokens : List Token} {start : Nat}
    (h : (Token.spellAll tokens).foldlM feed Parser.start = .ok parser)
    (hpending : parser.pending = .parenthesis start) : tokens.getLast? = some (.opening true) := by
  obtain ⟨tokens', front, hlexed, hspell⟩ := Lexed.of_foldlM h
  have hlast : (Token.spellAll tokens).getLast? = some '(' := by
    cases hlexed with
    | settled hrun => exact nomatch (consumeAll_pending hrun).symm.trans hpending
    | parenthesis => rw [← hspell, List.getLast?_concat]
    | bar | query | queryDigit | backslash => exact nomatch hpending
  cases tokens using List.reverseRecOn with
  | nil => cases hlast
  | append_singleton tokens token =>
      rw [Token.spellAll_append, Token.spellAll_cons, Token.spellAll_nil, List.append_nil,
        List.getLast?_append_of_ne_nil _ (List.length_pos_iff.1 token.length_spell_pos)] at hlast
      rw [List.getLast?_concat, Token.eq_opening_of_getLast? hlast]

/-- A settled parser stands where it stood before. -/
theorem settle_position (h : parser.settle = .ok base) : base.position = parser.position := by
  obtain ⟨_, rfl⟩ | ⟨start, _, hopen⟩ := settle_cases h
  · rfl
  · obtain ⟨_, rfl⟩ := openCapturing_eq_ok_iff.1 hopen
    rfl

/-- At the end a parser without a pending bar concludes what it has settled. -/
theorem finish_of_settle (h : parser.settle = .ok base)
    (hbar : ∀ index, parser.pending ≠ .bar index) : parser.finish = base.conclude := by
  unfold finish
  obtain ⟨hpending | ⟨index, hpending⟩, rfl⟩ | ⟨start, hpending, hopen⟩ := settle_cases h
  · rw [hpending]
    rfl
  · exact absurd hpending (hbar index)
  · rw [hpending]
    dsimp only
    rw [hopen]
    rfl

end Parser

namespace Builder

variable {builder next : Builder} {tokens : List Token} {rest : List Char} {text : List Char}
  {parser parser' : Parser}

/-- The builder has read the tokens before the rest of the text and mirrors the parser that has read
them. -/
structure Traces (builder : Builder) (tokens : List Token) (rest : List Char) (parser : Parser) :
    Prop extends builder.Mirrors parser where
  consumed : Parser.start.consumeAll tokens = .ok parser
  standsBefore : ∀ token ∈ tokens.getLast?, token.StandsBefore rest

/-- Before the first round nothing has been read. -/
theorem traces_start (text : List Char) : Builder.start.Traces [] text .start where
  toMirrors := mirrors_start
  consumed := rfl
  standsBefore := fun _ hlast => nomatch hlast

namespace Traces

/-- The builder stands after the tokens. -/
theorem position_eq (h : builder.Traces tokens rest parser) :
    builder.position = (Token.spellAll tokens).length := by
  rw [h.position, (Parser.consumeAll_tally h.consumed).position]
  exact Nat.zero_add _

/-- The characters from the position of the builder on are those of the rest. -/
theorem charAt_eq (h : builder.Traces tokens rest parser) (count : Nat) :
    charAt (Token.spellAll tokens ++ rest) (builder.position + count) =
      checked (builder.position + count) rest[count]? := by
  rw [charAt, h.position_eq, List.getElem?_append_right (Nat.le_add_right _ _),
    Nat.add_sub_cancel_left]

/-- The parser that has read the characters of the tokens settles to the one that is mirrored. -/
theorem exists_settle (h : builder.Traces tokens rest parser) : ∃ fed : Parser,
    fed.settle = .ok parser ∧ fed.position = parser.position ∧
    (rest = [] → ∀ index, fed.pending ≠ .bar index) ∧
    (rest.head? = some '?' → ∀ start, fed.pending ≠ .parenthesis start) ∧
      ∀ later, Pattern.parseChars (Token.spellAll tokens ++ later) = fed.answer later := by
  obtain ⟨fed, hfed, hsettle, hbar⟩ := Parser.feed_spellAll h.consumed
  refine ⟨fed, hsettle, (Parser.settle_position hsettle).symm, ?_, ?_,
    fun later => Parser.answer_append hfed⟩
  · intro hrest
    exact hbar fun hlast => h.standsBefore _ hlast hrest
  · intro hrest start hpending
    exact h.standsBefore _ (Parser.getLast?_of_pending hfed hpending) hrest

/-- The character before the builder shows whether a star may follow. -/
theorem followsAtom_eq (h : builder.Traces tokens rest parser) :
    followsAtom (Token.spellAll tokens ++ rest) builder.position = parser.endsRepeatable := by
  rw [h.position_eq]
  have hconsumed := h.consumed
  cases tokens using List.reverseRecOn with
  | nil =>
      cases hconsumed
      rfl
  | append_singleton tokens token =>
      rw [Parser.consumeAll_append] at hconsumed
      obtain ⟨before, _, hconsume⟩ := Except.bind_eq_ok_iff.1 hconsumed
      rw [Parser.consumeAll_singleton] at hconsume
      obtain ⟨front, c, hspell, hlast⟩ := token.exists_last
      have htext : Token.spellAll (tokens ++ [token]) = Token.spellAll tokens ++ front ++ [c] := by
        rw [Token.spellAll_append, Token.spellAll_cons, Token.spellAll_nil, hspell, List.append_nil,
          List.append_assoc]
      rw [htext, List.length_append, List.append_assoc]
      show ((Token.spellAll tokens ++ front ++ ([c] ++ rest))[
        (Token.spellAll tokens ++ front).length]?.any _) = _
      rw [List.getElem?_append_right (Nat.le_refl _), Nat.sub_self,
        Parser.endsRepeatable_of_consume hconsume]
      exact hlast

/-- After one token more. -/
theorem snoc {token : Token} {later : List Char} (h : builder.Traces tokens rest parser)
    (hnext : next.Mirrors parser') (hconsume : parser.consume token = .ok parser')
    (hlater : token.StandsBefore later) : next.Traces (tokens ++ [token]) later parser' where
  toMirrors := hnext
  consumed := (Parser.consumeAll_snoc h.consumed token).trans hconsume
  standsBefore := by
    intro last hlast
    rw [List.getLast?_concat] at hlast
    exact Option.some.inj hlast ▸ hlater

end Traces

/-! ## One round -/

/-- The builder goes on as the parser does: it has read one more token of the text, or it stops with
the rejection of the text. -/
def Follows (text : List Char) : Except Stop Builder → Prop
  | .ok next => ∃ tokens rest parser,
      next.Traces tokens rest parser ∧ Token.spellAll tokens ++ rest = text
  | .error (.rejected rejection) => Pattern.parseChars text = .error rejection
  | .error (.stuck _) => False

namespace Traces

/-- The next token is read. -/
theorem follows_ok (token : Token) {result : Except Stop Builder}
    (h : builder.Traces tokens (token.spell ++ rest) parser) (hresult : result = .ok next)
    (hnext : next.Mirrors parser') (hconsume : parser.consume token = .ok parser')
    (hrest : token.StandsBefore rest) :
    Follows (Token.spellAll tokens ++ (token.spell ++ rest)) result := by
  subst hresult
  refine ⟨_, rest, parser', h.snoc hnext hconsume hrest, ?_⟩
  rw [Token.spellAll_append, Token.spellAll_cons, Token.spellAll_nil, List.append_nil,
    List.append_assoc]

/-- The text is refused by the parser that has read the tokens. -/
theorem follows_error {result : Except Stop Builder} {later : List Char}
    (h : builder.Traces tokens rest parser) (rejection : Rejection)
    (hresult : result = .error (.rejected rejection))
    (hanswer : ∀ fed : Parser, fed.settle = .ok parser → fed.position = parser.position →
      fed.answer later = .error rejection) : Follows (Token.spellAll tokens ++ later) result := by
  subst hresult
  obtain ⟨fed, hsettle, hposition, _, _, hparse⟩ := h.exists_settle
  exact (hparse later).trans (hanswer fed hsettle hposition)

/-- Nothing is pending between tokens. -/
theorem pending_eq (h : builder.Traces tokens rest parser) :
    { parser with pending := .nothing } = parser := by
  rw [← Parser.consumeAll_pending h.consumed]

/-- A star. -/
theorem readStar (h : builder.Traces tokens ('*' :: rest) parser) :
    Follows (Token.spellAll tokens ++ '*' :: rest)
      (builder.readStar (Token.spellAll tokens ++ '*' :: rest)) := by
  have hfollows := h.followsAtom_eq
  rcases parser.star_cases with ⟨hends, next, hstar⟩ | ⟨hends, hstar⟩
  · obtain ⟨builder', hread, hnext⟩ := h.toMirrors.readStar (hfollows.trans hends) hstar
    have hconsume : parser.consume .star = .ok (next.advance 1) :=
      Except.bind_eq_ok_iff.2 ⟨next, hstar, rfl⟩
    exact follows_ok .star h hread hnext hconsume trivial
  · refine h.follows_error _ (if_neg (Bool.eq_false_iff.1 (hfollows.trans hends))) ?_
    intro fed hsettle _
    refine Parser.answer_of_begin hsettle (by decide) (by decide) ?_
    rw [h.position]
    exact (congrArg Parser.star h.pending_eq).trans hstar

/-- A closing parenthesis. -/
theorem readClose (h : builder.Traces tokens (')' :: rest) parser) :
    Follows (Token.spellAll tokens ++ ')' :: rest) builder.readClose := by
  cases henclosing : parser.enclosing with
  | nil =>
      have hdepth : builder.depth = 0 := by rw [h.depth, henclosing, List.length_nil]
      refine h.follows_error _ (if_pos hdepth) ?_
      intro fed hsettle _
      refine Parser.answer_of_begin hsettle (by decide) (by decide) ?_
      have hclose : parser.close = .error (.unmatchedClose parser.position) := by
        rw [Parser.close, henclosing]
      rw [h.position]
      exact (congrArg Parser.close h.pending_eq).trans hclose
  | cons group enclosing =>
      have hclose := Parser.close_eq_ok_iff.2 ⟨group, enclosing, henclosing, rfl⟩
      obtain ⟨builder', hread, hnext⟩ := h.toMirrors.readClose hclose henclosing
        (Parser.number_notMem_captures h.consumed (henclosing ▸ List.mem_cons_self))
      exact follows_ok .closing h hread hnext (Except.bind_eq_ok_iff.2 ⟨_, hclose, rfl⟩)
        trivial

/-- A bar. -/
theorem readBar (h : builder.Traces tokens ('|' :: rest) parser) :
    Follows (Token.spellAll tokens ++ '|' :: rest)
      (builder.readBar (Token.spellAll tokens ++ '|' :: rest)) := by
  by_cases hstart : builder.position = 0
  · refine h.follows_error _ (if_pos (.inl hstart)) ?_
    intro fed hsettle _
    refine Parser.answer_of_begin hsettle (by decide) (by decide) ?_
    have hposition : parser.position = 0 := h.position.symm.trans hstart
    rw [hstart]
    exact (congrArg Parser.bar h.pending_eq).trans (if_pos hposition)
  · obtain ⟨next, hbar⟩ : ∃ next, parser.bar = .ok next := by
      rw [Parser.bar, if_neg (h.position ▸ hstart)]
      split
      · exact ⟨_, rfl⟩
      · exact ⟨_, rfl⟩
    have hlength : (Token.spellAll tokens ++ '|' :: rest).length =
        builder.position + 1 + rest.length := by
      rw [h.position_eq, List.length_append, List.length_cons]
      omega
    cases rest with
    | nil =>
        refine h.follows_error _ (if_pos (.inr hlength.symm)) ?_
        intro fed hsettle _
        have hbegin : parser.begin '|' = .ok next :=
          (congrArg Parser.bar h.pending_eq).trans hbar
        have hfeed : fed.feed '|' = .ok { next with position := next.position + 1 } := by
          rw [Parser.feed_of_settle hsettle (by decide) (by decide), hbegin]
          rfl
        refine (Parser.answer_of_ok hfeed).trans ?_
        show Parser.finish { next with position := next.position + 1 } = _
        unfold Parser.finish
        dsimp only
        rw [Parser.bar_pending hbar, h.position]
    | cons c rest =>
        have hend : builder.position + 1 ≠ (Token.spellAll tokens ++ '|' :: c :: rest).length := by
          rw [hlength, List.length_cons]
          omega
        obtain ⟨builder', hread, hnext⟩ := h.toMirrors.readBar hend hbar
        exact follows_ok .bar h hread hnext (Except.bind_eq_ok_iff.2 ⟨_, hbar, rfl⟩)
          (List.cons_ne_nil c rest)

/-- A letter. -/
theorem readLetter (c : Letter) (h : builder.Traces tokens (c.char :: rest) parser) :
    Follows (Token.spellAll tokens ++ c.char :: rest) (do
      let appended ← builder.append (.literal c.char) builder.position
      return { appended with position := builder.position + 1 }) := by
  obtain ⟨appended, happend, hnext⟩ := h.toMirrors.addLeaf (.literal c.char) 1 rfl
  exact follows_ok (.letter c) h (Except.bind_eq_ok_iff.2 ⟨_, happend, rfl⟩) hnext rfl
    trivial

/-- A string reference, or the beginning of one. -/
theorem readStringRef (h : builder.Traces tokens ('\\' :: rest) parser) :
    Follows (Token.spellAll tokens ++ '\\' :: rest)
      (builder.readStringRef (Token.spellAll tokens ++ '\\' :: rest)) := by
  have hchar := h.charAt_eq 1
  have hanswer : ∀ fed : Parser, fed.settle = .ok parser → fed.answer ('\\' :: rest) =
      (parser.hold (.backslash parser.position) 1).answer rest := by
    intro fed hsettle
    refine Parser.answer_of_ok ?_
    rw [Parser.feed_of_settle hsettle (by decide) (by decide)]
    rfl
  cases rest with
  | nil =>
      refine h.follows_error _ (Except.bind_eq_error_iff.2 (.inr ⟨none, hchar, rfl⟩)) ?_
      intro fed hsettle _
      rw [hanswer fed hsettle, h.position]
      rfl
  | cons c rest =>
      by_cases hc : Alphabet.contains c
      · replace hchar : charAt _ (builder.position + 1) = .ok (some c) := hchar.trans (if_pos hc)
        cases hgroup : Alphabet.groupNumber? c with
        | none =>
            refine h.follows_error (.unexpectedChar c (builder.position + 1))
              (Except.bind_eq_error_iff.2 (.inr ⟨some c, hchar, ?_⟩)) ?_
            · dsimp only
              rw [hgroup]
            · intro fed hsettle _
              rw [hanswer fed hsettle, h.position]
              exact Parser.answer_backslash _ hc hgroup
        | some value =>
            obtain ⟨group, rfl, rfl⟩ := GroupNumber.exists_of_groupNumber? hgroup
            by_cases hcount : builder.groupCount < group.value
            · refine h.follows_error (.undeclaredGroup group.value builder.position)
                (Except.bind_eq_error_iff.2 (.inr ⟨some _, hchar, ?_⟩)) ?_
              · dsimp only
                rw [hgroup]
                exact if_pos hcount
              · intro fed hsettle _
                rw [hanswer fed hsettle, h.position]
                refine Parser.answer_of_error ?_
                rw [Parser.feed_backslashDigit, if_pos (h.groupCount ▸ hcount)]
            · obtain ⟨appended, happend, hnext⟩ :=
                h.toMirrors.addLeaf (.stringRef group.value) 2 rfl
              refine follows_ok (.stringRef group) h (Except.bind_eq_ok_iff.2
                ⟨some _, hchar, ?_⟩) hnext (if_neg (h.groupCount ▸ hcount)) trivial
              dsimp only
              rw [hgroup]
              exact (if_neg hcount).trans (Except.bind_eq_ok_iff.2 ⟨_, happend, rfl⟩)
      · refine h.follows_error _ (Except.bind_eq_error_iff.2 (.inl (hchar.trans (if_neg hc)))) ?_
        intro fed hsettle _
        rw [hanswer fed hsettle, h.position]
        exact Parser.answer_of_not_contains hc

/-- An expression reference, or the beginning of one with its digit. -/
theorem readReference (group : GroupNumber)
    (h : builder.Traces tokens ('(' :: '?' :: group.digit :: rest) parser) :
    Follows (Token.spellAll tokens ++ '(' :: '?' :: group.digit :: rest)
      (builder.readReference (Token.spellAll tokens ++ '(' :: '?' :: group.digit :: rest)
        group.value) := by
  have hchar := h.charAt_eq 3
  have hanswer : ∀ fed : Parser, fed.settle = .ok parser →
      fed.answer ('(' :: '?' :: group.digit :: rest) =
        (parser.hold (.queryDigit parser.position group.value) 3).answer rest := by
    intro fed hsettle
    refine (Parser.answer_of_ok (Parser.feed_parenthesis hsettle)).trans ?_
    exact Parser.answer_of_ok (Parser.feed_queryDigit parser parser.position group)
  cases rest with
  | nil =>
      refine h.follows_error _ (Except.bind_eq_error_iff.2 (.inr ⟨none, hchar, rfl⟩)) ?_
      intro fed hsettle _
      rw [hanswer fed hsettle, h.position]
      rfl
  | cons c rest =>
      by_cases hc : Alphabet.contains c
      · replace hchar : charAt _ (builder.position + 3) = .ok (some c) := hchar.trans (if_pos hc)
        by_cases hclosing : c = ')'
        · subst hclosing
          have hnamed : { builder with
              maxExpressionRef := max builder.maxExpressionRef group.value }.Mirrors
              { parser with maxExpressionRef := max parser.maxExpressionRef group.value } :=
            ⟨⟨h.cells, h.length, h.openNodes⟩, h.position, h.depth, h.groupCount,
              congrArg (max · _) h.maxExpressionRef, h.groups_perm, h.groups_sorted⟩
          obtain ⟨appended, happend, hnext⟩ := hnamed.addLeaf (.expressionRef group.value) 4 rfl
          exact follows_ok (.expressionRef group) h (Except.bind_eq_ok_iff.2 ⟨some _, hchar,
            Except.bind_eq_ok_iff.2 ⟨_, happend, rfl⟩⟩) hnext rfl trivial
        · refine h.follows_error (.unexpectedChar c (builder.position + 3))
            (Except.bind_eq_error_iff.2 (.inr ⟨some c, hchar, if_neg hclosing⟩)) ?_
          intro fed hsettle _
          rw [hanswer fed hsettle, h.position]
          exact Parser.answer_queryDigit _ _ hc hclosing
      · refine h.follows_error _ (Except.bind_eq_error_iff.2 (.inl (hchar.trans (if_neg hc)))) ?_
        intro fed hsettle _
        rw [hanswer fed hsettle, h.position]
        exact Parser.answer_of_not_contains hc

/-- A group that does not capture, an expression reference or the beginning of one of them. -/
theorem readQuery (h : builder.Traces tokens ('(' :: '?' :: rest) parser) :
    Follows (Token.spellAll tokens ++ '(' :: '?' :: rest)
      (builder.readQuery (Token.spellAll tokens ++ '(' :: '?' :: rest)) := by
  have hchar := h.charAt_eq 2
  have hanswer : ∀ fed : Parser, fed.settle = .ok parser → fed.answer ('(' :: '?' :: rest) =
      (parser.hold (.query parser.position) 2).answer rest := by
    intro fed hsettle
    refine (Parser.answer_of_ok (Parser.feed_parenthesis hsettle)).trans ?_
    exact Parser.answer_of_ok rfl
  cases rest with
  | nil =>
      refine h.follows_error _ (Except.bind_eq_error_iff.2 (.inr ⟨none, hchar, rfl⟩)) ?_
      intro fed hsettle _
      rw [hanswer fed hsettle, h.position]
      rfl
  | cons c rest =>
      by_cases hc : Alphabet.contains c
      · replace hchar : charAt _ (builder.position + 2) = .ok (some c) := hchar.trans (if_pos hc)
        by_cases hcolon : c = ':'
        · subst hcolon
          obtain ⟨opened, hopen, hnext⟩ := h.toMirrors.openGroup none 3
          exact follows_ok (.opening false) h (Except.bind_eq_ok_iff.2 ⟨some _, hchar,
            Except.bind_eq_ok_iff.2 ⟨_, hopen, rfl⟩⟩) hnext rfl trivial
        · cases hgroup : Alphabet.groupNumber? c with
          | none =>
              refine h.follows_error (.unexpectedChar c (builder.position + 2))
                (Except.bind_eq_error_iff.2 (.inr ⟨some c, hchar, (if_neg hcolon).trans ?_⟩)) ?_
              · rw [hgroup]
              · intro fed hsettle _
                rw [hanswer fed hsettle, h.position]
                exact Parser.answer_query _ hc hcolon hgroup
          | some value =>
              obtain ⟨group, rfl, rfl⟩ := GroupNumber.exists_of_groupNumber? hgroup
              have hread : builder.readQuery
                  (Token.spellAll tokens ++ '(' :: '?' :: group.digit :: rest) =
                  builder.readReference
                    (Token.spellAll tokens ++ '(' :: '?' :: group.digit :: rest) group.value := by
                rw [Builder.readQuery, hchar]
                refine (if_neg hcolon).trans ?_
                rw [hgroup]
              rw [hread]
              exact h.readReference group
      · refine h.follows_error _ (Except.bind_eq_error_iff.2 (.inl (hchar.trans (if_neg hc)))) ?_
        intro fed hsettle _
        rw [hanswer fed hsettle, h.position]
        exact Parser.answer_of_not_contains hc

/-- A capturing group, when it is clear that its parenthesis is not the beginning of anything
else. -/
theorem readCapturing (h : builder.Traces tokens ('(' :: rest) parser)
    (hrest : ∀ c ∈ rest.head?, Alphabet.contains c ∧ c ≠ '?') :
    Follows (Token.spellAll tokens ++ '(' :: rest) builder.readCapturing := by
  by_cases hcount : builder.groupCount = maxGroups
  · refine h.follows_error _ (if_pos hcount) ?_
    intro fed hsettle _
    refine (Parser.answer_of_ok (Parser.feed_parenthesis hsettle)).trans ?_
    have hopen : (parser.hold (.parenthesis parser.position) 1).openCapturing parser.position =
        .error (.tooManyGroups builder.position) := by
      rw [h.position]
      exact if_pos (h.groupCount ▸ hcount)
    cases rest with
    | nil =>
        exact (Parser.answer_nil _).trans (Except.bind_eq_error_iff.2 (.inl hopen))
    | cons c rest =>
        obtain ⟨hc, hquery⟩ := hrest c rfl
        refine Parser.answer_of_error ?_
        rw [Parser.feed, if_pos hc]
        refine Except.bind_eq_error_iff.2 (.inl ((if_neg hquery).trans ?_))
        exact Except.bind_eq_error_iff.2 (.inl hopen)
  · have hcounted : { builder with groupCount := builder.groupCount + 1 }.Mirrors
        { parser with groupCount := parser.groupCount + 1 } :=
      ⟨⟨h.cells, h.length, h.openNodes⟩, h.position, h.depth, congrArg (· + 1) h.groupCount,
        h.maxExpressionRef, h.groups_perm, h.groups_sorted⟩
    obtain ⟨opened, hopen, hnext⟩ := hcounted.openGroup (some (parser.groupCount + 1)) 1
    rw [← h.groupCount] at hopen
    have hconsume : parser.consume (.opening true) = .ok _ := Except.bind_eq_ok_iff.2
      ⟨_, Parser.openCapturing_eq_ok_iff.2 ⟨h.groupCount ▸ hcount, rfl⟩, rfl⟩
    exact follows_ok (.opening true) h
      ((if_neg hcount).trans (Except.bind_eq_ok_iff.2 ⟨_, hopen, rfl⟩)) hnext hconsume
      fun hmark => (hrest '?' hmark).2 rfl

/-- What an opening parenthesis begins. -/
theorem readOpen (h : builder.Traces tokens ('(' :: rest) parser) :
    Follows (Token.spellAll tokens ++ '(' :: rest)
      (builder.readOpen (Token.spellAll tokens ++ '(' :: rest)) := by
  have hchar := h.charAt_eq 1
  cases rest with
  | nil =>
      have hread : builder.readOpen (Token.spellAll tokens ++ ['(']) = builder.readCapturing := by
        rw [Builder.readOpen, hchar]
        rfl
      rw [hread]
      exact h.readCapturing fun c hc => nomatch hc
  | cons c rest =>
      by_cases hc : Alphabet.contains c
      · replace hchar : charAt _ (builder.position + 1) = .ok (some c) := hchar.trans (if_pos hc)
        by_cases hquery : c = '?'
        · subst hquery
          have hread : builder.readOpen (Token.spellAll tokens ++ '(' :: '?' :: rest) =
              builder.readQuery (Token.spellAll tokens ++ '(' :: '?' :: rest) := by
            rw [Builder.readOpen, hchar]
            rfl
          rw [hread]
          exact h.readQuery
        · have hread : builder.readOpen (Token.spellAll tokens ++ '(' :: c :: rest) =
              builder.readCapturing := by
            rw [Builder.readOpen, hchar]
            show (if some c = some '?' then builder.readQuery _ else builder.readCapturing) = _
            exact if_neg fun hsome => hquery (Option.some.inj hsome)
          rw [hread]
          refine h.readCapturing fun d hd => ?_
          obtain rfl : c = d := Option.some.inj hd
          exact ⟨hc, hquery⟩
      · refine h.follows_error _ (Except.bind_eq_error_iff.2 (.inl (hchar.trans (if_neg hc)))) ?_
        intro fed hsettle _
        refine (Parser.answer_of_ok (Parser.feed_parenthesis hsettle)).trans ?_
        rw [h.position]
        exact Parser.answer_of_not_contains hc

/-- The construct that the next character begins. -/
theorem read {c : Char} (h : builder.Traces tokens (c :: rest) parser) (hc : Alphabet.contains c) :
    Follows (Token.spellAll tokens ++ c :: rest)
      (builder.read (Token.spellAll tokens ++ c :: rest) c) := by
  unfold Builder.read
  split
  · next hstar =>
      subst hstar
      exact h.readStar
  split
  · next hbar =>
      subst hbar
      exact h.readBar
  split
  · next hopen =>
      subst hopen
      exact h.readOpen
  split
  · next hclose =>
      subst hclose
      exact h.readClose
  split
  · next hbackslash =>
      subst hbackslash
      exact h.readStringRef
  split
  · next hletter => exact readLetter ⟨c, hletter⟩ h
  · next hstar hbar hopen hclose hbackslash hletter =>
      by_cases hquery : c = '?'
      · subst hquery
        obtain ⟨fed, hsettle, _, _, hpending, hparse⟩ := h.exists_settle
        rw [h.position]
        exact (hparse _).trans (Parser.answer_of_questionMark hsettle (hpending rfl))
      · refine h.follows_error _ rfl fun fed hsettle _ => ?_
        refine Parser.answer_of_begin hsettle hc hquery ?_
        unfold Parser.begin
        rw [if_neg hstar, if_neg hbar, if_neg hopen, if_neg hclose, if_neg hbackslash,
          if_neg hletter, h.position]

end Traces

end Builder

end Backref
