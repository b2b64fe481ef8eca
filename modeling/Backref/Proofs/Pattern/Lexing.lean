import Backref.Proofs.Pattern.Token
import Mathlib.Data.List.Induction

/-!
# Reading characters and reading tokens

`Parser.feed_spell` says that the characters of a token do what the token does, and
`Parser.Lexed` is the invariant of the other direction: after any characters the parser has read
some tokens and holds the beginning of at most one more.
-/

namespace Backref

namespace Parser

/-! ## From tokens to characters -/

/-- The parsers that can be settled, with what they become. -/
theorem settle_cases {parser base : Parser} (h : parser.settle = .ok base) :
    ((parser.pending = .nothing ∨ ∃ index, parser.pending = .bar index) ∧
        base = { parser with pending := .nothing }) ∨
      ∃ start, parser.pending = .parenthesis start ∧ parser.openCapturing start = .ok base := by
  unfold settle at h
  split at h
  · next hpending => cases h; exact .inl ⟨.inl hpending, rfl⟩
  · next index hpending => cases h; exact .inl ⟨.inr ⟨index, hpending⟩, rfl⟩
  · next start hpending => exact .inr ⟨start, hpending, h⟩
  · cases h
  · cases h
  · cases h

/-- A settled parser has nothing pending. -/
theorem settle_pending {parser base : Parser} (h : parser.settle = .ok base) :
    base.pending = .nothing := by
  rcases settle_cases h with ⟨_, rfl⟩ | ⟨start, _, hopen⟩
  · rfl
  · obtain ⟨_, rfl⟩ := openCapturing_eq_ok_iff.1 hopen
    rfl

/-- A character other than `?` is read by the settled parser. -/
theorem feed_of_settle {parser base : Parser} (h : parser.settle = .ok base) {c : Char}
    (hc : Alphabet.contains c) (hquery : c ≠ '?') :
    parser.feed c = do
      let next ← base.begin c
      return { next with position := next.position + 1 } := by
  unfold feed
  rw [if_pos hc]
  congr 1
  unfold read
  rcases settle_cases h with ⟨hpending | ⟨index, hpending⟩, rfl⟩ | ⟨start, hpending, hopen⟩
  · rw [hpending]; rfl
  · rw [hpending]; rfl
  · rw [hpending]
    dsimp only
    rw [if_neg hquery, hopen]
    rfl

/-- The state after `(`, `(?` and the like, where the text of the construct starts at the
present position. -/
def hold (parser : Parser) (pending : Pending) (count : Nat) : Parser :=
  { parser with position := parser.position + count, pending := pending }

/-- Reading `(` after anything that can be settled. -/
theorem feed_parenthesis {parser base : Parser} (h : parser.settle = .ok base) :
    parser.feed '(' = .ok (base.hold (.parenthesis base.position) 1) :=
  feed_of_settle h (by decide) (by decide)

/-- Reading a star leaves what is pending. -/
theorem star_pending {parser next : Parser} (h : parser.star = .ok next) :
    next.pending = parser.pending := by
  obtain ⟨item, items, _, _, rfl⟩ := star_eq_ok_iff.1 h
  rfl

/-- Reading a closing parenthesis leaves what is pending. -/
theorem close_pending {parser next : Parser} (h : parser.close = .ok next) :
    next.pending = parser.pending := by
  obtain ⟨group, enclosing, _, rfl⟩ := close_eq_ok_iff.1 h
  rfl

/-- A bar is pending until the next character. -/
theorem bar_pending {parser next : Parser} (h : parser.bar = .ok next) :
    next.pending = .bar parser.position := by
  obtain ⟨_, count, choice, rfl⟩ := bar_cases h
  rfl

/-- A letter is a literal of its own. -/
theorem begin_letter (parser : Parser) (c : Letter) :
    parser.begin c.char = .ok (parser.addLeaf (.literal c.char) parser.position) := by
  have hne : ∀ d ∈ Alphabet.operators, c.char ≠ d :=
    fun d hd => Alphabet.ne_of_isLetter c.isLetter hd
  unfold begin
  rw [if_neg (hne _ (by decide)), if_neg (hne _ (by decide)), if_neg (hne _ (by decide)),
    if_neg (hne _ (by decide)), if_neg (hne _ (by decide)), if_pos c.isLetter]
  rfl

/-- The characters of the token take the parser to one that settles to `next`. Only a bar leaves
a bar pending. -/
def FeedsTo (parser : Parser) (token : Token) (next : Parser) : Prop :=
  ∃ parser', token.spell.foldlM feed parser = .ok parser' ∧ parser'.settle = .ok next ∧
    (token ≠ .bar → ∀ index, parser'.pending ≠ .bar index)

/-- A character that is a token of its own does what the token does. -/
theorem feedsTo_single {parser base next : Parser} {token : Token} {c : Char}
    (hspell : token.spell = [c]) (h : parser.settle = .ok base) (hc : Alphabet.contains c)
    (hquery : c ≠ '?') (hbegin : base.begin c = .ok next) (hpending : next.pending = .nothing) :
    parser.FeedsTo token (next.advance 1) := by
  refine ⟨{ next with position := next.position + 1 }, ?_, ?_, fun _ index => ?_⟩
  · rw [hspell, List.foldlM_cons, feed_of_settle h hc hquery, hbegin]
    rfl
  · unfold settle
    rw [hpending]
    rfl
  · rw [hpending]
    exact Pending.noConfusion

/-- A digit after `(?`. -/
theorem feed_queryDigit (parser : Parser) (start : Nat) (group : GroupNumber) :
    (parser.hold (.query start) 2).feed group.digit =
      .ok (parser.hold (.queryDigit start group.value) 3) := by
  unfold feed
  rw [if_pos group.contains_digit]
  show (do
    let next ← (parser.hold (.query start) 2).afterQuery start group.digit
    return { next with position := next.position + 1 }) = _
  unfold afterQuery
  rw [if_neg (group.digit_ne (by decide)), group.groupNumber?_digit]
  rfl

/-- A digit after a backslash. -/
theorem feed_backslashDigit (parser : Parser) (start : Nat) (group : GroupNumber) :
    (parser.hold (.backslash start) 1).feed group.digit =
      if parser.groupCount < group.value then .error (.undeclaredGroup group.value start)
      else .ok ((parser.addLeaf (.stringRef group.value) start).advance 2) := by
  unfold feed
  rw [if_pos group.contains_digit]
  show (do
    let next ← (parser.hold (.backslash start) 1).afterBackslash start group.digit
    return { next with position := next.position + 1 }) = _
  unfold afterBackslash
  rw [group.groupNumber?_digit]
  dsimp only
  by_cases hcount : parser.groupCount < group.value
  · rw [if_pos hcount, if_pos (show (parser.hold (.backslash start) 1).groupCount < _ from hcount)]
    rfl
  · rw [if_neg hcount,
      if_neg (show ¬ (parser.hold (.backslash start) 1).groupCount < _ from hcount)]
    rfl

/-- The characters of an opening parenthesis open a group. -/
theorem feedsTo_opening {parser base next : Parser} {captures : Bool}
    (h : parser.settle = .ok base) (hnext : base.consume (.opening captures) = .ok next) :
    parser.FeedsTo (.opening captures) next := by
  cases captures with
  | true =>
      -- `(` alone is not settled: that it captures is clear from the next character on.
      obtain ⟨middle, hopen, hnext⟩ := Except.bind_eq_ok_iff.1 hnext
      cases hnext
      refine ⟨base.hold (.parenthesis base.position) 1, ?_, ?_, fun _ _ => Pending.noConfusion⟩
      · show List.foldlM feed parser ['('] = _
        rw [List.foldlM_cons, feed_parenthesis h]
        rfl
      · obtain ⟨hcount, rfl⟩ := openCapturing_eq_ok_iff.1 hopen
        exact openCapturing_eq_ok_iff.2 ⟨hcount, rfl⟩
  | false =>
      cases hnext
      refine ⟨(base.openGroup none base.position).advance 3, ?_, rfl,
        fun _ _ => Pending.noConfusion⟩
      show List.foldlM feed parser ['(', '?', ':'] = _
      rw [List.foldlM_cons, feed_parenthesis h]
      rfl

/-- The character `|` starts the next branch and stays pending. -/
theorem feedsTo_bar {parser base next : Parser} (h : parser.settle = .ok base)
    (hbar : base.begin '|' = .ok next) : parser.FeedsTo .bar (next.advance 1) := by
  refine ⟨{ next with position := next.position + 1 }, ?_, ?_, fun hne => absurd rfl hne⟩
  · show List.foldlM feed parser ['|'] = _
    rw [List.foldlM_cons, feed_of_settle h (by decide) (by decide), hbar]
    rfl
  · unfold begin at hbar
    unfold settle
    rw [bar_pending hbar]
    rfl

/-- The characters of an expression reference add its leaf. -/
theorem feedsTo_expressionRef {parser base : Parser} (group : GroupNumber)
    (h : parser.settle = .ok base) :
    parser.FeedsTo (.expressionRef group)
      (({ base with maxExpressionRef := max base.maxExpressionRef group.value }.addLeaf
        (.expressionRef group.value) base.position).advance 4) := by
  refine ⟨({ base with maxExpressionRef := max base.maxExpressionRef group.value }.addLeaf
    (.expressionRef group.value) base.position).advance 4, ?_, rfl,
    fun _ _ => Pending.noConfusion⟩
  show List.foldlM feed parser ['(', '?', group.digit, ')'] = _
  rw [List.foldlM_cons, feed_parenthesis h]
  show (do
    let next ← (base.hold (.query base.position) 2).feed group.digit
    List.foldlM feed next [')']) = _
  rw [feed_queryDigit]
  rfl

/-- The characters of a string reference to a declared group add its leaf. -/
theorem feedsTo_stringRef {parser base : Parser} {group : GroupNumber}
    (h : parser.settle = .ok base) (hcount : ¬ base.groupCount < group.value) :
    parser.FeedsTo (.stringRef group)
      ((base.addLeaf (.stringRef group.value) base.position).advance 2) := by
  refine ⟨(base.addLeaf (.stringRef group.value) base.position).advance 2, ?_, rfl,
    fun _ _ => Pending.noConfusion⟩
  have hbackslash : parser.feed '\\' = .ok (base.hold (.backslash base.position) 1) :=
    feed_of_settle h (by decide) (by decide)
  show List.foldlM feed parser ['\\', group.digit] = _
  rw [List.foldlM_cons, hbackslash]
  show (do
    let next ← (base.hold (.backslash base.position) 1).feed group.digit
    List.foldlM feed next []) = _
  rw [feed_backslashDigit, if_neg hcount]
  rfl

/-- The characters of a token do what the token does. -/
theorem feed_spell {parser base next : Parser} {token : Token} (h : parser.settle = .ok base)
    (hnext : base.consume token = .ok next) : parser.FeedsTo token next := by
  have hbase := settle_pending h
  have hclear : { base with pending := .nothing } = base := by rw [← hbase]
  cases token with
  | letter c =>
      cases hnext
      exact feedsTo_single rfl h (Alphabet.contains_of_isLetter c.isLetter)
        (Alphabet.ne_of_isLetter c.isLetter (by decide)) (begin_letter base c) rfl
  | opening captures => exact feedsTo_opening h hnext
  | closing =>
      obtain ⟨middle, hclose, hnext⟩ := Except.bind_eq_ok_iff.1 hnext
      cases hnext
      have hbegin : base.begin ')' = .ok middle := by rw [← hclose, ← hclear]; rfl
      have hpending := (close_pending hclose).trans hbase
      exact feedsTo_single rfl h (by decide) (by decide) hbegin hpending
  | star =>
      obtain ⟨middle, hstar, hnext⟩ := Except.bind_eq_ok_iff.1 hnext
      cases hnext
      have hbegin : base.begin '*' = .ok middle := by rw [← hstar, ← hclear]; rfl
      have hpending := (star_pending hstar).trans hbase
      exact feedsTo_single rfl h (by decide) (by decide) hbegin hpending
  | bar =>
      obtain ⟨middle, hbar, hnext⟩ := Except.bind_eq_ok_iff.1 hnext
      cases hnext
      have hbegin : base.begin '|' = .ok middle := by rw [← hbar, ← hclear]; rfl
      exact feedsTo_bar h hbegin
  | expressionRef group =>
      cases hnext
      exact feedsTo_expressionRef group h
  | stringRef group =>
      simp only [consume] at hnext
      split at hnext
      · cases hnext
      · next hcount =>
          cases hnext
          exact feedsTo_stringRef h hcount

/-- Tokens leave nothing pending. -/
theorem consume_pending {parser next : Parser} {token : Token}
    (h : parser.consume token = .ok next) : next.pending = .nothing := by
  cases token with
  | letter c => cases h; rfl
  | opening captures =>
      cases captures with
      | true =>
          obtain ⟨middle, _, h⟩ := Except.bind_eq_ok_iff.1 h
          cases h; rfl
      | false => cases h; rfl
  | closing =>
      obtain ⟨middle, _, h⟩ := Except.bind_eq_ok_iff.1 h
      cases h; rfl
  | star =>
      obtain ⟨middle, _, h⟩ := Except.bind_eq_ok_iff.1 h
      cases h; rfl
  | bar =>
      obtain ⟨middle, _, h⟩ := Except.bind_eq_ok_iff.1 h
      cases h; rfl
  | expressionRef group => cases h; rfl
  | stringRef group =>
      simp only [consume] at h
      split at h
      · cases h
      · cases h; rfl

/-- Reading tokens from the start leaves nothing pending. -/
theorem consumeAll_pending {tokens : List Token} {parser : Parser}
    (h : start.consumeAll tokens = .ok parser) : parser.pending = .nothing := by
  cases tokens using List.reverseRecOn with
  | nil => cases h; rfl
  | append_singleton tokens token =>
      rw [consumeAll_append] at h
      obtain ⟨middle, _, h⟩ := Except.bind_eq_ok_iff.1 h
      rw [consumeAll_singleton] at h
      exact consume_pending h

/-- The characters of some tokens do what the tokens do. -/
theorem feed_spellAll {tokens : List Token} {next : Parser}
    (h : start.consumeAll tokens = .ok next) :
    ∃ parser, (Token.spellAll tokens).foldlM feed start = .ok parser ∧ parser.settle = .ok next ∧
      (tokens.getLast? ≠ some .bar → ∀ index, parser.pending ≠ .bar index) := by
  induction tokens using List.reverseRecOn generalizing next with
  | nil =>
      cases h
      exact ⟨start, rfl, rfl, fun _ _ => Pending.noConfusion⟩
  | append_singleton tokens token ih =>
      rw [consumeAll_append] at h
      obtain ⟨middle, hmiddle, h⟩ := Except.bind_eq_ok_iff.1 h
      rw [consumeAll_singleton] at h
      obtain ⟨parser, hfeed, hsettle, _⟩ := ih hmiddle
      obtain ⟨parser', hfeed', hsettle', hbar⟩ := feed_spell hsettle h
      refine ⟨parser', ?_, hsettle', fun hlast => hbar ?_⟩
      · rw [Token.spellAll_append, Token.spellAll_cons, Token.spellAll_nil, List.append_nil,
          List.foldlM_append, hfeed]
        exact hfeed'
      · rintro rfl
        simp at hlast

/-! ## From characters to tokens -/

/-- `Lexed tokens rest parser` says that the parser has read the tokens and, after them, the
characters `rest` of an unfinished construct. -/
inductive Lexed : List Token → List Char → Parser → Prop
  | settled {tokens : List Token} {base : Parser} (hrun : start.consumeAll tokens = .ok base)
      (hlast : tokens.getLast? ≠ some .bar) : Lexed tokens [] base
  | bar {tokens : List Token} {base : Parser} (index : Nat)
      (hrun : start.consumeAll tokens = .ok base) :
      Lexed tokens [] (base.hold (.bar index) 0)
  | parenthesis {tokens : List Token} {base : Parser}
      (hrun : start.consumeAll tokens = .ok base) :
      Lexed tokens ['('] (base.hold (.parenthesis base.position) 1)
  | query {tokens : List Token} {base : Parser} (hrun : start.consumeAll tokens = .ok base) :
      Lexed tokens ['(', '?'] (base.hold (.query base.position) 2)
  | queryDigit {tokens : List Token} {base : Parser} (group : GroupNumber)
      (hrun : start.consumeAll tokens = .ok base) :
      Lexed tokens ['(', '?', group.digit] (base.hold (.queryDigit base.position group.value) 3)
  | backslash {tokens : List Token} {base : Parser} (hrun : start.consumeAll tokens = .ok base) :
      Lexed tokens ['\\'] (base.hold (.backslash base.position) 1)

/-- The parser has read the text: some tokens and the beginning of an unfinished construct. -/
def LexedAs (parser : Parser) (text : List Char) : Prop :=
  ∃ tokens rest, Lexed tokens rest parser ∧ Token.spellAll tokens ++ rest = text

/-- One token more has been read, which is not a bar. -/
theorem Lexed.snoc {tokens : List Token} {token : Token} {base next : Parser}
    (hrun : start.consumeAll tokens = .ok base) (hnext : base.consume token = .ok next)
    (htoken : token ≠ .bar) : Lexed (tokens ++ [token]) [] next :=
  .settled ((consumeAll_snoc hrun token).trans hnext) (by simpa using htoken)

/-- Without a pending construct, moving on is counting one character. -/
theorem advance_one {parser : Parser} (h : parser.pending = .nothing) :
    { parser with position := parser.position + 1 } = parser.advance 1 := by
  unfold advance
  rw [h]

/-- The first character of a token, or a token of one character, is read as such. -/
theorem Lexed.begin {tokens : List Token} {base next : Parser} {c : Char}
    (hrun : start.consumeAll tokens = .ok base) (h : base.begin c = .ok next) :
    LexedAs { next with position := next.position + 1 } (Token.spellAll tokens ++ [c]) := by
  have hbase := consumeAll_pending hrun
  have hclear : { base with pending := .nothing } = base := by rw [← hbase]
  unfold Parser.begin at h
  dsimp only at h
  rw [hclear] at h
  split at h
  · next hc =>
      have hpending := (star_pending h).trans hbase
      refine ⟨tokens ++ [.star], [], ?_, by simp [Token.spell, hc]⟩
      rw [advance_one hpending]
      exact .snoc hrun (Except.bind_eq_ok_iff.2 ⟨next, h, rfl⟩) (by simp)
  split at h
  · next hc =>
      refine ⟨tokens ++ [.bar], [], ?_, by simp [Token.spell, hc]⟩
      have hnext : start.consumeAll (tokens ++ [.bar]) = .ok (next.advance 1) :=
        (consumeAll_snoc hrun _).trans (Except.bind_eq_ok_iff.2 ⟨next, h, rfl⟩)
      have hhold : { next with position := next.position + 1 } =
          (next.advance 1).hold (.bar base.position) 0 := by
        rw [← bar_pending h]
        rfl
      rw [hhold]
      exact .bar base.position hnext
  split at h
  · next hc =>
      cases h
      exact ⟨tokens, ['('], show Lexed tokens ['('] (base.hold (.parenthesis base.position) 1) from
        .parenthesis hrun, by rw [hc]⟩
  split at h
  · next hc =>
      have hpending := (close_pending h).trans hbase
      refine ⟨tokens ++ [.closing], [], ?_, by simp [Token.spell, hc]⟩
      rw [advance_one hpending]
      exact .snoc hrun (Except.bind_eq_ok_iff.2 ⟨next, h, rfl⟩) (by simp)
  split at h
  · next hc =>
      cases h
      exact ⟨tokens, ['\\'], show Lexed tokens ['\\'] (base.hold (.backslash base.position) 1) from
        .backslash hrun, by rw [hc]⟩
  split at h
  · next hc =>
      cases h
      refine ⟨tokens ++ [.letter ⟨c, hc⟩], [], ?_, by simp [Token.spell]⟩
      exact .snoc hrun rfl (by simp)
  · cases h

/-- After `(` comes `?`, or the `(` was a token of its own. -/
theorem Lexed.afterParenthesis {tokens : List Token} {base read : Parser} {c : Char}
    (hrun : start.consumeAll tokens = .ok base)
    (hread : (base.hold (.parenthesis base.position) 1).read c = .ok read) :
    LexedAs { read with position := read.position + 1 } (Token.spellAll tokens ++ ['(', c]) := by
  simp only [Parser.read, hold] at hread
  split at hread
  · next hc =>
      cases hread
      exact ⟨tokens, ['(', '?'], show Lexed tokens ['(', '?']
        (base.hold (.query base.position) 2) from .query hrun, by rw [hc]⟩
  · obtain ⟨middle, hopen, hbegin⟩ := Except.bind_eq_ok_iff.1 hread
    obtain ⟨hcount, rfl⟩ := openCapturing_eq_ok_iff.1 hopen
    have hnext : base.consume (.opening true) = .ok _ :=
      Except.bind_eq_ok_iff.2 ⟨_, openCapturing_eq_ok_iff.2 ⟨hcount, rfl⟩, rfl⟩
    obtain ⟨tokens', rest', hlexed', htext⟩ :=
      Lexed.begin ((consumeAll_snoc hrun _).trans hnext) hbegin
    exact ⟨tokens', rest', hlexed', by simpa [Token.spell] using htext⟩

/-- After `(?` comes `:` or the digit of an expression reference. -/
theorem Lexed.afterQuery {tokens : List Token} {base read : Parser} {c : Char}
    (hrun : start.consumeAll tokens = .ok base)
    (hread : (base.hold (.query base.position) 2).afterQuery base.position c = .ok read) :
    LexedAs { read with position := read.position + 1 }
      (Token.spellAll tokens ++ ['(', '?', c]) := by
  unfold Parser.afterQuery at hread
  split at hread
  · next hc =>
      cases hread
      exact ⟨tokens ++ [.opening false], [], .snoc hrun rfl (by simp), by simp [Token.spell, hc]⟩
  · split at hread
    · next value hvalue =>
        cases hread
        obtain ⟨group, rfl, rfl⟩ := GroupNumber.exists_of_groupNumber? hvalue
        exact ⟨tokens, ['(', '?', group.digit], show Lexed tokens ['(', '?', group.digit]
          (base.hold (.queryDigit base.position group.value) 3) from .queryDigit group hrun, rfl⟩
    · cases hread

/-- After `(?N` comes the closing parenthesis of an expression reference. -/
theorem Lexed.afterQueryDigit {tokens : List Token} {base read : Parser} {c : Char}
    (group : GroupNumber) (hrun : start.consumeAll tokens = .ok base)
    (hread : (base.hold (.queryDigit base.position group.value) 3).afterQueryDigit base.position
      group.value c = .ok read) :
    LexedAs { read with position := read.position + 1 }
      (Token.spellAll tokens ++ ['(', '?', group.digit, c]) := by
  unfold Parser.afterQueryDigit at hread
  split at hread
  · next hc =>
      cases hread
      exact ⟨tokens ++ [.expressionRef group], [], .snoc hrun rfl (by simp),
        by simp [Token.spell, hc]⟩
  · cases hread

/-- After a backslash comes the digit of a string reference. -/
theorem Lexed.afterBackslash {tokens : List Token} {base read : Parser} {c : Char}
    (hrun : start.consumeAll tokens = .ok base)
    (hread : (base.hold (.backslash base.position) 1).afterBackslash base.position c = .ok read) :
    LexedAs { read with position := read.position + 1 } (Token.spellAll tokens ++ ['\\', c]) := by
  unfold Parser.afterBackslash at hread
  split at hread
  · next value hvalue =>
      obtain ⟨group, rfl, rfl⟩ := GroupNumber.exists_of_groupNumber? hvalue
      split at hread
      · cases hread
      · next hcount =>
          cases hread
          have hnext : base.consume (.stringRef group) = .ok _ := if_neg hcount
          exact ⟨tokens ++ [.stringRef group], [], .snoc hrun hnext (by simp),
            by simp [Token.spell]⟩
  · cases hread

/-- Reading a character keeps the invariant and loses nothing of the text. -/
theorem Lexed.feed {tokens : List Token} {rest : List Char} {parser next : Parser} {c : Char}
    (hlexed : Lexed tokens rest parser) (h : parser.feed c = .ok next) :
    LexedAs next (Token.spellAll tokens ++ (rest ++ [c])) := by
  unfold Parser.feed at h
  split at h
  · obtain ⟨read, hread, hnext⟩ := Except.bind_eq_ok_iff.1 h
    cases hnext
    cases hlexed with
    | settled hrun hlast =>
        have hbegin : parser.begin c = .ok read := by
          unfold Parser.read at hread
          rw [consumeAll_pending hrun] at hread
          exact hread
        exact Lexed.begin hrun hbegin
    | @bar base index hrun =>
        have hbegin : base.begin c = .ok read := hread
        exact Lexed.begin hrun hbegin
    | parenthesis hrun => exact Lexed.afterParenthesis hrun hread
    | query hrun => exact Lexed.afterQuery hrun hread
    | queryDigit group hrun => exact Lexed.afterQueryDigit group hrun hread
    | backslash hrun => exact Lexed.afterBackslash hrun hread
  · cases h

/-- Whatever characters the parser reads, it reads tokens. -/
theorem Lexed.of_foldlM {text : List Char} {parser : Parser}
    (h : text.foldlM Parser.feed start = .ok parser) : LexedAs parser text := by
  induction text using List.reverseRecOn generalizing parser with
  | nil =>
      cases h
      exact ⟨[], [], .settled rfl (by simp), rfl⟩
  | append_singleton text c ih =>
      rw [List.foldlM_append] at h
      obtain ⟨middle, hmiddle, hlast⟩ := Except.bind_eq_ok_iff.1 h
      obtain ⟨tokens, rest, hlexed, rfl⟩ := ih hmiddle
      obtain ⟨next, hnext, hlast⟩ := Except.bind_eq_ok_iff.1 hlast
      cases hlast
      rw [List.append_assoc]
      exact hlexed.feed hnext

end Parser

/-- A text is a pattern exactly when it spells tokens that do not end with a bar, and reading
these comes to a good end. -/
theorem Pattern.parseChars_eq_ok_iff {text : List Char} {pattern : Pattern} :
    Pattern.parseChars text = .ok pattern ↔
      ∃ tokens parser, Token.spellAll tokens = text ∧ tokens.getLast? ≠ some .bar ∧
        Parser.start.consumeAll tokens = .ok parser ∧ parser.conclude = .ok pattern := by
  constructor
  · intro h
    obtain ⟨parser, hfold, hfinish⟩ := Except.bind_eq_ok_iff.1 h
    obtain ⟨tokens, rest, hlexed, htext⟩ := Parser.Lexed.of_foldlM hfold
    cases hlexed with
    | settled hrun hlast =>
        refine ⟨tokens, parser, by simpa using htext, hlast, hrun, ?_⟩
        unfold Parser.finish at hfinish
        rwa [Parser.consumeAll_pending hrun] at hfinish
    | bar index hrun => cases hfinish
    | @parenthesis base hrun =>
        obtain ⟨opened, hopen, hfinish⟩ := Except.bind_eq_ok_iff.1 hfinish
        obtain ⟨_, rfl⟩ := Parser.openCapturing_eq_ok_iff.1 hopen
        -- The group that the last character opens is never closed.
        cases hfinish
    | query hrun => cases hfinish
    | queryDigit group hrun => cases hfinish
    | backslash hrun => cases hfinish
  · rintro ⟨tokens, next, rfl, hlast, hrun, hfinish⟩
    obtain ⟨parser, hfold, hsettle, hbar⟩ := Parser.feed_spellAll hrun
    refine Except.bind_eq_ok_iff.2 ⟨parser, hfold, ?_⟩
    unfold Parser.finish
    rcases Parser.settle_cases hsettle with
      ⟨hpending | ⟨index, hpending⟩, hnext⟩ | ⟨start, hpending, hopen⟩
    · rw [hpending]
      dsimp only
      rw [← hfinish, hnext]
      rfl
    · exact absurd hpending (hbar hlast index)
    · rw [hpending]
      exact Except.bind_eq_ok_iff.2 ⟨next, hopen, hfinish⟩

end Backref
