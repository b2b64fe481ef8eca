import Backref.Proofs.Pattern.Reading

/-!
# Where the parser stops

A text is rejected at one of its characters or at its end. `Rejection.Blames` says what a rejection
at a character has to do with the character and with what is pending before it
(`Parser.blames_of_feed`); at the end, a pending bar is the last character (`Parser.bar_of_foldlM`)
and the open groups are those that no `)` has closed (`Parser.consumeAll_enclosing`).
-/

namespace Backref

/-- A computation that binds two parts fails exactly when one of the parts does. -/
theorem Except.bind_eq_error_iff {ε α β : Type} {first : Except ε α} {second : α → Except ε β}
    {error : ε} :
    (first >>= second) = .error error ↔
      first = .error error ∨ ∃ value, first = .ok value ∧ second value = .error error := by
  cases first with
  | error other =>
      constructor
      · intro h
        cases h
        exact .inl rfl
      · rintro (h | ⟨_, h, _⟩)
        · cases h
          rfl
        · cases h
  | ok value =>
      constructor
      · intro h
        exact .inr ⟨value, rfl, h⟩
      · rintro (h | ⟨_, h, h'⟩)
        · cases h
        · cases h
          exact h'

/-- The rejection blames the next character of a text, or the construct of which this character
shows that it cannot stand. -/
def Rejection.Blames (parser : Parser) (c : Char) : Rejection → Prop
  | .invalidChar found index =>
      found = c ∧ index = parser.position ∧ Alphabet.contains c = false
  | .unexpectedChar found index => found = c ∧ index = parser.position ∧ Alphabet.contains c
  | .misplacedStar index => c = '*' ∧ index = parser.position
  | .misplacedBar index => c = '|' ∧ index = parser.position ∧ index = 0
  | .unmatchedClose index => c = ')' ∧ index = parser.position
  | .tooManyGroups index =>
      parser.pending = .parenthesis index ∧ parser.groupCount = maxGroups
  | .undeclaredGroup group index =>
      parser.pending = .backslash index ∧ Alphabet.groupNumber? c = some group ∧
        parser.groupCount < group
  | .unexpectedEnd _ | .unclosed _ | .unknownGroup .. | .uninitialized .. | .pathLimit _ => False

namespace Parser

variable {parser next base : Parser} {rejection : Rejection} {c : Char} {tokens : List Token}
  {text rest : List Char}

/-! ## What is rejected at a character -/

/-- A star is refused where nothing can be repeated. -/
theorem star_eq_error (h : parser.star = .error rejection) :
    rejection = .misplacedStar parser.position := by
  unfold star at h
  split at h
  · cases h
    rfl
  · split at h
    · cases h
    · cases h
      rfl

/-- A bar is refused as the first character alone. -/
theorem bar_eq_error (h : parser.bar = .error rejection) :
    rejection = .misplacedBar parser.position ∧ parser.position = 0 := by
  unfold bar at h
  split at h
  · next hposition =>
      cases h
      rw [hposition]
      exact ⟨rfl, rfl⟩
  · split at h <;> cases h

/-- A closing parenthesis is refused where no group is open. -/
theorem close_eq_error (h : parser.close = .error rejection) :
    rejection = .unmatchedClose parser.position := by
  unfold close at h
  split at h
  · cases h
    rfl
  · cases h

/-- A group is refused when the pattern has as many as it may have. -/
theorem openCapturing_eq_error {start : Nat} (h : parser.openCapturing start = .error rejection) :
    rejection = .tooManyGroups start ∧ parser.groupCount = maxGroups := by
  unfold openCapturing at h
  split at h
  · next hcount =>
      cases h
      exact ⟨rfl, hcount⟩
  · cases h

/-- The first character of an item is blamed for its rejection. -/
theorem blames_of_begin (hc : Alphabet.contains c) (h : base.begin c = .error rejection)
    (hposition : base.position = parser.position) : rejection.Blames parser c := by
  unfold begin at h
  dsimp only at h
  split at h
  · next hstar =>
      rw [star_eq_error h]
      exact ⟨hstar, hposition⟩
  split at h
  · next hbar =>
      obtain ⟨rfl, hzero⟩ := bar_eq_error h
      exact ⟨hbar, hposition, hzero⟩
  split at h
  · cases h
  split at h
  · next hclose =>
      rw [close_eq_error h]
      exact ⟨hclose, hposition⟩
  split at h
  · cases h
  split at h
  · cases h
  · cases h
    exact ⟨rfl, hposition, hc⟩

/-- A character of the alphabet is blamed for its rejection, or the construct before it is. -/
theorem blames_of_read (hc : Alphabet.contains c) (h : parser.read c = .error rejection) :
    rejection.Blames parser c := by
  unfold Parser.read at h
  split at h
  · exact blames_of_begin hc h rfl
  · exact blames_of_begin hc h rfl
  · next start hpending =>
      split at h
      · cases h
      · rcases Except.bind_eq_error_iff.1 h with hopen | ⟨opened, hopen, hbegin⟩
        · obtain ⟨rfl, hcount⟩ := openCapturing_eq_error hopen
          exact ⟨hpending, hcount⟩
        · obtain ⟨_, rfl⟩ := openCapturing_eq_ok_iff.1 hopen
          exact blames_of_begin hc hbegin rfl
  · unfold afterQuery at h
    split at h
    · cases h
    · split at h
      · cases h
      · cases h
        exact ⟨rfl, rfl, hc⟩
  · unfold afterQueryDigit at h
    split at h
    · cases h
    · cases h
      exact ⟨rfl, rfl, hc⟩
  · next start hpending =>
      unfold afterBackslash at h
      split at h
      · next group hgroup =>
          split at h
          · next hcount =>
              cases h
              exact ⟨hpending, hgroup, hcount⟩
          · cases h
      · cases h
        exact ⟨rfl, rfl, hc⟩

/-- The next character is blamed for its rejection, or the construct before it is. -/
theorem blames_of_feed (h : parser.feed c = .error rejection) : rejection.Blames parser c := by
  unfold Parser.feed at h
  split at h
  · next hc =>
      rcases Except.bind_eq_error_iff.1 h with hread | ⟨_, _, hnext⟩
      · exact blames_of_read hc hread
      · cases hnext
  · next hc =>
      cases h
      exact ⟨rfl, rfl, eq_false_of_ne_true hc⟩

/-- A text that is rejected at a character is accepted up to it. -/
theorem exists_feed_of_foldlM (h : text.foldlM feed start = .error rejection) :
    ∃ front c back parser, text = front ++ c :: back ∧
      front.foldlM feed start = .ok parser ∧ parser.feed c = .error rejection := by
  induction text using List.reverseRecOn with
  | nil => cases h
  | append_singleton text c ih =>
      rw [List.foldlM_append] at h
      rcases Except.bind_eq_error_iff.1 h with hfold | ⟨middle, hfold, hlast⟩
      · obtain ⟨front, d, back, parser, rfl, hfront, hfeed⟩ := ih hfold
        exact ⟨front, d, back ++ [c], parser, by simp, hfront, hfeed⟩
      · rcases Except.bind_eq_error_iff.1 hlast with hfeed | ⟨_, _, hnil⟩
        · exact ⟨text, c, [], middle, rfl, hfold, hfeed⟩
        · cases hnil

/-! ## What is pending at the end -/

/-- The parser stands after the characters that it has read. -/
theorem Lexed.position_eq (h : Lexed tokens rest parser) :
    parser.position = (Token.spellAll tokens ++ rest).length := by
  have hbase : ∀ base : Parser, start.consumeAll tokens = .ok base →
      base.position = (Token.spellAll tokens).length := by
    intro base hrun
    rw [(consumeAll_tally hrun).position]
    exact Nat.zero_add _
  rw [List.length_append]
  cases h with
  | settled hrun _ => exact hbase _ hrun
  | @bar base _ hrun => exact hbase base hrun
  | parenthesis hrun => exact congrArg (· + 1) (hbase _ hrun)
  | query hrun => exact congrArg (· + 2) (hbase _ hrun)
  | queryDigit _ hrun => exact congrArg (· + 3) (hbase _ hrun)
  | backslash hrun => exact congrArg (· + 1) (hbase _ hrun)

/-- The first character of an item leaves a bar pending only if it is one, and not the first
character of the text. -/
theorem bar_of_begin {index : Nat} (h : base.begin c = .ok next)
    (hbar : next.pending = .bar index) (hposition : base.position = parser.position) :
    c = '|' ∧ index = parser.position ∧ 0 < index := by
  unfold begin at h
  dsimp only at h
  split at h
  · exact nomatch (star_pending h).symm.trans hbar
  split at h
  · next hc =>
      obtain ⟨hne, count, choice, rfl⟩ := bar_cases h
      cases hbar
      exact ⟨hc, hposition, Nat.pos_of_ne_zero hne⟩
  split at h
  · cases h
    cases hbar
  split at h
  · exact nomatch (close_pending h).symm.trans hbar
  split at h
  · cases h
    cases hbar
  split at h
  · cases h
    cases hbar
  · cases h

/-- Only a bar that is not the first character of the text stays pending. -/
theorem bar_of_read {index : Nat} (h : parser.read c = .ok next)
    (hbar : next.pending = .bar index) : c = '|' ∧ index = parser.position ∧ 0 < index := by
  unfold Parser.read at h
  split at h
  · exact bar_of_begin h hbar rfl
  · exact bar_of_begin h hbar rfl
  · split at h
    · cases h
      cases hbar
    · obtain ⟨opened, hopen, hbegin⟩ := Except.bind_eq_ok_iff.1 h
      obtain ⟨_, rfl⟩ := openCapturing_eq_ok_iff.1 hopen
      exact bar_of_begin hbegin hbar rfl
  · unfold afterQuery at h
    split at h
    · cases h
      cases hbar
    · split at h
      · cases h
        cases hbar
      · cases h
  · unfold afterQueryDigit at h
    split at h
    · cases h
      cases hbar
    · cases h
  · unfold afterBackslash at h
    split at h
    · split at h
      · cases h
      · cases h
        cases hbar
    · cases h

/-- A bar that is pending after a text is its last character and not its first. -/
theorem bar_of_foldlM {index : Nat} (h : text.foldlM feed start = .ok parser)
    (hbar : parser.pending = .bar index) :
    ∃ front, text = front ++ ['|'] ∧ index = front.length ∧ 0 < index := by
  cases text using List.reverseRecOn with
  | nil =>
      cases h
      cases hbar
  | append_singleton text c =>
      rw [List.foldlM_append] at h
      obtain ⟨middle, hmiddle, hlast⟩ := Except.bind_eq_ok_iff.1 h
      obtain ⟨fed, hfeed, hnil⟩ := Except.bind_eq_ok_iff.1 hlast
      cases hnil
      unfold feed at hfeed
      split at hfeed
      · obtain ⟨read, hread, hnext⟩ := Except.bind_eq_ok_iff.1 hfeed
        cases hnext
        obtain ⟨rfl, hindex, hpos⟩ := bar_of_read hread hbar
        obtain ⟨tokens, rest, hlexed, rfl⟩ := Lexed.of_foldlM hmiddle
        exact ⟨_, rfl, hindex.trans hlexed.position_eq, hpos⟩
      · cases hfeed

/-- The number of groups that some tokens open. -/
def openings (tokens : List Token) : Nat :=
  tokens.count (.opening true) + tokens.count (.opening false)

/-- The groups that two lists of tokens open. -/
theorem openings_append (tokens tokens' : List Token) :
    openings (tokens ++ tokens') = openings tokens + openings tokens' := by
  rw [openings, openings, openings, List.count_append, List.count_append]
  omega

/-- A token opens a group, closes one or leaves them as they are. -/
theorem consume_enclosing {token : Token} (h : parser.consume token = .ok next) :
    next.enclosing.length + [token].count .closing =
      parser.enclosing.length + openings [token] := by
  cases token with
  | letter c => cases h; rfl
  | opening captures =>
      cases captures with
      | true =>
          obtain ⟨middle, hopen, h⟩ := Except.bind_eq_ok_iff.1 h
          obtain ⟨_, rfl⟩ := openCapturing_eq_ok_iff.1 hopen
          cases h
          rfl
      | false => cases h; rfl
  | closing =>
      obtain ⟨middle, hclose, h⟩ := Except.bind_eq_ok_iff.1 h
      obtain ⟨group, enclosing, henclosing, rfl⟩ := close_eq_ok_iff.1 hclose
      cases h
      show enclosing.length + 1 = parser.enclosing.length + 0
      rw [henclosing, List.length_cons]
  | star =>
      obtain ⟨middle, hstar, h⟩ := Except.bind_eq_ok_iff.1 h
      obtain ⟨_, _, _, _, rfl⟩ := star_eq_ok_iff.1 hstar
      cases h
      rfl
  | bar =>
      obtain ⟨middle, hbar, h⟩ := Except.bind_eq_ok_iff.1 h
      obtain ⟨_, _, _, rfl⟩ := bar_cases hbar
      cases h
      rfl
  | expressionRef group => cases h; rfl
  | stringRef group =>
      simp only [consume] at h
      split at h
      · cases h
      · cases h
        rfl

/-- After some tokens those groups are open that the tokens have opened and not closed. -/
theorem consumeAll_enclosing (h : parser.consumeAll tokens = .ok next) :
    next.enclosing.length + tokens.count .closing =
      parser.enclosing.length + openings tokens := by
  induction tokens generalizing parser with
  | nil =>
      cases h
      rfl
  | cons token tokens ih =>
      rw [consumeAll_cons] at h
      obtain ⟨middle, hmiddle, h⟩ := Except.bind_eq_ok_iff.1 h
      have hfirst := consume_enclosing hmiddle
      have hothers := ih h
      rw [← List.singleton_append, List.count_append, openings_append]
      omega

end Parser

end Backref
