import Backref.Proofs.Pattern.Draft
import Backref.Proofs.Pattern.Fault
import Backref.Proofs.Pattern.Spelling
import Mathlib.Data.List.Basic

/-!
# Texts that go on

A rejected text may be the beginning of a pattern. `Rejection.IsFinal` names the rejections that
nothing that follows can take back, and `Rejection.IsRepairable` those after which a text can be
completed. Read `Pattern.parse_append_eq_error` and `Pattern.exists_parse_append_iff` first.

Final are the rejections of a single character, repairable those at the end of the text. What the
parser holds at the end is completed in the order in which it was opened: the unfinished construct
first, then the open groups, then the groups that expression references name.
-/

namespace Backref

namespace Rejection

/-- What follows a text of the given length cannot take back the rejection of the text. -/
def IsFinal (length : Nat) : Rejection → Prop
  | .invalidChar .. | .unexpectedChar .. | .misplacedStar _ | .unmatchedClose _
  | .undeclaredGroup .. => True
  | .misplacedBar index => index = 0
  | .tooManyGroups index => index + 1 < length
  | .unexpectedEnd _ | .unclosed _ | .unknownGroup .. | .uninitialized .. | .pathLimit _ => False

/-- The rejection says that a text of the given length is not complete, or that its last character
must not be the last one. -/
def IsRepairable (length : Nat) : Rejection → Prop
  | .unexpectedEnd _ | .unclosed _ | .unknownGroup .. => True
  | .misplacedBar index => 0 < index
  | .tooManyGroups index => index + 1 = length
  | .invalidChar .. | .unexpectedChar .. | .misplacedStar _ | .unmatchedClose _
  | .undeclaredGroup .. | .uninitialized .. | .pathLimit _ => False

variable {rejection : Rejection} {length : Nat}

/-- A final rejection of a text is one of a longer text too. -/
theorem IsFinal.mono (h : rejection.IsFinal length) {length' : Nat} (hle : length ≤ length') :
    rejection.IsFinal length' := by
  cases rejection with
  | tooManyGroups index => exact Nat.lt_of_lt_of_le h hle
  | _ => exact h

/-- A repairable rejection is not final. -/
theorem IsRepairable.not_isFinal (h : rejection.IsRepairable length) :
    ¬ rejection.IsFinal length := by
  intro hfinal
  cases rejection with
  | tooManyGroups index => exact Nat.ne_of_lt hfinal h
  | misplacedBar index => exact Nat.ne_of_gt h hfinal
  | _ => first | exact h | exact hfinal

end Rejection

namespace Parser

variable {parser next base : Parser} {rejection : Rejection} {c : Char} {tokens : List Token}
  {text rest : List Char}

/-! ## What is rejected for good -/

/-- A rejection that blames a character is final. If the character shows that a pending `(` opens a
group too many, it stands after it. -/
theorem isFinal_of_blames {length : Nat} (h : rejection.Blames parser c)
    (hlength : ∀ start, parser.pending = .parenthesis start → start + 1 < length) :
    rejection.IsFinal length := by
  cases rejection with
  | misplacedBar index => exact h.2.2
  | tooManyGroups index => exact hlength index h.1
  | unexpectedEnd _ | unclosed _ | unknownGroup _ _ | uninitialized _ _ | pathLimit _ => cases h
  | invalidChar _ _ | unexpectedChar _ _ | misplacedStar _ | unmatchedClose _
    | undeclaredGroup _ _ => trivial

/-- The next character of a text is accepted or rejected for good. -/
theorem Lexed.isFinal (hlexed : Lexed tokens rest parser)
    (h : parser.feed c = .error rejection) : rejection.IsFinal (parser.position + 1) := by
  refine isFinal_of_blames (blames_of_feed h) fun start hpending => ?_
  cases hlexed with
  | settled hrun _ => exact nomatch (consumeAll_pending hrun).symm.trans hpending
  | bar _ hrun | query hrun | queryDigit _ hrun | backslash hrun => cases hpending
  | @parenthesis base hrun =>
      cases hpending
      exact Nat.lt_succ_self (base.position + 1)

/-- A text in which a character is rejected is rejected for good. -/
theorem isFinal_of_foldlM (h : text.foldlM feed start = .error rejection) :
    rejection.IsFinal text.length := by
  obtain ⟨front, c, back, parser, rfl, hfront, hfeed⟩ := exists_feed_of_foldlM h
  obtain ⟨tokens, rest, hlexed, rfl⟩ := Lexed.of_foldlM hfront
  refine (hlexed.isFinal hfeed).mono ?_
  simp only [hlexed.position_eq, List.length_append, List.length_cons]
  omega

/-! ## What is rejected at the end -/

/-- Open groups and missing groups can be repaired. -/
theorem isRepairable_of_conclude (h : parser.conclude = .error rejection) (length : Nat) :
    rejection.IsRepairable length := by
  unfold conclude at h
  split at h
  · cases h
    trivial
  · split at h
    · cases h
      trivial
    · cases h

/-- What is rejected at the end of a text can be repaired. -/
theorem isRepairable_of_finish (hfold : text.foldlM feed start = .ok parser)
    (h : parser.finish = .error rejection) : rejection.IsRepairable text.length := by
  obtain ⟨tokens, rest, hlexed, rfl⟩ := Lexed.of_foldlM hfold
  cases hlexed with
  | settled hrun _ =>
      unfold finish at h
      rw [consumeAll_pending hrun] at h
      exact isRepairable_of_conclude h _
  | bar index hrun =>
      cases h
      obtain ⟨_, _, _, hpos⟩ := bar_of_foldlM hfold rfl
      exact hpos
  | @parenthesis base hrun =>
      rcases Except.bind_eq_error_iff.1 h with hopen | ⟨opened, _, hconclude⟩
      · rw [(openCapturing_eq_error hopen).1]
        exact (Lexed.parenthesis hrun).position_eq
      · exact isRepairable_of_conclude hconclude _
  | query hrun | queryDigit group hrun | backslash hrun =>
      cases h
      trivial

/-! ## How a text is completed -/

/-- Capturing groups without items. -/
def emptyGroups : Nat → List Token
  | 0 => []
  | count + 1 => .opening true :: .closing :: emptyGroups count

/-- Tokens that bring the parser to a good end: a letter, which may follow anything, the open groups
closed, and the groups that expression references name and that are missing. -/
def ending (parser : Parser) : List Token :=
  .letter ⟨'a', by decide⟩ :: (List.replicate parser.enclosing.length .closing ++
    emptyGroups (parser.maxExpressionRef - parser.groupCount))

/-- All open groups can be closed. -/
theorem consumeAll_closings (parser : Parser) :
    ∃ next, parser.consumeAll (List.replicate parser.enclosing.length .closing) = .ok next ∧
      next.enclosing = [] := by
  induction henclosing : parser.enclosing generalizing parser with
  | nil => exact ⟨parser, rfl, henclosing⟩
  | cons group enclosing ih =>
      obtain ⟨middle, hmiddle, _, hmiddleEnclosing, _⟩ := consume_closing henclosing
      obtain ⟨next, hnext, hnextEnclosing⟩ := ih middle hmiddleEnclosing
      exact ⟨next, Except.bind_eq_ok_iff.2 ⟨middle, hmiddle, hnext⟩, hnextEnclosing⟩

/-- As many groups can be opened and closed as the limit leaves. -/
theorem consumeAll_emptyGroups (parser : Parser) {count : Nat}
    (h : parser.groupCount + count ≤ maxGroups) :
    ∃ next, parser.consumeAll (emptyGroups count) = .ok next ∧
      next.enclosing = parser.enclosing := by
  induction count generalizing parser with
  | zero => exact ⟨parser, rfl, rfl⟩
  | succ count ih =>
      have hallowed : (Token.opening true).Allowed parser.groupCount := by
        show parser.groupCount < maxGroups
        omega
      obtain ⟨opened, hopened, _, henclosing, _⟩ := consume_opening hallowed
      obtain ⟨closed, hclosed, _, hclosedEnclosing, _⟩ := consume_closing henclosing
      have hcount : closed.groupCount = parser.groupCount + 1 := by
        rw [(consume_tally hclosed).groupCount, (consume_tally hopened).groupCount]
        rfl
      obtain ⟨next, hnext, hnextEnclosing⟩ := ih closed (by omega)
      refine ⟨next, ?_, hnextEnclosing.trans hclosedEnclosing⟩
      have hgroup : opened.consumeAll (.closing :: emptyGroups count) = .ok next :=
        Except.bind_eq_ok_iff.2 ⟨closed, hclosed, hnext⟩
      exact Except.bind_eq_ok_iff.2 ⟨opened, hopened, hgroup⟩

/-- The groups without items are as many as asked for. -/
theorem count_emptyGroups (count : Nat) :
    (emptyGroups count).count (.opening true) = count := by
  induction count with
  | zero => rfl
  | succ count ih => rw [emptyGroups, List.count_cons_self, List.count_cons_of_ne (by decide), ih]

/-- Groups without items consist of parentheses. -/
theorem mem_emptyGroups {token : Token} {count : Nat} (h : token ∈ emptyGroups count) :
    token = .opening true ∨ token = .closing := by
  induction count with
  | zero => cases h
  | succ count ih =>
      rcases List.mem_cons.1 h with rfl | h
      · exact .inl rfl
      · rcases List.mem_cons.1 h with rfl | h
        · exact .inr rfl
        · exact ih h

/-- The ending opens the groups that are missing. -/
theorem count_ending (parser : Parser) :
    parser.ending.count (.opening true) = parser.maxExpressionRef - parser.groupCount := by
  rw [ending, List.count_cons_of_ne (by simp), List.count_append, count_emptyGroups,
    List.count_replicate, if_neg (by decide), Nat.zero_add]

/-- The ending consists of a letter and parentheses. -/
theorem mem_ending {token : Token} (h : token ∈ parser.ending) :
    (∃ c, token = .letter c) ∨ token = .opening true ∨ token = .closing := by
  rcases List.mem_cons.1 h with rfl | h
  · exact .inl ⟨_, rfl⟩
  · rcases List.mem_append.1 h with h | h
    · exact .inr (.inr (List.eq_of_mem_replicate h))
    · exact .inr (mem_emptyGroups h)

/-- A parser without open groups whose references are all known comes to a good end. -/
theorem conclude_eq_ok (henclosing : parser.enclosing = [])
    (hmax : parser.maxExpressionRef ≤ parser.groupCount) :
    ∃ pattern, parser.conclude = .ok pattern := by
  unfold conclude
  rw [if_neg (not_ne_iff.2 henclosing), if_neg (Nat.not_lt.2 hmax)]
  exact ⟨_, rfl⟩

/-- Whatever tokens have been read, the ending completes them. -/
theorem consumeAll_ending (hrun : start.consumeAll tokens = .ok base) :
    ∃ next pattern, base.consumeAll base.ending = .ok next ∧ next.conclude = .ok pattern := by
  have hcount : base.groupCount ≤ maxGroups := by
    have hle := (consumeAll_declared (Nat.zero_le _) hrun).groups_le
    rwa [← (consumeAll_tally hrun).groupCount] at hle
  have hmax : base.maxExpressionRef ≤ maxGroups :=
    ((consumeAll_tally hrun).maxExpressionRef_le _).2 ⟨Nat.zero_le _, fun group _ => group.le⟩
  -- No reference names a group beyond the limit, so there is room for the missing groups.
  obtain ⟨closed, hclosed, hclosedEnclosing⟩ :=
    consumeAll_closings ((base.addLeaf (.literal 'a') base.position).advance 1)
  have hclosedCount : closed.groupCount = base.groupCount := by
    rw [(consumeAll_tally hclosed).groupCount, List.count_replicate, if_neg (by decide)]
    rfl
  obtain ⟨next, hnext, hnextEnclosing⟩ : ∃ next,
      closed.consumeAll (emptyGroups (base.maxExpressionRef - base.groupCount)) = .ok next ∧
        next.enclosing = closed.enclosing := consumeAll_emptyGroups closed (by omega)
  have hending : base.consumeAll base.ending = .ok next := by
    refine Except.bind_eq_ok_iff.2 ⟨_, rfl, ?_⟩
    show consumeAll _ (List.replicate _ _ ++ _) = .ok next
    rw [consumeAll_append]
    exact Except.bind_eq_ok_iff.2 ⟨closed, hclosed, hnext⟩
  have hknown : next.maxExpressionRef ≤ next.groupCount := by
    have htally := consumeAll_tally hending
    refine (htally.maxExpressionRef_le _).2 ⟨?_, fun group hmem => ?_⟩
    · rw [htally.groupCount, count_ending]
      omega
    · obtain ⟨_, h⟩ | h | h := mem_ending hmem <;> cases h
  obtain ⟨pattern, hpattern⟩ := conclude_eq_ok (hnextEnclosing.trans hclosedEnclosing) hknown
  exact ⟨next, pattern, hending, hpattern⟩

/-- The text of any tokens that can be read is the beginning of a pattern. -/
theorem exists_parseChars_spellAll (hrun : start.consumeAll tokens = .ok base) :
    ∃ more pattern, Pattern.parseChars (Token.spellAll tokens ++ more) = .ok pattern := by
  obtain ⟨next, pattern, hending, hconclude⟩ := consumeAll_ending hrun
  have hlast : (tokens ++ base.ending).getLast? ≠ some .bar := by
    intro hbar
    have hne : base.ending ≠ [] := List.cons_ne_nil _ _
    rw [List.getLast?_append_of_ne_nil _ hne] at hbar
    have hmem := List.mem_of_getLast? hbar
    obtain ⟨_, h⟩ | h | h := mem_ending hmem <;> cases h
  refine ⟨Token.spellAll base.ending, pattern, Pattern.parseChars_eq_ok_iff.2
    ⟨tokens ++ base.ending, next, Token.spellAll_append _ _, hlast, ?_, hconclude⟩⟩
  rw [consumeAll_append, hrun]
  exact hending

/-- If some characters complete a token that can be read, the text before them is the beginning of a
pattern. -/
theorem exists_parseChars_spell (hrun : start.consumeAll tokens = .ok base) {token : Token}
    (htoken : base.consume token = .ok next) {fix : List Char}
    (hspell : token.spell = rest ++ fix) :
    ∃ more pattern, Pattern.parseChars (Token.spellAll tokens ++ rest ++ more) = .ok pattern := by
  obtain ⟨more, pattern, hparse⟩ :=
    exists_parseChars_spellAll ((consumeAll_snoc hrun token).trans htoken)
  refine ⟨fix ++ more, pattern, ?_⟩
  rw [← hparse, Token.spellAll_append, Token.spellAll_cons, Token.spellAll_nil, hspell]
  simp only [List.append_assoc, List.append_nil]

/-- What the parser holds can be completed, except for a backslash before the first group. -/
theorem Lexed.exists_parseChars (hlexed : Lexed tokens rest parser)
    (hgroup : rest = ['\\'] → parser.groupCount ≠ 0) :
    ∃ more pattern, Pattern.parseChars (Token.spellAll tokens ++ rest ++ more) = .ok pattern := by
  cases hlexed with
  | settled hrun _ | bar _ hrun =>
      rw [List.append_nil]
      exact exists_parseChars_spellAll hrun
  | @parenthesis base hrun =>
      -- There may be no room for one more capturing group, but `(?:` needs none.
      have hnext : base.consume (.opening false) = .ok _ := rfl
      exact exists_parseChars_spell hrun hnext rfl
  | @query base hrun =>
      have hnext : base.consume (.opening false) = .ok _ := rfl
      exact exists_parseChars_spell hrun hnext rfl
  | @queryDigit base group hrun =>
      have hnext : base.consume (.expressionRef group) = .ok _ := rfl
      exact exists_parseChars_spell hrun hnext rfl
  | @backslash base hrun =>
      have hpos : ¬ base.groupCount < 1 := Nat.not_lt.2 (Nat.pos_of_ne_zero (hgroup rfl))
      have hnext : base.consume (.stringRef ⟨1, by decide, by decide⟩) = .ok _ := if_neg hpos
      exact exists_parseChars_spell hrun hnext rfl

/-- Before the first group nothing can follow a backslash. -/
theorem feed_backslash_ne (base : Parser) (hgroup : base.groupCount = 0) (start : Nat) :
    (base.hold (.backslash start) 1).feed c ≠ .ok next := by
  intro h
  unfold feed at h
  split at h
  · obtain ⟨read, hread, _⟩ := Except.bind_eq_ok_iff.1 h
    simp only [Parser.read, hold] at hread
    unfold afterBackslash at hread
    split at hread
    · next group hnumber =>
        obtain ⟨number, rfl, _⟩ := GroupNumber.exists_of_groupNumber? hnumber
        rw [if_pos (by rw [hgroup]; exact number.pos)] at hread
        cases hread
    · cases hread
  · cases h

end Parser

/-! ## A backslash at the end -/

namespace Token

/-- Where no question mark follows, the groups of two texts are those of both. -/
theorem captureIndices_append {rest : List Char} (h : rest.head? ≠ some '?') (index : Nat)
    (text : List Char) :
    Backref.captureIndices index (text ++ rest) =
      Backref.captureIndices index text ++ Backref.captureIndices (index + text.length) rest := by
  induction text generalizing index with
  | nil => rfl
  | cons c text ih =>
      have hhead : (text ++ rest).head? ≠ some '?' ↔ text.head? ≠ some '?' := by
        cases text with
        | nil => exact iff_of_true h (by simp)
        | cons d text => rfl
      rw [List.cons_append, Backref.captureIndices, Backref.captureIndices, ih, List.length_cons,
        Nat.add_right_comm, Nat.add_assoc]
      simp only [hhead]
      split <;> rfl

/-- A backslash after some tokens opens no group. -/
theorem capturingCount_backslash (tokens : List Token) :
    capturingCount (spellAll tokens ++ ['\\']) = tokens.count (.opening true) := by
  rw [capturingCount, captureIndices_append (by decide), ← capturingCount_spellAll]
  exact congrArg List.length (List.append_nil _)

/-- No token ends with a backslash. -/
theorem getLast?_spellAll_ne_backslash (tokens : List Token) :
    (spellAll tokens).getLast? ≠ some '\\' := by
  cases tokens using List.reverseRecOn with
  | nil => simp
  | append_singleton tokens token =>
      have hne : token.spell ≠ [] := List.ne_nil_of_length_pos token.length_spell_pos
      rw [spellAll_append, spellAll_cons, spellAll_nil, List.append_nil,
        List.getLast?_append_of_ne_nil _ hne]
      cases token with
      | letter c => simpa [spell] using letter_char_ne c (by decide)
      | opening captures => cases captures <;> decide
      | stringRef group => simpa [spell] using group.digit_ne (by decide)
      | closing | star | bar => decide
      | expressionRef group => simp [spell]

end Token

/-- A text that has been read ends with a backslash when that is the unfinished construct. -/
theorem Parser.Lexed.getLast?_eq_iff {tokens : List Token} {rest : List Char} {parser : Parser}
    (hlexed : Parser.Lexed tokens rest parser) :
    (Token.spellAll tokens ++ rest).getLast? = some '\\' ↔ rest = ['\\'] := by
  cases hlexed with
  | settled _ _ | bar _ _ =>
      rw [List.append_nil]
      exact iff_of_false (Token.getLast?_spellAll_ne_backslash tokens) (List.cons_ne_nil _ _).symm
  | parenthesis _ | query _ | backslash _ => simp
  | queryDigit group _ => simpa using group.digit_ne (by decide)

/-- When a backslash is pending, the parser has counted the groups of the text. -/
theorem Parser.Lexed.capturingCount_eq {tokens : List Token} {parser : Parser}
    (hlexed : Parser.Lexed tokens ['\\'] parser) :
    capturingCount (Token.spellAll tokens ++ ['\\']) = parser.groupCount := by
  cases hlexed with
  | @backslash base hrun =>
      show _ = base.groupCount
      rw [Token.capturingCount_backslash, (Parser.consumeAll_tally hrun).groupCount]
      exact (Nat.zero_add _).symm

namespace Pattern

variable {text : String} {rejection : Rejection}

/-- A text is rejected at one of its characters or at its end. -/
theorem parse_eq_error_iff :
    Pattern.parse text = .error rejection ↔
      text.toList.foldlM Parser.feed Parser.start = .error rejection ∨
        ∃ parser, text.toList.foldlM Parser.feed Parser.start = .ok parser ∧
          parser.finish = .error rejection :=
  Except.bind_eq_error_iff

/-- The rejections of a text are those that are final and those that can be repaired. -/
theorem isRepairable_iff_not_isFinal (h : Pattern.parse text = .error rejection) :
    rejection.IsRepairable text.length ↔ ¬ rejection.IsFinal text.length := by
  refine ⟨Rejection.IsRepairable.not_isFinal, fun hfinal => ?_⟩
  rcases parse_eq_error_iff.1 h with hfold | ⟨parser, hfold, hfinish⟩
  · exact absurd (Parser.isFinal_of_foldlM hfold) hfinal
  · exact Parser.isRepairable_of_finish hfold hfinish

/-- Rejections are permanent. If a text is rejected in a way that no further character can take
back, each longer text is rejected in the same way. -/
theorem parse_append_eq_error (h : Pattern.parse text = .error rejection)
    (hfinal : rejection.IsFinal text.length) (more : String) :
    Pattern.parse (text ++ more) = .error rejection := by
  rcases parse_eq_error_iff.1 h with hfold | ⟨parser, hfold, hfinish⟩
  · refine parse_eq_error_iff.2 (.inl ?_)
    rw [String.toList_append, List.foldlM_append, hfold]
    rfl
  · exact absurd hfinal (Parser.isRepairable_of_finish hfold hfinish).not_isFinal

/-- The eleventh `(` shows that the tenth one captures, and that is one group too many for good. -/
theorem parse_append_eq_error_groups :
    Pattern.parse "(((((((((((" = .error (.tooManyGroups 9) ∧
      ∀ more : String, Pattern.parse ("(((((((((((" ++ more) = .error (.tooManyGroups 9) := by
  have hparse : Pattern.parse "(((((((((((" = .error (.tooManyGroups 9) := rfl
  have hfinal : (Rejection.tooManyGroups 9).IsFinal "(((((((((((".length := by
    show 9 + 1 < "(((((((((((".length
    decide
  exact ⟨hparse, parse_append_eq_error hparse hfinal⟩

/-- A text all of whose characters are read is the beginning of a pattern, unless it ends with a
backslash and opens no capturing group. -/
theorem exists_parseChars_append_iff {text : List Char} {parser : Parser}
    (hfold : text.foldlM Parser.feed Parser.start = .ok parser) :
    (∃ more pattern, Pattern.parseChars (text ++ more) = .ok pattern) ↔
      ¬ (text.getLast? = some '\\' ∧ capturingCount text = 0) := by
  obtain ⟨tokens, rest, hlexed, rfl⟩ := Parser.Lexed.of_foldlM hfold
  rw [hlexed.getLast?_eq_iff]
  constructor
  · rintro ⟨more, pattern, hparse⟩ ⟨rfl, hgroup⟩
    rw [hlexed.capturingCount_eq] at hgroup
    obtain ⟨last, hlast, hfinish⟩ := Except.bind_eq_ok_iff.1 hparse
    rw [List.foldlM_append, hfold] at hlast
    replace hlast : more.foldlM Parser.feed parser = .ok last := hlast
    cases hlexed with
    | @backslash base hrun =>
        cases more with
        | nil =>
            cases hlast
            cases hfinish
        | cons c more =>
            obtain ⟨next, hnext, _⟩ := Except.bind_eq_ok_iff.1 hlast
            exact Parser.feed_backslash_ne base hgroup _ hnext
  · intro h
    refine hlexed.exists_parseChars fun hrest => ?_
    subst hrest
    rw [← hlexed.capturingCount_eq]
    exact fun hgroup => h ⟨rfl, hgroup⟩

/-- A text that ends with a pending backslash is rejected because it ends too early. -/
theorem exists_unexpectedEnd {text : List Char} {parser : Parser}
    (hfold : text.foldlM Parser.feed Parser.start = .ok parser)
    (hfinish : parser.finish = .error rejection) (hlast : text.getLast? = some '\\') :
    ∃ index, rejection = .unexpectedEnd index := by
  obtain ⟨tokens, rest, hlexed, rfl⟩ := Parser.Lexed.of_foldlM hfold
  obtain rfl := hlexed.getLast?_eq_iff.1 hlast
  cases hlexed with
  | backslash hrun =>
      cases hfinish
      exact ⟨_, rfl⟩

/-- Every other rejection can be repaired by typing on, with a single exception: a text that ends
with a backslash and opens no capturing group is not the beginning of a pattern. -/
theorem exists_parse_append_iff (h : Pattern.parse text = .error rejection)
    (hrepairable : rejection.IsRepairable text.length) :
    (∃ more pattern, Pattern.parse (text ++ more) = .ok pattern) ↔
      ¬ ((∃ index, rejection = .unexpectedEnd index) ∧ text.toList.getLast? = some '\\' ∧
        capturingCount text.toList = 0) := by
  rcases parse_eq_error_iff.1 h with hfold | ⟨parser, hfold, hfinish⟩
  · exact absurd (Parser.isFinal_of_foldlM hfold) hrepairable.not_isFinal
  · have hmore : (∃ more pattern, Pattern.parse (text ++ more) = .ok pattern) ↔
        ∃ more pattern, Pattern.parseChars (text.toList ++ more) = .ok pattern := by
      constructor
      · rintro ⟨more, pattern, hparse⟩
        exact ⟨more.toList, pattern, by rw [← String.toList_append]; exact hparse⟩
      · rintro ⟨more, pattern, hparse⟩
        refine ⟨String.ofList more, pattern, ?_⟩
        rw [Pattern.parse, String.toList_append, String.toList_ofList]
        exact hparse
    rw [hmore, exists_parseChars_append_iff hfold]
    refine not_congr ⟨fun hlast => ⟨?_, hlast⟩, fun hlast => hlast.2⟩
    exact exists_unexpectedEnd hfold hfinish hlast.1

/-- The tenth `(` of a text may still become `(?:`, if nothing follows it. After `(?:a)\` there is
no group that a digit could name. -/
theorem exists_parse_append_iff_ends :
    (∃ more pattern, Pattern.parse ("((((((((((" ++ more) = .ok pattern) ∧
      ¬ ∃ more pattern, Pattern.parse ("(?:a)\\" ++ more) = .ok pattern := by
  have hgroups : Pattern.parse "((((((((((" = .error (.tooManyGroups 9) := rfl
  have hlast : (Rejection.tooManyGroups 9).IsRepairable "((((((((((".length := by
    show 9 + 1 = "((((((((((".length
    decide
  have hend : Pattern.parse "(?:a)\\" = .error (.unexpectedEnd 6) := rfl
  constructor
  · refine (exists_parse_append_iff hgroups hlast).2 fun h => ?_
    obtain ⟨⟨index, hindex⟩, _⟩ := h
    cases hindex
  · intro hmore
    exact (exists_parse_append_iff hend trivial).1 hmore ⟨⟨6, rfl⟩, by decide, by decide⟩

end Pattern

end Backref
