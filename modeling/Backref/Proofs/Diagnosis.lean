import Backref.Proofs.Pattern.Alignment
import Backref.Proofs.Pattern.Continuation
import Backref.Proofs.Pattern.Grammar
import Backref.Proofs.Reference.Exactness

/-!
# What rejections say of the text

`Rejection.IsTrueOf` spells out what a rejection claims: which character stands at its index, how
many groups are open before it, which references the text has. Read `Config.isTrueOf_of_validate`
first: whatever rejects a text, the claim is true of the text.
-/

namespace Backref

/-- The number of capturing groups that a text opens before an index. -/
def capturesBefore (text : List Char) (index : Nat) : Nat :=
  (captureIndices 0 text).countP (· < index)

/-- At an index of the text stands `\N`. -/
def HasStringRef (text : List Char) (group index : Nat) : Prop :=
  text[index]? = some '\\' ∧
    ∃ digit, text[index + 1]? = some digit ∧ IsDigit digit ∧ digitValue digit = group

/-- Somewhere in the text stands `(?N)`. -/
def HasExpressionRef (text : List Char) (group : Nat) : Prop :=
  ∃ before digit after, IsDigit digit ∧ digitValue digit = group ∧
    text = before ++ '(' :: '?' :: digit :: ')' :: after

/-- What a rejection says is true of the text. -/
def Rejection.IsTrueOf (text : List Char) : Rejection → Prop
  | .invalidChar found index => text[index]? = some found ∧ Alphabet.contains found = false
  | .unexpectedChar found index => text[index]? = some found ∧ Alphabet.contains found
  | .unexpectedEnd index => index = text.length
  | .misplacedStar index => text[index]? = some '*'
  | .misplacedBar index => text[index]? = some '|' ∧ (index = 0 ∨ index + 1 = text.length)
  | .unmatchedClose index => text[index]? = some ')'
  | .unclosed count =>
      Token.spellAll (Token.scan text) = text ∧
        count + (Token.scan text).count .closing =
          (Token.scan text).count (.opening true) + (Token.scan text).count (.opening false)
  | .tooManyGroups index => text[index]? = some '(' ∧ capturesBefore text index = 9
  | .undeclaredGroup group index =>
      HasStringRef text group index ∧ capturesBefore text index < group
  | .unknownGroup group count =>
      (HasExpressionRef text group ∧ ∀ other, HasExpressionRef text other → other ≤ group) ∧
        count = capturingCount text ∧ count < group
  | .uninitialized group index =>
      HasStringRef text group index ∧ group ≤ capturesBefore text index
  | .pathLimit _ => True

/-- A rejection that is true of a text points into it, or to its end if the text is not complete. -/
theorem Rejection.IsTrueOf.index_lt {text : List Char} {rejection : Rejection}
    (h : rejection.IsTrueOf text) {index : Nat} (hindex : rejection.index? = some index)
    (hend : rejection ≠ .unexpectedEnd index) : index < text.length := by
  have hlt : ∀ {c : Char}, text[index]? = some c → index < text.length := fun hc =>
    (List.getElem?_eq_some_iff.1 hc).1
  cases rejection with
  | unexpectedEnd own =>
      cases hindex
      exact absurd rfl hend
  | unclosed _ | unknownGroup _ _ | pathLimit _ => cases hindex
  | misplacedStar _ | unmatchedClose _ =>
      cases hindex
      exact hlt h
  | invalidChar _ _ | unexpectedChar _ _ | misplacedBar _ | tooManyGroups _ =>
      cases hindex
      exact hlt h.1
  | undeclaredGroup _ _ | uninitialized _ _ =>
      cases hindex
      exact hlt h.1.1

/-! ## Groups and references in a text -/

/-- The groups of a text open at its characters. -/
theorem bounds_of_mem_captureIndices {text : List Char} {index found : Nat}
    (h : found ∈ captureIndices index text) : index ≤ found ∧ found < index + text.length := by
  induction text generalizing index with
  | nil => cases h
  | cons c text ih =>
      rw [List.length_cons]
      rw [captureIndices] at h
      split at h
      · rcases List.mem_cons.1 h with rfl | h
        · omega
        · have hbounds := ih h
          omega
      · have hbounds := ih h
        omega

/-- The groups that a text opens before a part of it are those of the text before that part. -/
theorem capturesBefore_append {before rest : List Char} (h : rest.head? ≠ some '?') :
    capturesBefore (before ++ rest) before.length = capturingCount before := by
  rw [capturesBefore, Token.captureIndices_append h, List.countP_append, capturingCount,
    List.countP_eq_length.2, List.countP_eq_zero.2]
  · rfl
  · intro found hfound
    have hbounds := bounds_of_mem_captureIndices hfound
    simp only [decide_eq_true_eq]
    omega
  · intro found hfound
    have hbounds := bounds_of_mem_captureIndices hfound
    simp only [decide_eq_true_eq]
    omega

/-- The groups that a text opens before a part of it, when some tokens stand before that part. -/
theorem capturesBefore_spellAll (tokens : List Token) {rest : List Char}
    (h : rest.head? ≠ some '?') :
    capturesBefore (Token.spellAll tokens ++ rest) (Token.spellAll tokens).length =
      tokens.count (.opening true) := by
  rw [capturesBefore_append h, Token.capturingCount_spellAll]

/-- A string reference after a part of a text. -/
theorem hasStringRef_append (before after : List Char) (group : GroupNumber) :
    HasStringRef (before ++ '\\' :: group.digit :: after) group.value before.length := by
  refine ⟨by simp, group.digit, ?_, group.isDigit_digit, group.digitValue_digit⟩
  simp

/-- The expression references of some tokens are those of their text. -/
theorem hasExpressionRef_spellAll {tokens : List Token} {number : Nat} :
    HasExpressionRef (Token.spellAll tokens) number ↔
      ∃ group, .expressionRef group ∈ tokens ∧ group.value = number := by
  constructor
  · rintro ⟨before, digit, after, hdigit, rfl, htext⟩
    obtain ⟨group, hmem, rfl⟩ := Token.exists_expressionRef hdigit htext
    exact ⟨group, hmem, group.digitValue_digit.symm⟩
  · rintro ⟨group, hmem, rfl⟩
    obtain ⟨before, after, rfl⟩ := List.append_of_mem hmem
    refine ⟨Token.spellAll before, group.digit, Token.spellAll after, group.isDigit_digit,
      group.digitValue_digit, ?_⟩
    simp [Token.spell]

namespace Parser

variable {parser base : Parser} {rejection : Rejection} {tokens : List Token}
  {text rest : List Char}

/-- The parser has counted the groups of the tokens that it has read. -/
theorem groupCount_of_consumeAll (hrun : start.consumeAll tokens = .ok base) :
    base.groupCount = tokens.count (.opening true) := by
  rw [(consumeAll_tally hrun).groupCount]
  exact Nat.zero_add _

/-- The parser stands after the tokens that it has read. -/
theorem position_of_consumeAll (hrun : start.consumeAll tokens = .ok base) :
    base.position = (Token.spellAll tokens).length := by
  rw [(consumeAll_tally hrun).position]
  exact Nat.zero_add _

/-- A group that is one too many comes after nine others. -/
theorem isTrueOf_tooManyGroups (hrun : start.consumeAll tokens = .ok base)
    (hcount : base.groupCount = maxGroups) (rest : List Char) :
    (Rejection.tooManyGroups base.position).IsTrueOf (Token.spellAll tokens ++ '(' :: rest) := by
  rw [position_of_consumeAll hrun]
  refine ⟨by simp, ?_⟩
  rw [capturesBefore_spellAll tokens (by simp), ← groupCount_of_consumeAll hrun, hcount]
  rfl

/-- A rejection that blames the next character of a text is true of the text. -/
theorem Lexed.isTrueOf_of_blames {c : Char} (hlexed : Lexed tokens rest parser)
    (h : rejection.Blames parser c) (back : List Char) :
    rejection.IsTrueOf (Token.spellAll tokens ++ rest ++ c :: back) := by
  have hposition := hlexed.position_eq
  have hfound : (Token.spellAll tokens ++ rest ++ c :: back)[parser.position]? = some c := by
    rw [hposition]
    simp
  cases rejection with
  | invalidChar found index =>
      obtain ⟨rfl, rfl, hc⟩ := h
      exact ⟨hfound, hc⟩
  | unexpectedChar found index =>
      obtain ⟨rfl, rfl, hc⟩ := h
      exact ⟨hfound, hc⟩
  | misplacedStar index =>
      obtain ⟨rfl, rfl⟩ := h
      exact hfound
  | misplacedBar index =>
      obtain ⟨rfl, rfl, hzero⟩ := h
      exact ⟨hfound, .inl hzero⟩
  | unmatchedClose index =>
      obtain ⟨rfl, rfl⟩ := h
      exact hfound
  | tooManyGroups index =>
      obtain ⟨hpending, hcount⟩ := h
      cases hlexed with
      | settled hrun _ => exact nomatch (consumeAll_pending hrun).symm.trans hpending
      | bar _ hrun | query hrun | queryDigit _ hrun | backslash hrun => cases hpending
      | @parenthesis base hrun =>
          cases hpending
          rw [List.append_assoc]
          exact isTrueOf_tooManyGroups hrun hcount (c :: back)
  | undeclaredGroup group index =>
      obtain ⟨hpending, hgroup, hcount⟩ := h
      obtain ⟨number, rfl, rfl⟩ := GroupNumber.exists_of_groupNumber? hgroup
      cases hlexed with
      | settled hrun _ => exact nomatch (consumeAll_pending hrun).symm.trans hpending
      | bar _ hrun | parenthesis hrun | query hrun | queryDigit _ hrun => cases hpending
      | @backslash base hrun =>
          cases hpending
          replace hcount : base.groupCount < number.value := hcount
          rw [List.append_assoc, position_of_consumeAll hrun]
          refine ⟨hasStringRef_append _ back number, ?_⟩
          rwa [capturesBefore_spellAll tokens (by simp), ← groupCount_of_consumeAll hrun]
  | unexpectedEnd _ | unclosed _ | unknownGroup _ _ | uninitialized _ _ | pathLimit _ => cases h

/-- When no construct is pending, what is missing at the end is as reported. -/
theorem isTrueOf_of_conclude (hrun : start.consumeAll tokens = .ok base)
    (h : base.conclude = .error rejection) : rejection.IsTrueOf (Token.spellAll tokens) := by
  unfold conclude at h
  split at h
  · cases h
    have hbalance := consumeAll_enclosing hrun
    rw [show start.enclosing.length = 0 from rfl, Nat.zero_add] at hbalance
    rw [Rejection.IsTrueOf, Token.scan_spellAll]
    exact ⟨rfl, hbalance⟩
  · split at h
    · next hmissing =>
        cases h
        have hmax := (consumeAll_tally hrun).maxExpressionRef_le
        refine ⟨⟨hasExpressionRef_spellAll.2 ?_, fun other hother => ?_⟩, ?_, hmissing⟩
        · -- Otherwise the maximum would be smaller.
          by_contra hnone
          have hsmaller := (hmax (base.maxExpressionRef - 1)).2 ⟨Nat.zero_le _, fun group hmem => by
            have hle := ((hmax base.maxExpressionRef).1 (Nat.le_refl _)).2 group hmem
            have hne : group.value ≠ base.maxExpressionRef := fun heq => hnone ⟨group, hmem, heq⟩
            omega⟩
          omega
        · obtain ⟨group, hmem, rfl⟩ := hasExpressionRef_spellAll.1 hother
          exact ((hmax base.maxExpressionRef).1 (Nat.le_refl _)).2 group hmem
        · rw [Token.capturingCount_spellAll, groupCount_of_consumeAll hrun]
    · cases h

/-- A rejection at the end of a text is true of the text. -/
theorem isTrueOf_of_finish (hfold : text.foldlM feed start = .ok parser)
    (h : parser.finish = .error rejection) : rejection.IsTrueOf text := by
  obtain ⟨tokens, rest, hlexed, rfl⟩ := Lexed.of_foldlM hfold
  have hposition := hlexed.position_eq
  cases hlexed with
  | settled hrun _ =>
      unfold finish at h
      rw [consumeAll_pending hrun] at h
      rw [List.append_nil]
      exact isTrueOf_of_conclude hrun h
  | bar index hrun =>
      cases h
      obtain ⟨front, htext, rfl, _⟩ := bar_of_foldlM hfold rfl
      rw [htext]
      exact ⟨by simp, .inr (by simp)⟩
  | @parenthesis base hrun =>
      rcases Except.bind_eq_error_iff.1 h with hopen | ⟨opened, hopen, hconclude⟩
      · obtain ⟨rfl, hcount⟩ := openCapturing_eq_error hopen
        exact isTrueOf_tooManyGroups hrun hcount []
      · -- The last character is a token of its own.
        obtain ⟨hcount, rfl⟩ := openCapturing_eq_ok_iff.1 hopen
        have hnext : base.consume (.opening true) = .ok _ :=
          Except.bind_eq_ok_iff.2 ⟨_, openCapturing_eq_ok_iff.2 ⟨hcount, rfl⟩, rfl⟩
        have htrue := isTrueOf_of_conclude ((consumeAll_snoc hrun _).trans hnext) hconclude
        simpa [Token.spell] using htrue
  | query hrun | queryDigit group hrun | backslash hrun =>
      cases h
      exact hposition

end Parser

/-- A rejection of the parser is true of the text. -/
theorem Pattern.isTrueOf_of_parse {text : String} {rejection : Rejection}
    (h : Pattern.parse text = .error rejection) : rejection.IsTrueOf text.toList := by
  rcases parse_eq_error_iff.1 h with hfold | ⟨parser, hfold, hfinish⟩
  · obtain ⟨front, c, back, parser, htext, hfront, hfeed⟩ := Parser.exists_feed_of_foldlM hfold
    obtain ⟨tokens, rest, hlexed, rfl⟩ := Parser.Lexed.of_foldlM hfront
    rw [htext]
    exact hlexed.isTrueOf_of_blames (Parser.blames_of_feed hfeed) back
  · exact Parser.isTrueOf_of_finish hfold hfinish

/-! ## The rules for string references -/

/-- The structural rule rejects a site for its string reference. -/
theorem Site.exists_of_misplaced? {groups : List (Nat × Site)} {site : Site}
    {rejection : Rejection} (h : site.misplaced? groups = some rejection) :
    ∃ group, site.kind = .stringRef group ∧ rejection = .uninitialized group site.position := by
  unfold Site.misplaced? at h
  split at h
  · next group hkind =>
      split at h
      · cases h
      · exact ⟨group, hkind, (Option.some.inj h).symm⟩
  · cases h

/-- A parsed pattern is rejected for one of its string references, or because the search gives
up. -/
theorem Config.cases_of_check {config : Config} {text : String} {pattern : Pattern}
    {rejection : Rejection} (hparse : Pattern.parse text = .ok pattern)
    (h : config.check pattern = .error rejection) :
    (∃ site ∈ pattern.sites, ∃ group, site.kind = .stringRef group ∧
      rejection = .uninitialized group site.position) ∨ ∃ limit, rejection = .pathLimit limit := by
  obtain ⟨maxPaths, workers, rule⟩ := config
  cases rule with
  | pathSensitive =>
      rcases Pattern.mayViolate_of_checkPaths (Pattern.explorable_of_parse hparse) h with
        ⟨group, index, rfl, violations, matched, hwalk, hmem⟩ | rfl
      · obtain ⟨node, hnode, hkind, rfl⟩ := hwalk.exists_stringRef hmem
        obtain ⟨site, hsite, rfl⟩ := Pattern.mem_subtree_root.1 hnode
        exact .inl ⟨site, hsite, group, hkind, rfl⟩
      · exact .inr ⟨maxPaths, rfl⟩
  | structural =>
      replace h : pattern.checkPlacement = .error rejection := h
      rw [Pattern.checkPlacement] at h
      split at h
      · next found hfound =>
          cases h
          obtain ⟨site, hsite, hmisplaced⟩ := List.exists_of_findSome?_eq_some hfound
          exact .inl ⟨site, hsite, Site.exists_of_misplaced? hmisplaced⟩
      · cases h

/-- A string reference of a parsed pattern stands in the text, after the group that it names has
opened. -/
theorem Pattern.isTrueOf_uninitialized {text : String} {pattern : Pattern} {site : Site}
    {group : Nat} (h : Pattern.parse text = .ok pattern) (hsite : site ∈ pattern.sites)
    (hkind : site.kind = .stringRef group) :
    (Rejection.uninitialized group site.position).IsTrueOf text.toList := by
  have hatom : site.kind.isAtom := by
    rw [hkind]
    rfl
  obtain ⟨before, token, after, htokens, hposition, htoken⟩ := exists_token_of_parse h hsite hatom
  rw [hkind] at htoken
  obtain ⟨number, rfl, rfl⟩ := Token.exists_stringRef_of_kind? htoken
  obtain ⟨regex, hvalid, htext, hscan, _⟩ := exists_valid_of_parse h
  rw [← hscan] at htokens
  have hsplit : text.toList =
      Token.spellAll before ++ '\\' :: number.digit :: Token.spellAll after := by
    rw [← htext, Regex.text, htokens]
    simp [Token.spell]
  rw [hsplit, hposition]
  refine ⟨hasStringRef_append _ _ number, ?_⟩
  rw [capturesBefore_spellAll before (by simp)]
  exact hvalid.stringRef_le before number after htokens

/-- Rejections are true. Whatever rejects a text, the parser or one of the rules, points to the
character or the reference that it names, counts the groups as the text has them, and gives an index
within the text unless the text ends too early. -/
theorem Config.isTrueOf_of_validate {maxPaths : Nat} {rule : Rule} {text : String}
    {rejection : Rejection} (h : (Config.mk maxPaths 1 rule).validate text = .error rejection) :
    rejection.IsTrueOf text.toList ∧
      ∀ index, rejection.index? = some index → rejection ≠ .unexpectedEnd index →
        index < text.toList.length := by
  have htrue : rejection.IsTrueOf text.toList := by
    rcases Except.bind_eq_error_iff.1 h with hparse | ⟨pattern, hparse, hcheck⟩
    · exact Pattern.isTrueOf_of_parse hparse
    · rcases Except.bind_eq_error_iff.1 hcheck with hcheck | ⟨_, _, hpure⟩
      · rcases Config.cases_of_check hparse hcheck with ⟨site, hsite, group, hkind, rfl⟩ | ⟨_, rfl⟩
        · exact Pattern.isTrueOf_uninitialized hparse hsite hkind
        · trivial
      · cases hpure
  exact ⟨htrue, fun index => htrue.index_lt⟩

/-- In `((a)|b)\2` the second group opens before the reference, but the first branch of the
alternation may be left out. -/
theorem Config.isTrueOf_of_validate_alternation :
    (Config.mk 10 1 .structural).validate "((a)|b)\\2" = .error (.uninitialized 2 7) ∧
      (Rejection.uninitialized 2 7).IsTrueOf "((a)|b)\\2".toList ∧
      capturesBefore "((a)|b)\\2".toList 7 = 2 := by
  obtain ⟨pattern, hparse, hcheck⟩ : ∃ pattern, Pattern.parse "((a)|b)\\2" = .ok pattern ∧
      pattern.checkPlacement = .error (.uninitialized 2 7) := ⟨_, rfl, by decide +kernel⟩
  have hrejected : (Config.mk 10 1 .structural).validate "((a)|b)\\2" =
      .error (.uninitialized 2 7) := (Config.validate_eq_error_iff hparse).2 hcheck
  exact ⟨hrejected, (Config.isTrueOf_of_validate hrejected).1, by decide⟩

end Backref
