import Backref.Proofs.Pattern.Draft
import Backref.Proofs.Pattern.Spelling

/-!
# The grammar of patterns

The texts that the parser accepts, described on their characters alone: the grammar
`IsAlternation` and the four restrictions of `Restricted`.
Read `parse_isOk_iff_accepts` first: the parser accepts exactly these texts.
-/

namespace Backref

namespace Grammar

/-- At most one star. -/
inductive IsStar : List Char → Prop where
  | none : IsStar []
  | one : IsStar ['*']

mutual
/-- One or more sequences with bars between them. -/
inductive IsAlternation : List Char → Prop where
  | single {text : List Char} :
      IsSequence text → IsAlternation text
  | bar {first rest : List Char} :
      IsSequence first → IsAlternation rest → IsAlternation (first ++ '|' :: rest)

/-- Any number of items in a row. -/
inductive IsSequence : List Char → Prop where
  | nil : IsSequence []
  | cons {item rest : List Char} :
      IsItem item → IsSequence rest → IsSequence (item ++ rest)

/-- A letter, a group or a reference. A star may follow all but the string reference. -/
inductive IsItem : List Char → Prop where
  | letter {c : Char} {star : List Char} :
      'a' ≤ c → c ≤ 'z' → IsStar star → IsItem (c :: star)
  | capturing {body star : List Char} :
      IsAlternation body → IsStar star → IsItem ('(' :: (body ++ ')' :: star))
  | nonCapturing {body star : List Char} :
      IsAlternation body → IsStar star → IsItem ('(' :: '?' :: ':' :: (body ++ ')' :: star))
  | expressionRef {digit : Char} {star : List Char} :
      IsDigit digit → IsStar star → IsItem ('(' :: '?' :: digit :: ')' :: star)
  | stringRef {digit : Char} :
      IsDigit digit → IsItem ['\\', digit]
end

/-- What the grammar does not say: no bar at the start or at the end, at most nine capturing
groups, string references only to groups that are opened before them, and expression references
only to groups of the text. -/
structure Restricted (text : List Char) : Prop where
  head?_ne : text.head? ≠ some '|'
  getLast?_ne : text.getLast? ≠ some '|'
  groups_le : capturingCount text ≤ 9
  stringRef_le : ∀ before digit after, IsDigit digit → text = before ++ '\\' :: digit :: after →
    digitValue digit ≤ capturingCount before
  expressionRef_le : ∀ before digit after, IsDigit digit →
    text = before ++ '(' :: '?' :: digit :: ')' :: after → digitValue digit ≤ capturingCount text

/-- The accepted texts are those of the grammar that keep to the restrictions. -/
structure Accepts (text : List Char) : Prop where
  derived : IsAlternation text
  restricted : Restricted text

end Grammar

open Grammar

/-! ## The grammar describes the texts of abstract patterns -/

/-- The star of an item is at most one star. -/
theorem Token.isStar_starIf (starred : Bool) : IsStar (spellAll (starIf starred)) := by
  cases starred with
  | false => exact .none
  | true => exact .one

/-- At most one star is the star of an item that may have one. -/
theorem Grammar.IsStar.exists_starIf {text : List Char} (h : IsStar text) :
    ∃ starred, Token.spellAll (Token.starIf starred) = text := by
  cases h with
  | none => exact ⟨false, rfl⟩
  | one => exact ⟨true, rfl⟩

mutual

/-- The text of an item is an item of the grammar. -/
theorem Item.isItem : ∀ item : Item, IsItem (Token.spellAll item.tokens)
  | .letter c starred => by
      obtain ⟨hlower, hupper⟩ := Alphabet.isLetter_iff.1 c.isLetter
      exact .letter hlower hupper (Token.isStar_starIf starred)
  | .group captures first others starred => by
      have hbody := Item.isAlternation others (Item.isSequence first)
      have hstar := Token.isStar_starIf starred
      cases captures with
      | true => simpa [Item.tokens, Token.spell] using IsItem.capturing hbody hstar
      | false => simpa [Item.tokens, Token.spell] using IsItem.nonCapturing hbody hstar
  | .expressionRef number starred =>
      .expressionRef number.isDigit_digit (Token.isStar_starIf starred)
  | .stringRef number => .stringRef number.isDigit_digit

/-- The text of a sequence is a sequence of the grammar. -/
theorem Item.isSequence : ∀ items : List Item,
    IsSequence (Token.spellAll (Item.sequenceTokens items))
  | [] => .nil
  | item :: items => by
      rw [Item.sequenceTokens, Token.spellAll_append]
      exact .cons item.isItem (Item.isSequence items)

/-- A sequence and the texts of the sequences after it are an alternation of the grammar. -/
theorem Item.isAlternation : ∀ (others : List (List Item)) {text : List Char}, IsSequence text →
    IsAlternation (text ++ Token.spellAll (Item.barredTokens others))
  | [], text, h => by
      rw [Item.barredTokens, Token.spellAll_nil, List.append_nil]
      exact .single h
  | items :: others, text, h => by
      rw [Item.barredTokens, Token.spellAll_cons, Token.spellAll_append]
      exact .bar h (Item.isAlternation others (Item.isSequence items))

end

mutual

/-- An alternation of the grammar is the text of an abstract pattern. -/
theorem Grammar.IsAlternation.exists_regex : ∀ {text : List Char}, IsAlternation text →
    ∃ regex : Regex, regex.text = text
  | _, .single hsequence => by
      obtain ⟨items, rfl⟩ := hsequence.exists_items
      refine ⟨⟨items, []⟩, ?_⟩
      simp [Regex.text, Regex.tokens, Item.barredTokens]
  | _, .bar hfirst hrest => by
      obtain ⟨items, rfl⟩ := hfirst.exists_items
      obtain ⟨regex, rfl⟩ := hrest.exists_regex
      refine ⟨⟨items, regex.first :: regex.others⟩, ?_⟩
      simp [Regex.text, Regex.tokens, Item.barredTokens, Token.spell]

/-- A sequence of the grammar is the text of some items. -/
theorem Grammar.IsSequence.exists_items : ∀ {text : List Char}, IsSequence text →
    ∃ items, Token.spellAll (Item.sequenceTokens items) = text
  | _, .nil => ⟨[], rfl⟩
  | _, .cons hitem hrest => by
      obtain ⟨item, rfl⟩ := hitem.exists_item
      obtain ⟨items, rfl⟩ := hrest.exists_items
      exact ⟨item :: items, Token.spellAll_append _ _⟩

/-- An item of the grammar is the text of an item. -/
theorem Grammar.IsItem.exists_item : ∀ {text : List Char}, IsItem text →
    ∃ item : Item, Token.spellAll item.tokens = text
  | _, .letter hlower hupper hstar => by
      obtain ⟨starred, rfl⟩ := hstar.exists_starIf
      exact ⟨.letter ⟨_, Alphabet.isLetter_iff.2 ⟨hlower, hupper⟩⟩ starred, rfl⟩
  | _, .capturing hbody hstar => by
      obtain ⟨regex, rfl⟩ := hbody.exists_regex
      obtain ⟨starred, rfl⟩ := hstar.exists_starIf
      refine ⟨.group true regex.first regex.others starred, ?_⟩
      simp [Item.tokens_group, Regex.text, Token.spell]
  | _, .nonCapturing hbody hstar => by
      obtain ⟨regex, rfl⟩ := hbody.exists_regex
      obtain ⟨starred, rfl⟩ := hstar.exists_starIf
      refine ⟨.group false regex.first regex.others starred, ?_⟩
      simp [Item.tokens_group, Regex.text, Token.spell]
  | _, .expressionRef hdigit hstar => by
      obtain ⟨number, rfl⟩ := GroupNumber.exists_of_isDigit hdigit
      obtain ⟨starred, rfl⟩ := hstar.exists_starIf
      exact ⟨.expressionRef number starred, rfl⟩
  | _, .stringRef hdigit => by
      obtain ⟨number, rfl⟩ := GroupNumber.exists_of_isDigit hdigit
      exact ⟨.stringRef number, rfl⟩

end

/-- The grammar derives exactly the texts of abstract patterns. -/
theorem Grammar.isAlternation_iff {text : List Char} :
    IsAlternation text ↔ ∃ regex : Regex, regex.text = text := by
  constructor
  · exact fun h => h.exists_regex
  · rintro ⟨regex, rfl⟩
    rw [Regex.text, Regex.tokens, Token.spellAll_append]
    exact Item.isAlternation regex.others (Item.isSequence regex.first)

/-! ## The references of a text -/

namespace Token

/-- A backslash in the text of a token belongs to a string reference. -/
theorem eq_stringRef_of_spell_eq {token : Token} {inner outer : List Char}
    (h : token.spell = inner ++ '\\' :: outer) :
    ∃ group, token = .stringRef group ∧ inner = [] ∧ outer = [group.digit] := by
  have hmem : '\\' ∈ token.spell := by simp [h]
  cases token with
  | letter c => exact absurd (List.mem_singleton.1 hmem).symm (letter_char_ne c (by decide))
  | opening captures => cases captures <;> exact absurd hmem (by decide)
  | closing => exact absurd hmem (by decide)
  | star => exact absurd hmem (by decide)
  | bar => exact absurd hmem (by decide)
  | expressionRef group =>
      have hdigit := group.digit_ne (d := '\\') (by decide)
      simp [spell, hdigit.symm] at hmem
  | stringRef group =>
      have hdigit := group.digit_ne (d := '\\') (by decide)
      refine ⟨group, rfl, ?_⟩
      cases inner with
      | nil => simpa [spell, eq_comm] using h
      | cons head inner =>
          have hinner : '\\' ∈ [group.digit] := by simp [(List.cons.inj h).2]
          simp [hdigit.symm] at hinner

/-- A parenthesis in the text of a token opens a group or an expression reference. -/
theorem cases_of_spell_eq_parenthesis {token : Token} {inner outer : List Char}
    (h : token.spell = inner ++ '(' :: outer) :
    inner = [] ∧ (token = .opening true ∧ outer = [] ∨
      token = .opening false ∧ outer = ['?', ':'] ∨
      ∃ group, token = .expressionRef group ∧ outer = ['?', group.digit, ')']) := by
  have hmem : '(' ∈ token.spell := by simp [h]
  cases token with
  | letter c => exact absurd (List.mem_singleton.1 hmem).symm (letter_char_ne c (by decide))
  | opening captures =>
      cases captures with
      | true =>
          cases inner with
          | nil => exact ⟨rfl, .inl ⟨rfl, (List.cons.inj h).2.symm⟩⟩
          | cons head inner => simp [spell] at h
      | false =>
          cases inner with
          | nil => exact ⟨rfl, .inr (.inl ⟨rfl, (List.cons.inj h).2.symm⟩)⟩
          | cons head inner =>
              have hinner : '(' ∈ ['?', ':'] := by simp [(List.cons.inj h).2]
              exact absurd hinner (by decide)
  | closing => exact absurd hmem (by decide)
  | star => exact absurd hmem (by decide)
  | bar => exact absurd hmem (by decide)
  | expressionRef group =>
      cases inner with
      | nil => exact ⟨rfl, .inr (.inr ⟨group, rfl, (List.cons.inj h).2.symm⟩)⟩
      | cons head inner =>
          have hdigit := group.digit_ne (d := '(') (by decide)
          have hinner : '(' ∈ ['?', group.digit, ')'] := by simp [(List.cons.inj h).2]
          simp [hdigit.symm] at hinner
  | stringRef group =>
      have hdigit := group.digit_ne (d := '(') (by decide)
      simp [spell, hdigit.symm] at hmem

/-- A backslash and a digit in a text are a string reference. -/
theorem exists_stringRef {tokens : List Token} {before after : List Char} {digit : Char}
    (h : spellAll tokens = before ++ '\\' :: digit :: after) :
    ∃ front group back, tokens = front ++ .stringRef group :: back ∧ spellAll front = before ∧
      group.digit = digit ∧ spellAll back = after := by
  obtain ⟨front, token, back, inner, outer, htokens, hspell, hbefore, hafter⟩ :=
    exists_of_spellAll_eq h
  obtain ⟨group, rfl, rfl, rfl⟩ := eq_stringRef_of_spell_eq hspell
  obtain ⟨rfl, rfl⟩ := List.cons.inj hafter
  refine ⟨front, group, back, htokens, ?_, rfl, rfl⟩
  rw [hbefore, List.append_nil]

/-- A parenthesis, a question mark and a digit in a text belong to an expression reference. -/
theorem exists_expressionRef {tokens : List Token} {before after : List Char} {digit : Char}
    (hdigit : IsDigit digit) (h : spellAll tokens = before ++ '(' :: '?' :: digit :: after) :
    ∃ group, .expressionRef group ∈ tokens ∧ group.digit = digit := by
  obtain ⟨front, token, back, inner, outer, htokens, hspell, _, hafter⟩ := exists_of_spellAll_eq h
  obtain ⟨_, ⟨rfl, rfl⟩ | ⟨rfl, rfl⟩ | ⟨group, rfl, rfl⟩⟩ := cases_of_spell_eq_parenthesis hspell
  · have hquery := head?_spellAll_ne_query back
    rw [List.nil_append] at hafter
    rw [← hafter] at hquery
    exact absurd rfl hquery
  · obtain ⟨_, hcolon⟩ := List.cons.inj hafter
    rw [(List.cons.inj hcolon).1] at hdigit
    exact absurd hdigit.2 (by decide)
  · obtain ⟨_, hgroup⟩ := List.cons.inj hafter
    refine ⟨group, ?_, (List.cons.inj hgroup).1.symm⟩
    rw [htokens]
    simp

end Token

/-! ## The restrictions are those of abstract patterns -/

/-- An abstract pattern is valid exactly when its text keeps to the restrictions. -/
theorem Regex.valid_iff_restricted {regex : Regex} : regex.Valid ↔ Restricted regex.text := by
  have hhead : regex.text.head? ≠ some '|' ↔ regex.tokens.head? ≠ some .bar :=
    not_congr Token.head?_spellAll_bar
  have hlast : regex.text.getLast? ≠ some '|' ↔ regex.tokens.getLast? ≠ some .bar :=
    not_congr Token.getLast?_spellAll_bar
  have hcount : capturingCount regex.text = regex.tokens.count (.opening true) :=
    Token.capturingCount_spellAll regex.tokens
  constructor
  · intro h
    refine ⟨hhead.2 (Regex.head?_tokens_ne_bar.2 h.first_ne_nil),
      hlast.2 (Regex.getLast?_tokens_ne_bar.2 h.last_ne_nil), hcount ▸ h.groups_le, ?_, ?_⟩
    · intro before digit after _ htext
      obtain ⟨front, group, back, htokens, rfl, rfl, _⟩ := Token.exists_stringRef htext
      rw [group.digitValue_digit, Token.capturingCount_spellAll]
      exact h.stringRef_le front group back htokens
    · intro before digit after hdigit htext
      obtain ⟨group, hmem, rfl⟩ := Token.exists_expressionRef hdigit htext
      rw [group.digitValue_digit, hcount]
      exact h.expressionRef_le group hmem
  · intro h
    refine ⟨hcount ▸ h.groups_le, ?_, ?_, Regex.head?_tokens_ne_bar.1 (hhead.1 h.head?_ne),
      Regex.getLast?_tokens_ne_bar.1 (hlast.1 h.getLast?_ne)⟩
    · intro before group after htokens
      rw [← group.digitValue_digit, ← Token.capturingCount_spellAll]
      refine h.stringRef_le _ group.digit (Token.spellAll after) group.isDigit_digit ?_
      simp [Regex.text, htokens, Token.spell]
    · intro group hmem
      obtain ⟨before, after, htokens⟩ := List.append_of_mem hmem
      rw [← group.digitValue_digit, ← hcount]
      refine h.expressionRef_le (Token.spellAll before) group.digit (Token.spellAll after)
        group.isDigit_digit ?_
      simp [Regex.text, htokens, Token.spell]

/-- The parser accepts exactly the texts that the grammar derives and that keep to the
restrictions. -/
theorem parse_isOk_iff_accepts {text : String} :
    (∃ pattern, Pattern.parse text = .ok pattern) ↔ Accepts text.toList := by
  constructor
  · rintro ⟨pattern, hparse⟩
    obtain ⟨regex, hvalid, htext, _⟩ := Pattern.parse_eq_ok_iff.1 hparse
    rw [← htext]
    exact ⟨Grammar.isAlternation_iff.2 ⟨regex, rfl⟩, Regex.valid_iff_restricted.1 hvalid⟩
  · rintro ⟨hderived, hrestricted⟩
    obtain ⟨regex, htext⟩ := Grammar.isAlternation_iff.1 hderived
    rw [← htext] at hrestricted
    exact ⟨regex.build, Pattern.parse_eq_ok_iff.2
      ⟨regex, Regex.valid_iff_restricted.2 hrestricted, htext, rfl⟩⟩

end Backref
