import Backref.Proofs.Pattern.Unfolding

/-!
# Scanning a text

`Token.scan` reads the tokens of a text from left to right, without a parser: which token stands at
an index depends on at most four characters. `Token.scan_spellAll` says that it finds the tokens
that a text spells, and `Token.mem_atoms_iff` which nodes they bring.
-/

namespace Backref

/-- The group that a digit names. -/
def GroupNumber.ofChar? (c : Char) : Option GroupNumber := ofNat? (digitValue c)

/-- A group number is the one that its digit names. -/
theorem GroupNumber.ofChar?_digit (group : GroupNumber) : ofChar? group.digit = some group := by
  rw [ofChar?, group.digitValue_digit, ofNat?_value]

namespace Token

/-- The token that a `(` starts, from the text after it. -/
def ofParenthesis? (text : List Char) : Option Token :=
  if text[0]? ≠ some '?' then some (.opening true)
  else if text[1]? = some ':' then some (.opening false)
  else if text[2]? = some ')' then (text[1]?.bind GroupNumber.ofChar?).map .expressionRef
  else none

/-- The token at the beginning of a text. -/
def first? : List Char → Option Token
  | [] => none
  | c :: text =>
      if c = '(' then ofParenthesis? text
      else if c = ')' then some .closing
      else if c = '*' then some .star
      else if c = '|' then some .bar
      else if c = '\\' then (text.head?.bind GroupNumber.ofChar?).map .stringRef
      else (Letter.ofChar? c).map .letter

/-- The tokens of a text after its first `skip` characters. A character that starts no token is
passed over. -/
def scanAfter (skip : Nat) : List Char → List Token
  | [] => []
  | c :: text =>
      match skip, first? (c :: text) with
      | skip + 1, _ => scanAfter skip text
      | 0, some token => token :: scanAfter (token.spell.length - 1) text
      | 0, none => scanAfter 0 text

/-- The tokens of a text. -/
def scan (text : List Char) : List Token := scanAfter 0 text

/-- A token stands at the beginning of its characters. -/
theorem first?_spell_append (token : Token) {text : List Char} (h : text.head? ≠ some '?') :
    first? (token.spell ++ text) = some token := by
  cases token with
  | letter c =>
      have hne : ∀ d ∈ Alphabet.operators, c.char ≠ d := fun d => letter_char_ne c
      show first? (c.char :: text) = some (.letter c)
      rw [first?, if_neg (hne '(' (by decide)), if_neg (hne ')' (by decide)),
        if_neg (hne '*' (by decide)), if_neg (hne '|' (by decide)), if_neg (hne '\\' (by decide)),
        c.ofChar?_char, Option.map_some]
  | opening captures =>
      cases captures with
      | true =>
          rw [List.head?_eq_getElem?] at h
          exact if_pos h
      | false => rfl
  | closing => rfl
  | star => rfl
  | bar => rfl
  | expressionRef group =>
      have hdigit : group.digit ≠ ':' := group.digit_ne (by decide)
      show ofParenthesis? ('?' :: group.digit :: ')' :: text) = some (.expressionRef group)
      simp [ofParenthesis?, hdigit, group.ofChar?_digit]
  | stringRef group =>
      show (GroupNumber.ofChar? group.digit).map Token.stringRef = some (.stringRef group)
      rw [group.ofChar?_digit, Option.map_some]

/-- Characters that are skipped have no part in the tokens. -/
theorem scanAfter_append (skipped text : List Char) :
    scanAfter skipped.length (skipped ++ text) = scan text := by
  induction skipped with
  | nil => rfl
  | cons c skipped ih => exact ih

/-- The tokens of a text that starts with a token. -/
theorem scan_spell_append (token : Token) {text : List Char} (h : text.head? ≠ some '?') :
    scan (token.spell ++ text) = token :: scan text := by
  obtain ⟨c, rest, hspell, _⟩ := token.head_spell
  have hfirst := token.first?_spell_append h
  rw [hspell, List.cons_append] at hfirst ⊢
  simp only [scan, scanAfter, hfirst]
  show token :: scanAfter (token.spell.length - 1) (rest ++ text) = token :: scan text
  rw [hspell, ← scanAfter_append rest]
  rfl

/-- The tokens of a text are those that it spells. -/
theorem scan_spellAll (tokens : List Token) : scan (spellAll tokens) = tokens := by
  induction tokens with
  | nil => rfl
  | cons token tokens ih =>
      rw [spellAll_cons, scan_spell_append token (head?_spellAll_ne_query tokens), ih]

variable {position groups start : Nat} {kind : Kind} {tokens : List Token}

/-- The nodes of some tokens are those that one of them brings, at the place of the token. -/
theorem mem_atoms_iff :
    (start, kind) ∈ atoms position groups tokens ↔
      ∃ before token after, tokens = before ++ token :: after ∧
        start = position + (spellAll before).length ∧
        token.kind? (groups + before.count (.opening true)) = some kind := by
  constructor
  · intro h
    induction tokens generalizing position groups with
    | nil => cases h
    | cons token tokens ih =>
        rw [atoms, List.mem_append, Option.mem_toList, Option.map_eq_some_iff] at h
        rcases h with ⟨own, hown, heq⟩ | h
        · obtain ⟨rfl, rfl⟩ := Prod.mk.inj heq
          exact ⟨[], token, tokens, rfl, rfl, hown⟩
        · obtain ⟨before, found, after, rfl, hstart, hkind⟩ := ih h
          refine ⟨token :: before, found, after, rfl, ?_, ?_⟩
          · rw [spellAll_cons, List.length_append]
            omega
          · rwa [count_opening_cons, ← Nat.add_assoc]
  · rintro ⟨before, token, after, rfl, rfl, hkind⟩
    rw [atoms_append, atoms, hkind]
    exact List.mem_append_right _ List.mem_cons_self

/-- Nodes start where their tokens start, or later. -/
theorem le_of_mem_atoms (h : (start, kind) ∈ atoms position groups tokens) : position ≤ start := by
  obtain ⟨_, _, _, _, rfl, _⟩ := mem_atoms_iff.1 h
  exact Nat.le_add_right _ _

/-- The nodes of some tokens start one after the other. -/
theorem pairwise_atoms (position groups : Nat) (tokens : List Token) :
    (atoms position groups tokens).Pairwise fun atom later => atom.1 < later.1 := by
  induction tokens generalizing position groups with
  | nil => exact .nil
  | cons token tokens ih =>
      rw [atoms]
      cases token.kind? groups with
      | none => exact ih _ _
      | some kind =>
          refine List.pairwise_cons.2 ⟨fun later hlater => ?_, ih _ _⟩
          have hle := le_of_mem_atoms hlater
          have hpos := token.length_spell_pos
          show position < later.1
          omega

end Token

/-- The tokens of a parsed text are those of a valid abstract pattern. -/
theorem Pattern.exists_valid_of_parse {text : String} {pattern : Pattern}
    (h : Pattern.parse text = .ok pattern) :
    ∃ regex : Regex, regex.Valid ∧ regex.text = text.toList ∧
      regex.tokens = Token.scan text.toList ∧ regex.build = pattern := by
  obtain ⟨regex, hvalid, htext, hbuild⟩ := parse_eq_ok_iff.1 h
  refine ⟨regex, hvalid, htext, ?_, hbuild⟩
  rw [← htext, Regex.text, Token.scan_spellAll]

end Backref
