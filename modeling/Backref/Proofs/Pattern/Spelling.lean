import Backref.Proofs.Pattern.Token
import Mathlib.Data.List.Induction

/-!
# Finding the tokens of a text

Each character of a spelled text belongs to one token (`Token.exists_of_spellAll_eq`), and an
operator tells which kind of token that is. `captureIndices` finds the groups of a text without
reading it as tokens; `Token.captureIndices_spellAll` says that reading it makes no difference.
-/

namespace Backref

/-- The digit names a group: it is one of `1` to `9`. -/
def IsDigit (c : Char) : Prop := '1' ≤ c ∧ c ≤ '9'

/-- The number of the group that a digit names. -/
def digitValue (c : Char) : Nat := c.toNat - '0'.toNat

/-- The indices of the `(` that open a capturing group, in a text whose first character has the
given index: a `(` captures unless `?` follows it. -/
def captureIndices (index : Nat) : List Char → List Nat
  | [] => []
  | c :: text =>
      if c = '(' ∧ text.head? ≠ some '?' then index :: captureIndices (index + 1) text
      else captureIndices (index + 1) text

/-- The number of capturing groups that a text opens. -/
def capturingCount (text : List Char) : Nat := (captureIndices 0 text).length

namespace GroupNumber

/-- The digit of a group number is a digit. -/
theorem isDigit_digit (group : GroupNumber) : IsDigit group.digit := by
  have hnat := group.toNat_digit
  have hpos := group.pos
  have hle : group.value ≤ 9 := group.le
  simp only [IsDigit, Char.le_def, UInt32.le_iff_toNat_le]
  show 49 ≤ group.digit.toNat ∧ group.digit.toNat ≤ 57
  omega

/-- The value of the digit of a group number. -/
theorem digitValue_digit (group : GroupNumber) : digitValue group.digit = group.value := by
  have hnat := group.toNat_digit
  show group.digit.toNat - 48 = group.value
  omega

/-- Each digit is the digit of a group number. -/
theorem exists_of_isDigit {c : Char} (h : IsDigit c) : ∃ group : GroupNumber, group.digit = c := by
  simp only [IsDigit, Char.le_def, UInt32.le_iff_toNat_le] at h
  replace h : 49 ≤ c.toNat ∧ c.toNat ≤ 57 := h
  have hle : c.toNat - 48 ≤ maxGroups := by
    show c.toNat - 48 ≤ 9
    omega
  refine ⟨⟨c.toNat - 48, by omega, hle⟩, Char.toNat_inj.1 ?_⟩
  rw [toNat_digit]
  show c.toNat - 48 + 48 = c.toNat
  omega

end GroupNumber

/-- The letters are the characters from `a` to `z`. -/
theorem Alphabet.isLetter_iff {c : Char} : Alphabet.isLetter c ↔ 'a' ≤ c ∧ c ≤ 'z' := by
  simp only [Alphabet.isLetter, decide_eq_true_eq, Alphabet.of_eq_letter_iff, Char.le_def,
    UInt32.le_iff_toNat_le]
  rfl

namespace Token

/-- A letter is no operator. -/
theorem letter_char_ne (c : Letter) {d : Char} (hd : d ∈ Alphabet.operators) : c.char ≠ d :=
  Alphabet.ne_of_isLetter c.isLetter hd

/-- Tokens are spelled in the alphabet. -/
theorem contains_of_mem_spell {token : Token} {c : Char} (h : c ∈ token.spell) :
    Alphabet.contains c := by
  cases token with
  | letter letter =>
      rw [List.mem_singleton.1 h]
      exact Alphabet.contains_of_isLetter letter.isLetter
  | opening captures =>
      cases captures with
      | true =>
          rw [List.mem_singleton.1 h]
          decide
      | false =>
          simp only [spell, List.mem_cons, List.not_mem_nil, or_false] at h
          obtain rfl | rfl | rfl := h <;> decide
  | closing | star | bar =>
      rw [List.mem_singleton.1 h]
      decide
  | expressionRef group =>
      simp only [spell, List.mem_cons, List.not_mem_nil, or_false] at h
      obtain rfl | rfl | rfl | rfl := h
      · decide
      · decide
      · exact group.contains_digit
      · decide
  | stringRef group =>
      simp only [spell, List.mem_cons, List.not_mem_nil, or_false] at h
      obtain rfl | rfl := h
      · decide
      · exact group.contains_digit

theorem contains_of_mem_spellAll {tokens : List Token} {c : Char} (h : c ∈ spellAll tokens) :
    Alphabet.contains c := by
  obtain ⟨token, _, hc⟩ := List.mem_flatMap.1 h
  exact contains_of_mem_spell hc

/-! ## The ends of a text -/

/-- No token starts with a question mark, and only the bar starts with a bar. -/
theorem head_spell (token : Token) :
    ∃ c rest, token.spell = c :: rest ∧ c ≠ '?' ∧ (c = '|' → token = .bar) := by
  cases token with
  | letter c =>
      exact ⟨c.char, [], rfl, letter_char_ne c (by decide),
        fun h => absurd h (letter_char_ne c (by decide))⟩
  | opening captures =>
      cases captures with
      | true => exact ⟨'(', [], rfl, by decide, by decide⟩
      | false => exact ⟨'(', ['?', ':'], rfl, by decide, by decide⟩
  | closing => exact ⟨')', [], rfl, by decide, by decide⟩
  | star => exact ⟨'*', [], rfl, by decide, by decide⟩
  | bar => exact ⟨'|', [], rfl, by decide, fun _ => rfl⟩
  | expressionRef group =>
      exact ⟨'(', ['?', group.digit, ')'], rfl, by decide, fun h => absurd h (by decide)⟩
  | stringRef group => exact ⟨'\\', [group.digit], rfl, by decide, fun h => absurd h (by decide)⟩

/-- Only the bar ends with a bar. -/
theorem last_spell (token : Token) :
    ∃ init c, token.spell = init ++ [c] ∧ (c = '|' → token = .bar) := by
  cases token with
  | letter c => exact ⟨[], c.char, rfl, fun h => absurd h (letter_char_ne c (by decide))⟩
  | opening captures =>
      cases captures with
      | true => exact ⟨[], '(', rfl, by decide⟩
      | false => exact ⟨['(', '?'], ':', rfl, by decide⟩
  | closing => exact ⟨[], ')', rfl, by decide⟩
  | star => exact ⟨[], '*', rfl, by decide⟩
  | bar => exact ⟨[], '|', rfl, fun _ => rfl⟩
  | expressionRef group =>
      exact ⟨['(', '?', group.digit], ')', rfl, fun h => absurd h (by decide)⟩
  | stringRef group =>
      exact ⟨['\\'], group.digit, rfl, fun h => absurd h (group.digit_ne (by decide))⟩

/-- A spelled text does not start with a question mark. -/
theorem head?_spellAll_ne_query (tokens : List Token) : (spellAll tokens).head? ≠ some '?' := by
  cases tokens with
  | nil => simp
  | cons token tokens =>
      obtain ⟨c, rest, hspell, hquery, _⟩ := token.head_spell
      simp [hspell, hquery]

/-- A spelled text starts with a bar exactly when its first token is a bar. -/
theorem head?_spellAll_bar {tokens : List Token} :
    (spellAll tokens).head? = some '|' ↔ tokens.head? = some .bar := by
  cases tokens with
  | nil => simp
  | cons token tokens =>
      obtain ⟨c, rest, hspell, _, hbar⟩ := token.head_spell
      constructor
      · intro h
        simp only [spellAll_cons, hspell, List.cons_append, List.head?_cons, Option.some.injEq] at h
        simp [hbar h]
      · intro h
        obtain rfl : token = .bar := by simpa using h
        rfl

/-- A spelled text ends with a bar exactly when its last token is a bar. -/
theorem getLast?_spellAll_bar {tokens : List Token} :
    (spellAll tokens).getLast? = some '|' ↔ tokens.getLast? = some .bar := by
  cases tokens using List.reverseRecOn with
  | nil => simp
  | append_singleton tokens token =>
      obtain ⟨init, c, hspell, hbar⟩ := token.last_spell
      constructor
      · intro h
        simp only [spellAll_append, spellAll_cons, spellAll_nil, List.append_nil, hspell,
          ← List.append_assoc, List.getLast?_concat, Option.some.injEq] at h
        simp [hbar h]
      · intro h
        obtain rfl : token = .bar := by simpa using h
        simp [spell]

/-! ## Groups -/

/-- The indices of the tokens that open a capturing group, in a text whose first character has
the given index. -/
def captureIndices (index : Nat) : List Token → List Nat
  | [] => []
  | token :: tokens =>
      if token = .opening true then
        index :: captureIndices (index + token.spell.length) tokens
      else captureIndices (index + token.spell.length) tokens

/-- There are as many indices as tokens that open a capturing group. -/
theorem length_captureIndices (index : Nat) (tokens : List Token) :
    (captureIndices index tokens).length = tokens.count (.opening true) := by
  induction tokens generalizing index with
  | nil => rfl
  | cons token tokens ih =>
      rw [captureIndices]
      split
      · next h => rw [h, List.count_cons_self, List.length_cons, ih]
      · next h => rw [List.count_cons_of_ne h, ih]

/-- Characters other than `(` open no group. -/
theorem captureIndices_append_of_not_mem (index : Nat) {text : List Char} (h : '(' ∉ text)
    (rest : List Char) :
    Backref.captureIndices index (text ++ rest) =
      Backref.captureIndices (index + text.length) rest := by
  induction text generalizing index with
  | nil => rfl
  | cons c text ih =>
      have hc : c ≠ '(' := fun hc => h (by simp [hc])
      have htext : '(' ∉ text := fun hmem => h (List.mem_cons_of_mem c hmem)
      rw [List.cons_append, Backref.captureIndices, if_neg (fun h => hc h.1), ih _ htext,
        List.length_cons, Nat.add_right_comm, Nat.add_assoc]

/-- A `(` before a question mark opens no capturing group. -/
theorem captureIndices_query (index : Nat) (text : List Char) :
    Backref.captureIndices index ('(' :: '?' :: text) =
      Backref.captureIndices (index + 2) text := by
  simp [Backref.captureIndices]

/-- A token other than the opening of a capturing group opens none. -/
theorem captureIndices_spell_append {token : Token} (h : token ≠ .opening true) (index : Nat)
    (rest : List Char) :
    Backref.captureIndices index (token.spell ++ rest) =
      Backref.captureIndices (index + token.spell.length) rest := by
  cases token with
  | letter c =>
      refine captureIndices_append_of_not_mem index ?_ rest
      simpa [spell] using (letter_char_ne c (by decide)).symm
  | opening captures =>
      cases captures with
      | true => exact absurd rfl h
      | false =>
          show Backref.captureIndices index ('(' :: '?' :: ([':'] ++ rest)) = _
          rw [captureIndices_query, captureIndices_append_of_not_mem _ (by decide)]
          rfl
  | closing => exact captureIndices_append_of_not_mem index (by decide) rest
  | star => exact captureIndices_append_of_not_mem index (by decide) rest
  | bar => exact captureIndices_append_of_not_mem index (by decide) rest
  | expressionRef group =>
      have hdigit : '(' ∉ [group.digit, ')'] := by
        simp [(group.digit_ne (d := '(') (by decide)).symm]
      show Backref.captureIndices index ('(' :: '?' :: ([group.digit, ')'] ++ rest)) = _
      rw [captureIndices_query, captureIndices_append_of_not_mem _ hdigit]
      rfl
  | stringRef group =>
      refine captureIndices_append_of_not_mem index ?_ rest
      simp [spell, (group.digit_ne (d := '(') (by decide)).symm]

/-- The groups of a text are those of its tokens. -/
theorem captureIndices_spellAll (index : Nat) (tokens : List Token) :
    Backref.captureIndices index (spellAll tokens) = captureIndices index tokens := by
  induction tokens generalizing index with
  | nil => rfl
  | cons token tokens ih =>
      rw [spellAll_cons, captureIndices]
      by_cases htoken : token = .opening true
      · subst htoken
        have hquery := head?_spellAll_ne_query tokens
        rw [if_pos rfl, ← ih]
        show (if '(' = '(' ∧ (spellAll tokens).head? ≠ some '?' then _ else _) = _
        rw [if_pos ⟨rfl, hquery⟩]
        rfl
      · rw [if_neg htoken, captureIndices_spell_append htoken, ih]

/-- A text opens as many groups as its tokens do. -/
theorem capturingCount_spellAll (tokens : List Token) :
    capturingCount (spellAll tokens) = tokens.count (.opening true) := by
  rw [capturingCount, captureIndices_spellAll, length_captureIndices]

/-! ## Finding a token -/

/-- Each character of a spelled text belongs to a token. -/
theorem exists_of_spellAll_eq {tokens : List Token} {front rest : List Char} {c : Char}
    (h : spellAll tokens = front ++ c :: rest) :
    ∃ before token after inner outer, tokens = before ++ token :: after ∧
      token.spell = inner ++ c :: outer ∧ front = spellAll before ++ inner ∧
      rest = outer ++ spellAll after := by
  induction tokens generalizing front with
  | nil => simp at h
  | cons token tokens ih =>
      rw [spellAll_cons, List.append_eq_append_iff] at h
      rcases h with ⟨front', rfl, htokens⟩ | ⟨suffix, hspell, hrest⟩
      · obtain ⟨before, found, after, inner, outer, rfl, hfound, rfl, rfl⟩ := ih htokens
        exact ⟨token :: before, found, after, inner, outer, rfl, hfound, by simp, rfl⟩
      · cases suffix with
        | nil =>
            obtain ⟨before, found, after, inner, outer, rfl, hfound, hfront, rfl⟩ :=
              @ih [] hrest.symm
            refine ⟨token :: before, found, after, inner, outer, rfl, hfound, ?_, rfl⟩
            rw [spellAll_cons, List.append_assoc, ← hfront, hspell]
            simp
        | cons head outer =>
            obtain ⟨rfl, rfl⟩ := List.cons.inj hrest
            exact ⟨[], token, tokens, front, outer, rfl, hspell, rfl, rfl⟩

end Token

end Backref
