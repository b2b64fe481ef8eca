import Backref.Pattern.Parser
import Backref.Proofs.Alphabet

/-!
# Tokens

The parser reads single characters and keeps the beginning of an unfinished construct as
`Pending`. A `Token` is a whole construct, and `Parser.consume` reads one at once.
`Pattern.parseChars_eq_ok_iff` says that reading the characters of a text is reading the tokens
that it spells.
-/

namespace Backref

/-- A lexical unit of a pattern. -/
inductive Token
  | letter (c : Letter)
  /-- `(` or, for a group that does not capture, `(?:`. -/
  | opening (captures : Bool)
  | closing
  | star
  | bar
  /-- `(?N)` -/
  | expressionRef (group : GroupNumber)
  /-- `\N` -/
  | stringRef (group : GroupNumber)
  deriving DecidableEq, Repr

namespace Token

/-- The characters of a token. -/
def spell : Token → List Char
  | .letter c => [c.char]
  | .opening true => ['(']
  | .opening false => ['(', '?', ':']
  | .closing => [')']
  | .star => ['*']
  | .bar => ['|']
  | .expressionRef group => ['(', '?', group.digit, ')']
  | .stringRef group => ['\\', group.digit]

/-- The characters of some tokens. -/
def spellAll (tokens : List Token) : List Char := tokens.flatMap spell

@[simp] theorem spellAll_nil : spellAll [] = [] := rfl

@[simp] theorem spellAll_cons (token : Token) (tokens : List Token) :
    spellAll (token :: tokens) = token.spell ++ spellAll tokens := List.flatMap_cons

@[simp] theorem spellAll_append (tokens tokens' : List Token) :
    spellAll (tokens ++ tokens') = spellAll tokens ++ spellAll tokens' := List.flatMap_append

/-- Every token has a character. -/
theorem length_spell_pos (token : Token) : 0 < token.spell.length := by
  cases token with
  | opening captures => cases captures <;> exact Nat.succ_pos _
  | _ => exact Nat.succ_pos _

/-- Tokens have characters. -/
theorem length_spellAll_pos {tokens : List Token} (h : tokens ≠ []) :
    0 < (spellAll tokens).length := by
  cases tokens with
  | nil => exact absurd rfl h
  | cons token tokens =>
      have hpos := length_spell_pos token
      rw [spellAll_cons, List.length_append]
      omega

end Token

/-- A computation that binds two parts succeeds exactly when both parts do. -/
theorem Except.bind_eq_ok_iff {ε α β : Type} {first : Except ε α} {second : α → Except ε β}
    {result : β} :
    (first >>= second) = .ok result ↔ ∃ value, first = .ok value ∧ second value = .ok result := by
  cases first with
  | error error => exact ⟨fun h => (nomatch h), fun ⟨_, h, _⟩ => (nomatch h)⟩
  | ok value => exact ⟨fun h => ⟨value, rfl, h⟩, fun ⟨_, h, h'⟩ => by cases h; exact h'⟩

namespace Parser

/-- The state some characters later, with no construct pending. -/
def advance (parser : Parser) (count : Nat) : Parser :=
  { parser with position := parser.position + count, pending := .nothing }

/-- Reads a whole token. -/
def consume (parser : Parser) : Token → Except Rejection Parser
  | .letter c => .ok ((parser.addLeaf (.literal c.char) parser.position).advance 1)
  | .opening true => do
      let parser ← parser.openCapturing parser.position
      return parser.advance 1
  | .opening false => .ok ((parser.openGroup none parser.position).advance 3)
  | .closing => do
      let parser ← parser.close
      return parser.advance 1
  | .star => do
      let parser ← parser.star
      return parser.advance 1
  | .bar => do
      let parser ← parser.bar
      return parser.advance 1
  | .expressionRef group =>
      let parser :=
        { parser with maxExpressionRef := max parser.maxExpressionRef group.value }
      .ok ((parser.addLeaf (.expressionRef group.value) parser.position).advance 4)
  | .stringRef group =>
      if parser.groupCount < group.value then
        .error (.undeclaredGroup group.value parser.position)
      else .ok ((parser.addLeaf (.stringRef group.value) parser.position).advance 2)

/-- Reads some tokens. -/
def consumeAll (parser : Parser) (tokens : List Token) : Except Rejection Parser :=
  tokens.foldlM consume parser

@[simp] theorem consumeAll_nil (parser : Parser) : parser.consumeAll [] = .ok parser := rfl

theorem consumeAll_cons (parser : Parser) (token : Token) (tokens : List Token) :
    parser.consumeAll (token :: tokens) = parser.consume token >>= (·.consumeAll tokens) := rfl

theorem consumeAll_singleton (parser : Parser) (token : Token) :
    parser.consumeAll [token] = parser.consume token := by
  rw [consumeAll_cons]
  cases parser.consume token <;> rfl

theorem consumeAll_append (parser : Parser) (tokens tokens' : List Token) :
    parser.consumeAll (tokens ++ tokens') =
      parser.consumeAll tokens >>= (·.consumeAll tokens') := List.foldlM_append

/-- Reading a token after some others. -/
theorem consumeAll_snoc {parser middle : Parser} {tokens : List Token}
    (h : parser.consumeAll tokens = .ok middle) (token : Token) :
    parser.consumeAll (tokens ++ [token]) = middle.consume token := by
  rw [consumeAll_append, h]
  exact consumeAll_singleton middle token

/-! ## What the parts of a token need and do -/

/-- A capturing group opens unless the pattern has as many as it may have. -/
theorem openCapturing_eq_ok_iff {parser next : Parser} {start : Nat} :
    parser.openCapturing start = .ok next ↔
      parser.groupCount ≠ maxGroups ∧
        { parser with groupCount := parser.groupCount + 1 }.openGroup
          (some (parser.groupCount + 1)) start = next := by
  unfold openCapturing
  split
  · next h => simp [h]
  · next h => simp [h]

/-- A star needs an item that can be repeated. -/
theorem star_eq_ok_iff {parser next : Parser} :
    parser.star = .ok next ↔
      ∃ item items, parser.level.items = item :: items ∧ item.kind.isRepeatable ∧
        { parser with
          nextId := parser.nextId + 1
          level := { parser.level with
            items := ⟨⟨parser.nextId, item.position⟩, .repetition, [item]⟩ :: items } } = next := by
  unfold star
  split
  · next h => simp [h]
  · next item items h =>
      rw [h]
      split
      · next hrepeatable =>
          constructor
          · intro hok
            exact ⟨item, items, rfl, hrepeatable, Except.ok.inj hok⟩
          · rintro ⟨_, _, heq, _, rfl⟩
            cases heq
            rfl
      · next hrepeatable =>
          constructor
          · intro hok
            cases hok
          · rintro ⟨_, _, heq, hrepeats, _⟩
            cases heq
            exact absurd hrepeats hrepeatable

/-- A closing parenthesis needs an open group. -/
theorem close_eq_ok_iff {parser next : Parser} :
    parser.close = .ok next ↔
      ∃ group enclosing, parser.enclosing = group :: enclosing ∧
        { parser with
          level := group.outer.add ⟨group.label, .group group.number, parser.level.nodes⟩
          enclosing := enclosing } = next := by
  unfold close
  split
  · next h => simp [h]
  · next group enclosing h =>
      constructor
      · intro hok
        exact ⟨group, enclosing, h, Except.ok.inj hok⟩
      · rintro ⟨_, _, heq, rfl⟩
        cases h.symm.trans heq
        rfl

/-- A bar needs something before it and starts a new branch. -/
theorem bar_cases {parser next : Parser} (h : parser.bar = .ok next) :
    parser.position ≠ 0 ∧ ∃ count choice, next =
      { parser with
        nextId := parser.nextId + count
        pending := .bar parser.position
        level := ⟨[], some choice⟩ } := by
  unfold bar at h
  split at h
  · cases h
  · next hposition =>
      refine ⟨hposition, ?_⟩
      split at h
      · cases h; exact ⟨1, _, rfl⟩
      · cases h; exact ⟨3, _, rfl⟩

/-- The state in which a pending `(` counts as an opened group. No other unfinished construct can
be settled. -/
def settle (parser : Parser) : Except Rejection Parser :=
  match parser.pending with
  | .nothing | .bar _ => .ok { parser with pending := .nothing }
  | .parenthesis start => parser.openCapturing start
  | .query _ | .queryDigit .. | .backslash _ => .error (.unexpectedEnd parser.position)

end Parser

end Backref
