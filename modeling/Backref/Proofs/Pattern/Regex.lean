import Backref.Proofs.Pattern.Token
import Mathlib.Data.List.Induction

/-!
# The abstract syntax of patterns

A `Regex` is what a pattern means to say: a non-empty list of sequences of items. It has no
identifiers, positions or group numbers. `Regex.tokens` prints it, and `Regex.Valid` collects what
the parser asks for beyond the shape: enough groups for the references, and no bar at either end.
-/

namespace Backref

/-- An item of a sequence. All but string references may have a star. -/
inductive Item
  | letter (c : Letter) (starred : Bool)
  /-- A group around the sequence `first` and, after a bar each, the sequences `others`. -/
  | group (captures : Bool) (first : List Item) (others : List (List Item)) (starred : Bool)
  | expressionRef (number : GroupNumber) (starred : Bool)
  | stringRef (number : GroupNumber)
  deriving Repr

/-- A sequence and, after a bar each, some others. -/
structure Regex where
  first : List Item
  others : List (List Item)
  deriving Repr

/-! ## Printing -/

/-- The star of an item that has one. -/
def Token.starIf (starred : Bool) : List Token := if starred then [.star] else []

mutual

/-- The tokens of an item. -/
def Item.tokens : Item → List Token
  | .letter c starred => .letter c :: Token.starIf starred
  | .group captures first others starred =>
      .opening captures :: (Item.sequenceTokens first ++ Item.barredTokens others ++
        .closing :: Token.starIf starred)
  | .expressionRef number starred => .expressionRef number :: Token.starIf starred
  | .stringRef number => [.stringRef number]

/-- The tokens of a sequence. -/
def Item.sequenceTokens : List Item → List Token
  | [] => []
  | item :: items => item.tokens ++ Item.sequenceTokens items

/-- The tokens of some sequences with a bar before each of them. -/
def Item.barredTokens : List (List Item) → List Token
  | [] => []
  | items :: others => .bar :: (Item.sequenceTokens items ++ Item.barredTokens others)

end

namespace Regex

/-- The tokens of a pattern. -/
def tokens (regex : Regex) : List Token :=
  Item.sequenceTokens regex.first ++ Item.barredTokens regex.others

/-- The printed text of a pattern. -/
def text (regex : Regex) : List Char := Token.spellAll regex.tokens

end Regex

/-- The tokens of two sequences in a row. -/
theorem Item.sequenceTokens_append (items items' : List Item) :
    Item.sequenceTokens (items ++ items') =
      Item.sequenceTokens items ++ Item.sequenceTokens items' := by
  induction items with
  | nil => rfl
  | cons item items ih => simp only [List.cons_append, Item.sequenceTokens, ih, List.append_assoc]

/-- The tokens of sequences with one more at the end. -/
theorem Item.barredTokens_append (others others' : List (List Item)) :
    Item.barredTokens (others ++ others') =
      Item.barredTokens others ++ Item.barredTokens others' := by
  induction others with
  | nil => rfl
  | cons items others ih =>
      simp only [List.cons_append, Item.barredTokens, ih, List.append_assoc]

/-- An item starts with a token that is not a bar. -/
theorem Item.tokens_eq_cons (item : Item) :
    ∃ token tokens, item.tokens = token :: tokens ∧ token ≠ .bar := by
  cases item with
  | letter c starred => exact ⟨_, _, rfl, Token.noConfusion⟩
  | group captures first others starred => exact ⟨_, _, rfl, Token.noConfusion⟩
  | expressionRef number starred => exact ⟨_, _, rfl, Token.noConfusion⟩
  | stringRef number => exact ⟨_, _, rfl, Token.noConfusion⟩

/-- A sequence with an item has a token. -/
theorem Item.sequenceTokens_ne_nil {items : List Item} (h : items ≠ []) :
    Item.sequenceTokens items ≠ [] := by
  cases items with
  | nil => exact absurd rfl h
  | cons item items =>
      obtain ⟨token, tokens, heq, _⟩ := item.tokens_eq_cons
      simp [Item.sequenceTokens, heq]

/-- An item ends with a token that is not a bar. -/
theorem Item.tokens_eq_snoc (item : Item) :
    ∃ token tokens, item.tokens = tokens ++ [token] ∧ token ≠ .bar := by
  have hstar : ∀ (last : Token) (starred : Bool), last ≠ .bar →
      ∃ token tokens, last :: Token.starIf starred = tokens ++ [token] ∧ token ≠ .bar := by
    intro last starred hlast
    cases starred with
    | false => exact ⟨last, [], rfl, hlast⟩
    | true => exact ⟨.star, [last], rfl, Token.noConfusion⟩
  cases item with
  | letter c starred => exact hstar (.letter c) starred Token.noConfusion
  | group captures first others starred =>
      obtain ⟨token, tokens, heq, htoken⟩ := hstar .closing starred Token.noConfusion
      refine ⟨token, .opening captures :: (Item.sequenceTokens first ++
        Item.barredTokens others ++ tokens), ?_, htoken⟩
      simp [Item.tokens, heq]
  | expressionRef number starred => exact hstar (.expressionRef number) starred Token.noConfusion
  | stringRef number => exact ⟨.stringRef number, [], rfl, Token.noConfusion⟩

/-- A sequence does not end with a bar. -/
theorem Item.getLast?_sequenceTokens_ne (items : List Item) :
    (Item.sequenceTokens items).getLast? ≠ some .bar := by
  cases items using List.reverseRecOn with
  | nil => simp [Item.sequenceTokens]
  | append_singleton items item =>
      obtain ⟨token, tokens, heq, hne⟩ := item.tokens_eq_snoc
      have hlast : Item.sequenceTokens [item] = tokens ++ [token] := by
        simp [Item.sequenceTokens, heq]
      rw [Item.sequenceTokens_append, hlast, ← List.append_assoc, List.getLast?_concat]
      simpa using hne

/-! ## References and groups -/

namespace Token

/-- With `count` capturing groups open or closed before the tokens, no limit is passed and each
string reference names a group that is opened before it. -/
structure Declared (count : Nat) (tokens : List Token) : Prop where
  groups_le : count + tokens.count (.opening true) ≤ maxGroups
  stringRef_le : ∀ before group after, tokens = before ++ .stringRef group :: after →
    group.value ≤ count + before.count (.opening true)

/-- What one token asks for with `count` capturing groups before it. -/
def Allowed (count : Nat) : Token → Prop
  | .opening true => count < maxGroups
  | .stringRef group => group.value ≤ count
  | _ => True

instance (count : Nat) (token : Token) : Decidable (token.Allowed count) := by
  unfold Allowed
  split <;> infer_instance

/-- The empty list of tokens asks for nothing. -/
theorem declared_nil {count : Nat} : Declared count [] ↔ count ≤ maxGroups := by
  constructor
  · exact fun h => h.groups_le
  · exact fun h => ⟨h, fun before group after heq => by simp at heq⟩

/-- The groups that some tokens open are those of the first one and those of the others. -/
theorem count_opening_cons (token : Token) (tokens : List Token) :
    (token :: tokens).count (.opening true) =
      [token].count (.opening true) + tokens.count (.opening true) := by
  rw [← List.singleton_append, List.count_append]

/-- Tokens can be checked one by one, while counting the groups. -/
theorem declared_cons {count : Nat} {token : Token} {tokens : List Token} :
    Declared count (token :: tokens) ↔
      token.Allowed count ∧ Declared (count + [token].count (.opening true)) tokens := by
  constructor
  · intro h
    refine ⟨?_, ?_, ?_⟩
    · have hle := h.groups_le
      cases token with
      | opening captures =>
          cases captures with
          | true =>
              rw [List.count_cons_self] at hle
              show count < maxGroups
              omega
          | false => trivial
      | stringRef group => exact h.stringRef_le [] group tokens rfl
      | _ => trivial
    · have hle := h.groups_le
      rw [count_opening_cons] at hle
      omega
    · rintro before group after rfl
      have hle := h.stringRef_le (token :: before) group after rfl
      rw [count_opening_cons] at hle
      omega
  · rintro ⟨hallowed, h⟩
    refine ⟨?_, ?_⟩
    · have hle := h.groups_le
      rw [count_opening_cons]
      omega
    · intro before group after heq
      cases before with
      | nil =>
          obtain ⟨rfl, rfl⟩ := List.cons.inj heq
          exact hallowed
      | cons head before =>
          obtain ⟨rfl, rfl⟩ := List.cons.inj heq
          have hle := h.stringRef_le before group after rfl
          rw [count_opening_cons]
          omega

/-- Tokens can be checked in two parts. -/
theorem declared_append {count : Nat} {tokens tokens' : List Token} :
    Declared count (tokens ++ tokens') ↔
      Declared count tokens ∧ Declared (count + tokens.count (.opening true)) tokens' := by
  induction tokens generalizing count with
  | nil =>
      rw [declared_nil]
      refine ⟨fun h => ⟨?_, by simpa using h⟩, fun h => by simpa using h.2⟩
      exact Nat.le_trans (Nat.le_add_right _ _) h.groups_le
  | cons token tokens ih =>
      rw [List.cons_append, declared_cons, declared_cons, ih, count_opening_cons token tokens,
        Nat.add_assoc, and_assoc]

/-- Whether some tokens are `Declared` can be decided by checking them one by one. -/
instance decidableDeclared : (count : Nat) → (tokens : List Token) →
    Decidable (Declared count tokens)
  | _, [] => decidable_of_iff' _ declared_nil
  | count, token :: tokens =>
      have := decidableDeclared (count + [token].count (.opening true)) tokens
      decidable_of_iff' _ declared_cons

end Token

/-- What a pattern has to fulfil besides its shape: at most nine capturing groups, references only
to groups of the pattern, string references only to groups that are opened before them, and no
bar as the first or the last character. -/
structure Regex.Valid (regex : Regex) : Prop where
  groups_le : regex.tokens.count (.opening true) ≤ maxGroups
  stringRef_le : ∀ before group after, regex.tokens = before ++ .stringRef group :: after →
    group.value ≤ before.count (.opening true)
  expressionRef_le : ∀ group, .expressionRef group ∈ regex.tokens →
    group.value ≤ regex.tokens.count (.opening true)
  first_ne_nil : regex.others ≠ [] → regex.first ≠ []
  last_ne_nil : ∀ last, regex.others.getLast? = some last → last ≠ []

namespace Regex

/-- The conditions on groups and string references are those on the tokens. -/
theorem Valid.declared {regex : Regex} (h : regex.Valid) : Token.Declared 0 regex.tokens :=
  ⟨by simpa using h.groups_le, by simpa using h.stringRef_le⟩

/-- Whether a pattern is valid. -/
def isValid (regex : Regex) : Bool :=
  decide (Token.Declared 0 regex.tokens) &&
  regex.tokens.all (fun
    | .expressionRef group => group.value ≤ regex.tokens.count (.opening true)
    | _ => true) &&
  (regex.others.isEmpty || !regex.first.isEmpty) &&
  regex.others.getLast?.all (!·.isEmpty)

/-- The check decides whether a pattern is valid. -/
theorem isValid_iff {regex : Regex} : regex.isValid ↔ regex.Valid := by
  simp only [isValid, Bool.and_eq_true, decide_eq_true_eq, Bool.or_eq_true, List.isEmpty_iff,
    List.all_eq_true, Bool.not_eq_true', List.isEmpty_eq_false_iff, Option.all_eq_true]
  constructor
  · rintro ⟨⟨⟨hdeclared, hreferences⟩, hfirst⟩, hlast⟩
    refine ⟨?_, ?_, ?_, ?_, hlast⟩
    · simpa using hdeclared.groups_le
    · simpa using hdeclared.stringRef_le
    · intro group hmem
      exact of_decide_eq_true (hreferences (.expressionRef group) hmem)
    · intro hothers
      exact hfirst.resolve_left hothers
  · intro h
    refine ⟨⟨⟨h.declared, ?_⟩, ?_⟩, h.last_ne_nil⟩
    · intro token hmem
      cases token with
      | expressionRef group => exact decide_eq_true (h.expressionRef_le group hmem)
      | _ => rfl
    · by_cases hothers : regex.others = []
      · exact .inl hothers
      · exact .inr (h.first_ne_nil hothers)

instance (regex : Regex) : Decidable regex.Valid := decidable_of_iff _ isValid_iff

/-- No bar stands at the start exactly when the first sequence of several has an item. -/
theorem head?_tokens_ne_bar {regex : Regex} :
    regex.tokens.head? ≠ some .bar ↔ (regex.others ≠ [] → regex.first ≠ []) := by
  obtain ⟨first, others⟩ := regex
  cases first with
  | nil =>
      cases others with
      | nil => simp [tokens, Item.sequenceTokens, Item.barredTokens]
      | cons items others => simp [tokens, Item.sequenceTokens, Item.barredTokens]
  | cons item items =>
      obtain ⟨token, rest, heq, hne⟩ := item.tokens_eq_cons
      simp [tokens, Item.sequenceTokens, heq, hne]

/-- No bar stands at the end exactly when the last sequence of several has an item. -/
theorem getLast?_tokens_ne_bar {regex : Regex} :
    regex.tokens.getLast? ≠ some .bar ↔
      ∀ last, regex.others.getLast? = some last → last ≠ [] := by
  obtain ⟨first, others⟩ := regex
  cases others using List.reverseRecOn with
  | nil => simpa [tokens, Item.barredTokens] using Item.getLast?_sequenceTokens_ne first
  | append_singleton others last =>
      have htokens : (Regex.mk first (others ++ [last])).tokens =
          (Item.sequenceTokens first ++ Item.barredTokens others ++ [.bar]) ++
            Item.sequenceTokens last := by
        simp [tokens, Item.barredTokens_append, Item.barredTokens]
      rw [htokens, List.getLast?_concat]
      cases last with
      | nil => simp [Item.sequenceTokens]
      | cons item items =>
          refine iff_of_true ?_ fun _ h => by cases h; simp
          obtain ⟨token, rest, heq, _⟩ := item.tokens_eq_cons
          have hne := Item.getLast?_sequenceTokens_ne (item :: items)
          rw [List.getLast?_append]
          cases hlast : (Item.sequenceTokens (item :: items)).getLast? with
          | none => simp [Item.sequenceTokens, heq] at hlast
          | some last => simpa [hlast] using hne

end Regex

end Backref
