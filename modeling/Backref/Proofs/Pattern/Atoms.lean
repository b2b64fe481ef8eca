import Backref.Proofs.Pattern.Regex
import Backref.Proofs.Pattern.Spelling

/-!
# Nodes with a token of their own

Letters, groups and references come from one token each. `Token.atoms` lists them with their
positions, kinds and group numbers as the text has them, in its order; the nodes of a parsed tree
are compared with this list.
-/

namespace Backref

/-- Whether a node of this kind comes from a token of its own. -/
def Kind.isAtom : Kind → Bool
  | .literal _ | .group _ | .expressionRef _ | .stringRef _ => true
  | .sequence | .alternation | .branch | .repetition => false

/-- What may have a star comes from a token of its own. -/
theorem Kind.isAtom_of_isRepeatable {kind : Kind} (h : kind.isRepeatable) : kind.isAtom := by
  cases kind with
  | literal _ | group _ | expressionRef _ => rfl
  | sequence | alternation | branch | repetition | stringRef _ => cases h

/-- The position and the kind of a node that comes from a token of its own. -/
def Node.atom? (node : Node) : Option (Nat × Kind) :=
  if node.kind.isAtom then some (node.position, node.kind) else none

/-- The kind that a node comes with is its own. -/
theorem Node.kind_of_atom? {node : Node} {position : Nat} {kind : Kind}
    (h : node.atom? = some (position, kind)) : node.kind = kind := by
  rw [atom?] at h
  split at h
  · exact (Prod.mk.inj (Option.some.inj h)).2
  · cases h

/-- The position and the number of a capturing group. -/
def Node.capture? (node : Node) : Option (Nat × Nat) :=
  match node.kind with
  | .group (some number) => some (node.position, number)
  | _ => none

/-- The position and the number of a capturing group, from its position and kind. -/
def captureOfAtom? : Nat × Kind → Option (Nat × Nat)
  | (position, .group (some number)) => some (position, number)
  | _ => none

/-- Capturing groups come from tokens of their own. -/
theorem Node.capture?_eq (node : Node) : node.capture? = node.atom?.bind captureOfAtom? := by
  obtain ⟨label, kind, children⟩ := node
  cases kind with
  | group number => cases number <;> rfl
  | _ => rfl

namespace Token

/-- The kind of the node that a token brings after the given number of capturing groups. -/
def kind? (groups : Nat) : Token → Option Kind
  | .letter c => some (.literal c.char)
  | .opening true => some (.group (some (groups + 1)))
  | .opening false => some (.group none)
  | .expressionRef group => some (.expressionRef group.value)
  | .stringRef group => some (.stringRef group.value)
  | .closing | .star | .bar => none

/-- The positions and the kinds of the nodes that some tokens bring, when the first token has the
given position and the given number of capturing groups before it. -/
def atoms (position groups : Nat) : List Token → List (Nat × Kind)
  | [] => []
  | token :: tokens =>
      ((token.kind? groups).map (position, ·)).toList ++
        atoms (position + token.spell.length) (groups + [token].count (.opening true)) tokens

variable {position groups : Nat} {tokens : List Token}

/-- The nodes of two lists of tokens in a row. -/
theorem atoms_append (position groups : Nat) (tokens tokens' : List Token) :
    atoms position groups (tokens ++ tokens') =
      atoms position groups tokens ++
        atoms (position + (spellAll tokens).length)
          (groups + tokens.count (.opening true)) tokens' := by
  induction tokens generalizing position groups with
  | nil => rfl
  | cons token tokens ih =>
      rw [List.cons_append, atoms, atoms, ih, spellAll_cons, List.length_append,
        count_opening_cons token tokens, List.append_assoc, Nat.add_assoc, Nat.add_assoc]

/-- What a token brings comes from a token. -/
theorem isAtom_of_kind? {token : Token} {kind : Kind} (h : token.kind? groups = some kind) :
    kind.isAtom := by
  cases token with
  | opening captures => cases captures <;> cases h <;> rfl
  | closing | star | bar => cases h
  | letter c => cases h; rfl
  | expressionRef group => cases h; rfl
  | stringRef group => cases h; rfl

/-- Only a letter brings a literal. -/
theorem exists_letter_of_kind? {token : Token} {letter : Char}
    (h : token.kind? groups = some (.literal letter)) :
    ∃ c, token = .letter c ∧ c.char = letter := by
  cases token with
  | letter c => cases h; exact ⟨c, rfl, rfl⟩
  | opening captures => cases captures <;> cases h
  | _ => cases h

/-- Only an expression reference brings one. -/
theorem exists_expressionRef_of_kind? {token : Token} {number : Nat}
    (h : token.kind? groups = some (.expressionRef number)) :
    ∃ group, token = .expressionRef group ∧ group.value = number := by
  cases token with
  | expressionRef group => cases h; exact ⟨group, rfl, rfl⟩
  | opening captures => cases captures <;> cases h
  | _ => cases h

/-- Only a string reference brings one. -/
theorem exists_stringRef_of_kind? {token : Token} {number : Nat}
    (h : token.kind? groups = some (.stringRef number)) :
    ∃ group, token = .stringRef group ∧ group.value = number := by
  cases token with
  | stringRef group => cases h; exact ⟨group, rfl, rfl⟩
  | opening captures => cases captures <;> cases h
  | _ => cases h

/-- A token that brings no node opens no capturing group. -/
theorem count_opening_of_kind? {token : Token} (h : token.kind? groups = none) :
    [token].count (.opening true) = 0 := by
  refine List.count_eq_zero.2 fun hmem => ?_
  obtain rfl := List.mem_singleton.1 hmem
  cases h

/-- The capturing groups among the nodes of some tokens are numbered in the order of the text. -/
theorem captures_atoms (position groups : Nat) (tokens : List Token) :
    (atoms position groups tokens).filterMap captureOfAtom? =
      (captureIndices position tokens).zipIdx (groups + 1) := by
  induction tokens generalizing position groups with
  | nil => rfl
  | cons token tokens ih =>
      rw [atoms, List.filterMap_append, ih, captureIndices]
      cases token with
      | opening captures =>
          cases captures with
          | true => rfl
          | false => rfl
      | letter c => rfl
      | closing => rfl
      | star => rfl
      | bar => rfl
      | expressionRef group => rfl
      | stringRef group => rfl

/-- Every group that some tokens open is among their nodes. -/
theorem mem_atoms_group {number : Nat} (hlow : groups < number)
    (hhigh : number ≤ groups + tokens.count (.opening true)) :
    ∃ start, (start, .group (some number)) ∈ atoms position groups tokens := by
  induction tokens generalizing position groups with
  | nil =>
      rw [List.count_nil] at hhigh
      omega
  | cons token tokens ih =>
      rw [count_opening_cons] at hhigh
      by_cases hhere : groups + [token].count (.opening true) < number
      · obtain ⟨start, hmem⟩ := ih hhere (by omega)
        exact ⟨start, List.mem_append_right _ hmem⟩
      · -- The first token opens the group.
        have hcount : [token].count (.opening true) ≤ 1 := List.count_le_length
        obtain rfl : number = groups + 1 := by omega
        have htoken : token = .opening true := by
          by_contra hother
          rw [List.count_eq_zero.2 fun h => hother (List.mem_singleton.1 h).symm] at hhere
          omega
        subst htoken
        exact ⟨position, List.mem_cons_self⟩

/-- The nodes before that of a string reference come from the tokens before it. -/
theorem exists_of_atoms_eq_stringRef {front back : List (Nat × Kind)} {start number : Nat}
    (h : atoms position groups tokens = front ++ (start, .stringRef number) :: back) :
    ∃ before group after, tokens = before ++ .stringRef group :: after ∧ group.value = number ∧
      atoms position groups before = front := by
  induction tokens generalizing position groups front with
  | nil => simp [atoms] at h
  | cons token tokens ih =>
      rw [atoms] at h
      cases hkind : token.kind? groups with
      | none =>
          rw [hkind] at h
          obtain ⟨before, group, after, rfl, hvalue, hfront⟩ := ih h
          refine ⟨token :: before, group, after, rfl, hvalue, ?_⟩
          rw [atoms, hkind, hfront]
          rfl
      | some kind =>
          rw [hkind] at h
          cases front with
          | nil =>
              obtain ⟨hhead, _⟩ := List.cons.inj h
              obtain rfl : kind = .stringRef number := (Prod.mk.inj hhead).2
              obtain ⟨group, rfl, hvalue⟩ := exists_stringRef_of_kind? hkind
              exact ⟨[], group, tokens, rfl, hvalue, rfl⟩
          | cons head front =>
              obtain ⟨rfl, htail⟩ := List.cons.inj h
              obtain ⟨before, group, after, rfl, hvalue, hfront⟩ := ih htail
              refine ⟨token :: before, group, after, rfl, hvalue, ?_⟩
              rw [atoms, hkind, hfront]
              rfl

end Token

end Backref
