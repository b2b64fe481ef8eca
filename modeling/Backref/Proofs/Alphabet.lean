import Backref.Alphabet

/-!
# Characters of the alphabet

The classes of the alphabet as intervals of code points. `groupNumber?_eq_some_iff` is what the
parser relies on: a digit names a group exactly when it is the digit of that number. `Letter` and
`GroupNumber` carry the class with the value.
-/

namespace Backref

namespace Alphabet

/-- The letters are the characters from `a` to `z`. -/
theorem of_eq_letter_iff {c : Char} :
    CharClass.of? c = some .letter ↔ 97 ≤ c.toNat ∧ c.toNat ≤ 122 := by
  have hletter : ('a' ≤ c ∧ c ≤ 'z') ↔ 97 ≤ c.toNat ∧ c.toNat ≤ 122 := by
    simp only [Char.le_def, UInt32.le_iff_toNat_le]
    rfl
  unfold CharClass.of?
  simp only [hletter]
  split
  · next h => exact iff_of_true rfl h
  · next h =>
      refine iff_of_false ?_ h
      split
      · simp
      · split <;> simp

/-- The digits are the characters from `1` to `9`. -/
theorem of_eq_digit_iff {c : Char} :
    CharClass.of? c = some .digit ↔ 49 ≤ c.toNat ∧ c.toNat ≤ 57 := by
  have hletter : ('a' ≤ c ∧ c ≤ 'z') ↔ 97 ≤ c.toNat ∧ c.toNat ≤ 122 := by
    simp only [Char.le_def, UInt32.le_iff_toNat_le]
    rfl
  have hdigit : ('1' ≤ c ∧ c ≤ '9') ↔ 49 ≤ c.toNat ∧ c.toNat ≤ 57 := by
    simp only [Char.le_def, UInt32.le_iff_toNat_le]
    rfl
  unfold CharClass.of?
  simp only [hletter, hdigit]
  split
  · simp only [Option.some.injEq, reduceCtorEq, false_iff]
    omega
  · split
    · next h => exact iff_of_true rfl h
    · next h =>
        refine iff_of_false ?_ h
        split <;> simp

/-- No letter is an operator. -/
theorem ne_of_isLetter {c d : Char} (h : isLetter c) (hd : d ∈ operators) : c ≠ d := by
  rintro rfl
  have hrange := of_eq_letter_iff.1 (of_decide_eq_true h)
  simp only [operators, List.mem_cons, List.not_mem_nil, or_false] at hd
  rcases hd with rfl | rfl | rfl | rfl | rfl | rfl | rfl <;> simp at hrange

/-- Letters belong to the alphabet. -/
theorem contains_of_isLetter {c : Char} (h : isLetter c) : contains c := by
  have hclass : CharClass.of? c = some .letter := of_decide_eq_true h
  simp [contains, hclass]

/-- Every character of the alphabet is an ASCII character. -/
theorem toNat_lt_of_contains {c : Char} (h : contains c) : c.toNat < 128 := by
  obtain ⟨kind, hkind⟩ := Option.isSome_iff_exists.1 h
  cases kind with
  | letter =>
      have hrange := of_eq_letter_iff.1 hkind
      omega
  | digit =>
      have hrange := of_eq_digit_iff.1 hkind
      omega
  | operator =>
      have hoperator : c ∈ operators := by
        unfold CharClass.of? at hkind
        split at hkind
        · cases hkind
        · split at hkind
          · cases hkind
          · split at hkind
            · next hmem => exact hmem
            · cases hkind
      simp only [operators, List.mem_cons, List.not_mem_nil, or_false] at hoperator
      rcases hoperator with rfl | rfl | rfl | rfl | rfl | rfl | rfl <;> decide

/-- The code point of the digit of a group number. -/
theorem toNat_digitChar {group : Nat} (h : group ≤ maxGroups) :
    group.digitChar.toNat = group + 48 := by
  have hsmall : ∀ n < 10, n.digitChar.toNat = n + 48 := by decide
  exact hsmall group (Nat.lt_succ_of_le h)

/-- A character names a group exactly when it is the digit of a number from one to nine. -/
theorem groupNumber?_eq_some_iff {c : Char} {group : Nat} :
    groupNumber? c = some group ↔ 0 < group ∧ group ≤ maxGroups ∧ c = group.digitChar := by
  have h0 : '0'.toNat = 48 := rfl
  have h9 : maxGroups = 9 := rfl
  unfold groupNumber?
  constructor
  · intro h
    split at h
    · next hc =>
        have hc := of_eq_digit_iff.1 hc
        have hgroup : c.toNat - 48 = group := Option.some.inj h
        have hle : group ≤ maxGroups := by omega
        refine ⟨by omega, hle, Char.toNat_inj.1 ?_⟩
        rw [toNat_digitChar hle]
        omega
    · cases h
  · rintro ⟨hpos, hle, rfl⟩
    have hnat := toNat_digitChar hle
    rw [if_pos (of_eq_digit_iff.2 (by omega)), hnat, h0, Nat.add_sub_cancel]

end Alphabet

/-- A letter of the alphabet. -/
structure Letter where
  char : Char
  isLetter : Alphabet.isLetter char
  deriving DecidableEq, Repr

/-- The number of a group, as far as a digit can name it. -/
structure GroupNumber where
  value : Nat
  pos : 0 < value
  le : value ≤ maxGroups
  deriving DecidableEq, Repr

namespace GroupNumber

/-- The digit that names the group. -/
def digit (group : GroupNumber) : Char := group.value.digitChar

/-- Reading the digit of a group gives back its number. -/
theorem groupNumber?_digit (group : GroupNumber) :
    Alphabet.groupNumber? group.digit = some group.value :=
  Alphabet.groupNumber?_eq_some_iff.2 ⟨group.pos, group.le, rfl⟩

/-- The code point of the digit. -/
theorem toNat_digit (group : GroupNumber) : group.digit.toNat = group.value + 48 :=
  Alphabet.toNat_digitChar group.le

/-- Digits belong to the alphabet. -/
theorem contains_digit (group : GroupNumber) : Alphabet.contains group.digit := by
  have hclass : CharClass.of? group.digit = some .digit := by
    have hnat := group.toNat_digit
    have hpos := group.pos
    have hle : group.value ≤ 9 := group.le
    exact Alphabet.of_eq_digit_iff.2 (by omega)
  simp [Alphabet.contains, hclass]

/-- No digit is an operator. -/
theorem digit_ne (group : GroupNumber) {d : Char} (hd : d ∈ Alphabet.operators) :
    group.digit ≠ d := by
  intro h
  have hnat := group.toNat_digit
  have hpos := group.pos
  have hle : group.value ≤ 9 := group.le
  rw [h] at hnat
  simp only [Alphabet.operators, List.mem_cons, List.not_mem_nil, or_false] at hd
  rcases hd with rfl | rfl | rfl | rfl | rfl | rfl | rfl <;> simp at hnat <;> omega

/-- A character that names a group is the digit of a group number. -/
theorem exists_of_groupNumber? {c : Char} {value : Nat}
    (h : Alphabet.groupNumber? c = some value) :
    ∃ group : GroupNumber, group.value = value ∧ c = group.digit := by
  obtain ⟨hpos, hle, rfl⟩ := Alphabet.groupNumber?_eq_some_iff.1 h
  exact ⟨⟨value, hpos, hle⟩, rfl, rfl⟩

end GroupNumber

end Backref
