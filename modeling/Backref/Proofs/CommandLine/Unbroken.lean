import Backref.CommandLine.Report
import Backref.Proofs.Pattern.RoundTrip
import Backref.Proofs.Pattern.Spelling
import Backref.Proofs.Text.Lines

/-!
# Output lines are not broken

No text that goes into an output line contains a line feed: not the text of an input line, which
has lost its own, not a message, whatever character it quotes, and not the canonical text of a
pattern.
-/

namespace Backref

/-- A text without a line feed. -/
def Unbroken (text : String) : Prop := '\n' ∉ text.toList

instance (text : String) : Decidable (Unbroken text) := inferInstanceAs (Decidable (_ ∉ _))

@[simp] theorem unbroken_append_iff {text rest : String} :
    Unbroken (text ++ rest) ↔ Unbroken text ∧ Unbroken rest := by
  rw [Unbroken, String.toList_append, List.mem_append, not_or]
  rfl

theorem lineFeed_not_mem_toDigits {base : Nat} (h : 1 < base) (hbase : base ≤ 16) (n : Nat) :
    '\n' ∉ Nat.toDigits base n := by
  have hdigit : ∀ digit < 16, '\n' ≠ digit.digitChar := by decide
  induction n using Nat.strong_induction_on with
  | h n ih =>
      rw [Nat.toDigits_eq_if h]
      split
      · next hlt =>
          rw [List.mem_singleton]
          exact hdigit n (by omega)
      · next hge =>
          rw [List.mem_append, not_or, List.mem_singleton]
          have hmod : n % base < base := Nat.mod_lt n (by omega)
          exact ⟨ih (n / base) (Nat.div_lt_self (by omega) h), hdigit _ (by omega)⟩

@[simp] theorem unbroken_toString (n : Nat) : Unbroken (toString n) := by
  rw [Unbroken, Nat.toString_eq_ofList_toDigits, String.toList_ofList]
  exact lineFeed_not_mem_toDigits (by decide) (by decide) n

@[simp] theorem unbroken_toString_iff {text : String} :
    Unbroken (toString text) ↔ Unbroken text := Iff.rfl

namespace Text

/-- A line feed is escaped. -/
theorem unbroken_escaped (c : Char) : Unbroken (escaped c) := by
  unfold escaped
  split
  any_goals decide
  next _ _ _ hfeed _ _ =>
    split
    · have hhexadecimal : Unbroken (hexadecimal c) := by
        rw [hexadecimal, Unbroken, String.toList_ofList]
        exact lineFeed_not_mem_toDigits (by decide) (by decide) _
      rw [unbroken_append_iff, unbroken_append_iff]
      exact ⟨⟨by decide, hhexadecimal⟩, by decide⟩
    · rw [Char.toString, Unbroken, String.toList_singleton, List.mem_singleton]
      exact fun heq => hfeed heq.symm

@[simp] theorem unbroken_quoted (c : Char) : Unbroken (quoted c) := by
  rw [quoted, unbroken_append_iff, unbroken_append_iff]
  exact ⟨⟨by decide, unbroken_escaped c⟩, by decide⟩

end Text

/-- No message is broken, whatever it quotes. -/
theorem Rejection.unbroken_message (rejection : Rejection) : Unbroken rejection.message := by
  unfold message
  cases rejection <;>
    simp only [unbroken_append_iff, unbroken_toString_iff, unbroken_toString, Text.unbroken_quoted,
      and_true, true_and] <;>
    decide

/-- The characters of an accepted text belong to the alphabet. -/
theorem Pattern.contains_of_parse {text : String} {pattern : Pattern}
    (h : Pattern.parse text = .ok pattern) {c : Char} (hc : c ∈ text.toList) :
    Alphabet.contains c := by
  obtain ⟨regex, _, htext, _⟩ := Pattern.parse_eq_ok_iff.1 h
  rw [← htext] at hc
  exact Token.contains_of_mem_spellAll hc

/-- The canonical text of a pattern is not broken. -/
theorem Pattern.unbroken_render {text : String} {pattern : Pattern}
    (h : Pattern.parse text = .ok pattern) : Unbroken pattern.render := by
  obtain ⟨regex, _, _, rfl⟩ := Pattern.parse_eq_ok_iff.1 h
  rw [Regex.render_build, Unbroken, String.toList_ofList]
  intro hmem
  exact absurd (Token.contains_of_mem_spellAll hmem) (by decide)

namespace CommandLine

theorem unbroken_of_mem_describe {text : String} {pattern : Pattern}
    (h : Pattern.parse text = .ok pattern) {line : String} (hline : line ∈ describe pattern) :
    Unbroken line := by
  unfold describe at hline
  obtain rfl | hline := List.mem_cons.1 hline
  · have hrender := Pattern.unbroken_render h
    simp only [unbroken_append_iff, unbroken_toString_iff, hrender, and_true]
    decide
  · obtain ⟨⟨number, group⟩, _, rfl⟩ := List.mem_map.1 hline
    simp only [unbroken_append_iff, unbroken_toString_iff, unbroken_toString, and_true]
    decide

end CommandLine

end Backref
