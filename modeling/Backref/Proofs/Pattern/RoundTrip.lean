import Backref.Pattern.Printer
import Backref.Proofs.Pattern.Draft

/-!
# Printing what was parsed

The tree of an abstract pattern prints as the text of that pattern, so parsing and printing give
back the text character for character. Read `Pattern.render_eq_of_parse` first.
-/

namespace Backref

/-- A repetition prints its star after its only child. -/
theorem Node.print_starIf (starred : Bool) (node : Node) (cursor : Cursor) (rest : List Char) :
    (Node.starIf starred node cursor).1.print rest =
      node.print (Token.spellAll (Token.starIf starred) ++ rest) := by
  cases starred with
  | false => rfl
  | true => simp [Node.starIf, Node.print, Node.printAll, Token.starIf, Token.spell]

/-- An alternation prints its first branch and then the others with a bar before each. -/
theorem Node.printAll_alternate (nodes : List Node) (cursor : Cursor) (branches : List Node)
    (rest : List Char) :
    Node.printAll (Node.alternate nodes cursor branches) rest =
      Node.printAll nodes (Node.printBarred branches rest) := by
  cases branches with
  | nil => rfl
  | cons branch branches => simp [Node.alternate, Node.print, Node.printAll]

mutual

/-- The node of an item prints as the tokens of the item. -/
theorem Item.print_build : ∀ (item : Item) (cursor : Cursor) (rest : List Char),
    (item.build cursor).1.print rest = Token.spellAll item.tokens ++ rest
  | .letter c starred, cursor, rest => by
      rw [Item.build, Node.print_starIf]
      rfl
  | .group captures first others starred, cursor, rest => by
      rw [Item.build, Node.print_starIf]
      -- The number of the group decides how its parenthesis is printed.
      cases captures with
      | true =>
          simp [Cursor.groupNumber?, Node.print, Node.printAll_alternate, Item.printAll_build,
            Item.printBarred_build, Item.tokens, Token.spell]
      | false =>
          simp [Cursor.groupNumber?, Node.print, Node.printAll_alternate, Item.printAll_build,
            Item.printBarred_build, Item.tokens, Token.spell]
  | .expressionRef number starred, cursor, rest => by
      rw [Item.build, Node.print_starIf]
      rfl
  | .stringRef number, cursor, rest => rfl

/-- The nodes of a sequence print as the tokens of the sequence. -/
theorem Item.printAll_build : ∀ (items : List Item) (cursor : Cursor) (rest : List Char),
    Node.printAll (Item.buildSequence items cursor).1 rest =
      Token.spellAll (Item.sequenceTokens items) ++ rest
  | [], cursor, rest => rfl
  | item :: items, cursor, rest => by
      rw [Item.buildSequence, Node.printAll, Item.printAll_build items, Item.print_build item,
        Item.sequenceTokens, Token.spellAll_append, List.append_assoc]

/-- The branches of some sequences print as the tokens of the sequences. -/
theorem Item.printBarred_build : ∀ (others : List (List Item)) (cursor : Cursor)
    (rest : List Char), Node.printBarred (Item.buildBranches others cursor).1 rest =
      Token.spellAll (Item.barredTokens others) ++ rest
  | [], cursor, rest => rfl
  | items :: others, cursor, rest => by
      rw [Item.buildBranches, Node.printBarred, Node.print, Item.printBarred_build others,
        Item.printAll_build items, Item.barredTokens]
      simp [Token.spell]

end

/-- The tree of an abstract pattern prints as the text of the pattern. -/
theorem Regex.render_build (regex : Regex) : regex.build.render = String.ofList regex.text := by
  show String.ofList (Node.printAll (regex.buildBody .start).1 []) = String.ofList regex.text
  rw [Regex.buildBody, Node.printAll_alternate, Item.printBarred_build, Item.printAll_build,
    List.append_nil, Regex.text, Regex.tokens, Token.spellAll_append]

/-- Printing the tree of a parsed text gives back the text. -/
theorem Pattern.render_eq_of_parse {text : String} {pattern : Pattern}
    (h : Pattern.parse text = .ok pattern) : pattern.render = text := by
  obtain ⟨regex, _, htext, rfl⟩ := Pattern.parse_eq_ok_iff.1 h
  rw [Regex.render_build, htext, String.ofList_toList]

/-- A text with empty branches, nested groups and stars comes back as it was. -/
theorem Pattern.render_eq_of_parse_nested :
    ∃ pattern, Pattern.parse "(|a*||(?:(?1)*|))*b|\\1" = .ok pattern ∧
      pattern.render = "(|a*||(?:(?1)*|))*b|\\1" := by
  obtain ⟨pattern, hparse⟩ : ∃ pattern, Pattern.parse "(|a*||(?:(?1)*|))*b|\\1" = .ok pattern :=
    ⟨_, rfl⟩
  exact ⟨pattern, hparse, Pattern.render_eq_of_parse hparse⟩

end Backref
