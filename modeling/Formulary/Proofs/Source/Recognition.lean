import Formulary.Proofs.Source.Unambiguous

namespace Formulary

open Stateful

/-!
# The parser recognizes the grammar

A program is read from tokens exactly when they have a derivation, comments left
out, and then the derivation is the only one and stands for the program.  An
expression that stands alone is read in the same way, up to one semicolon and
the end of the text.
-/

namespace Grammar

/-- A mark that is skipped may be left out. -/
theorem skip_optional
    (cursor : Cursor)
    (mark : Mark) :
    ∃ position,
      cursor.rest =
        Derivation.optional mark position ++ (cursor.skip mark).rest := by
  rcases cursor.skip_rest mark with same | ⟨position, shape⟩
  · exact ⟨none, same⟩
  · exact ⟨some position, shape⟩

/-- The end of the text comes next behind a semicolon that may be left out. -/
theorem skip_semicolon
    (semicolon : Option Position)
    (ending : Position)
    (rest : Tokens)
    (last : Option Position) :
    ((Cursor.mk (Derivation.optional .semicolon semicolon ++
        ⟨ending, .eof⟩ :: rest) last).skip .semicolon).peek? =
      some .eof := by
  cases semicolon with
  | none => rfl
  | some position => rfl

theorem standalone_of_parse
    {tokens : Tokens}
    {tree : Expr}
    (succeeds : Parse.standalone tokens = .ok tree) :
    ∃ derivation : Derivation.Standalone,
      derivation.tokens = Token.clean tokens ∧ derivation.value = tree := by
  obtain ⟨⟨value, cursor⟩, readsValue, rest⟩ := except_bind_eq_ok.mp succeeds
  obtain ⟨front, shape, derives⟩ := (sound _).expression readsValue
  obtain ⟨semicolon, afterValue⟩ := skip_optional cursor .semicolon
  dsimp only at rest
  split at rest
  · rename_i ended
    obtain ⟨ending, others, atEnd⟩ := Cursor.peek?_eq_some_iff.mp ended
    obtain ⟨phrase, rfl, rfl⟩ := Derivation.exists_expression derives
    refine ⟨⟨phrase, semicolon, ending, others⟩, ?_, by cases rest; rfl⟩
    rw [Derivation.Standalone.tokens, List.append_assoc, ← atEnd, ← afterValue]
    exact shape.symm
  · exact (Cursor.not_unexpected rest).elim

theorem parse_standalone
    {tokens : Tokens}
    (derivation : Derivation.Standalone)
    (isClean : derivation.tokens = Token.clean tokens) :
    Parse.standalone tokens = .ok derivation.value := by
  obtain ⟨phrase, semicolon, ending, rest⟩ := derivation
  simp only [Derivation.Standalone.tokens, List.append_assoc] at isClean
  have shorter : phrase.tokens.length ≤ tokens.length :=
    calc
      phrase.tokens.length ≤ (Token.clean tokens).length := by simp [← isClean]
      _ ≤ tokens.length := List.length_filter_le _ tokens
  have enough : 8 * phrase.tokens.length ≤ Parse.depthFor tokens + 1 := by
    rw [Parse.depthFor]
    omega
  obtain ⟨last, reads⟩ := phrase.derives.gives enough
    (Derivation.ends_optional semicolon ending rest) none
  rw [Parse.standalone, Parse.start, ← isClean, reads, except_bind_ok]
  simp only [skip_semicolon, if_true]
  rfl

/-- The parser reads exactly the expressions that stand alone. -/
theorem standalone_iff
    {tokens : Tokens}
    {tree : Expr} :
    Parse.standalone tokens = .ok tree ↔
      ∃ derivation : Derivation.Standalone,
        derivation.tokens = Token.clean tokens ∧ derivation.value = tree := by
  refine ⟨standalone_of_parse, ?_⟩
  rintro ⟨derivation, isClean, rfl⟩
  exact parse_standalone derivation isClean

/-- The parser reads exactly the programs that have a derivation. -/
theorem program_iff_derivation
    {tokens : Tokens}
    {statements : List Statement} :
    Parse.program tokens = .ok statements ↔
      ∃ derivation : Derivation.Program,
        derivation.tokens = Token.clean tokens ∧
          derivation.statements = statements := by
  rw [program_iff]
  refine ⟨Derivation.exists_program, ?_⟩
  rintro ⟨derivation, isClean, rfl⟩
  exact isClean ▸ derivation.derives

/--
The parser reads a program, or an expression that stands alone, exactly when the
tokens without comments have a derivation that stands for it.  No tokens have
two derivations.  What braces hold tells points from initializers: points have a
comma behind the first expression of a leading parenthesis, and initializers,
whether of an array with or without sizes, do not.
-/
theorem recognition :
    (∀ (tokens : Tokens) (statements : List Statement),
      Parse.program tokens = .ok statements ↔
        ∃ derivation : Derivation.Program,
          derivation.tokens = Token.clean tokens ∧
            derivation.statements = statements) ∧
    (∀ (tokens : Tokens) (tree : Expr),
      Parse.standalone tokens = .ok tree ↔
        ∃ derivation : Derivation.Standalone,
          derivation.tokens = Token.clean tokens ∧ derivation.value = tree) ∧
    Function.Injective Derivation.Program.tokens ∧
    Function.Injective Derivation.Standalone.tokens ∧
    (∀ points : Derivation.Points, StartsPoint points.tokens) ∧
    (∀ (elements : Derivation.Elements) (rest : Tokens),
      ¬ StartsPoint (elements.tokens .closeBrace ++ rest)) := by
  refine ⟨fun _ _ => program_iff_derivation, fun _ _ =>
    standalone_iff, ?_, ?_, ?_, ?_⟩
  · intro derivation other same
    exact Derivation.Program.eq_of_tokens same
  · intro derivation other same
    exact Derivation.Standalone.eq_of_tokens same
  · intro points
    exact points.derives.starts
  · intro elements rest
    exact (elements.derives .closeBrace).not_startsPoint rest

end Grammar

end Formulary
