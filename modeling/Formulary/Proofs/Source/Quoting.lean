import Formulary.Proofs.Source.Literals
import Formulary.Proofs.Source.Relocation
import Mathlib.Logic.Function.Defs

namespace Formulary

/-!
# Quoted texts in front of other texts

A quoted text stands on one line and is over at its closing quote.  Whatever
stands behind it is scanned as it is on its own, and what is found on its first
line is as many columns further right as the quoted text has characters.
-/

namespace Text

/-- No character is written with a line break. -/
theorem break_not_mem_quoteChar (c : Char) : '\n' ∉ quoteChar c := by
  unfold quoteChar escapeMark?
  split
  · rename_i mark escaped
    split at escaped <;> cases escaped <;> decide
  · rename_i plain
    split at plain <;> cases plain
    rename_i notBreak _ _
    simpa using fun isBreak => notBreak isBreak.symm

/-- A quoted text stands on one line. -/
theorem break_not_mem_quoteChars
    (text : List Char) :
    '\n' ∉ quoteChars text := by
  simp only [quoteChars, List.cons_append, List.mem_cons, List.mem_append,
    List.mem_flatMap, List.not_mem_nil, or_false, not_or, not_exists, not_and]
  exact ⟨by decide, fun c _ => break_not_mem_quoteChar c, by decide⟩

end Text

namespace Position

/-- The position some columns further right, if it is on the first line. -/
def indent (columns : Nat) (position : Position) : Position :=
  if position.line = 1 then ⟨1, position.column + columns⟩ else position

/-- A text that starts further right has its first line further right. -/
theorem inStep_indent (columns : Nat) : InStep (indent columns) start := by
  refine inStep_of_step (fun position => 1 ≤ position.line) ?_ ?_
    (Nat.le_refl 1)
  · intro position c below
    unfold step
    split
    · exact Nat.le_succ_of_le below
    · exact below
  · intro position c below
    by_cases first : position.line = 1
    · unfold step
      split
      · simp [indent, first]
      · simp [indent, first, Nat.add_right_comm]
    · -- No character leads back to the first line.
      have notFirst : (position.step c).line ≠ 1 := by
        unfold step
        split
        · simp only
          omega
        · exact first
      simp [indent, first, notFirst]

/-- A text without a line break leads as far right as it is long. -/
theorem advance_of_no_break
    {text : List Char}
    (noBreak : '\n' ∉ text)
    (position : Position) :
    position.advance text = ⟨position.line, position.column + text.length⟩ := by
  induction text generalizing position with
  | nil => rfl
  | cons c rest inductionHypothesis =>
      simp only [List.mem_cons, not_or] at noBreak
      have step : position.step c = ⟨position.line, position.column + 1⟩ :=
        if_neg fun isBreak => noBreak.1 isBreak.symm
      have later := inductionHypothesis noBreak.2 (position.step c)
      rw [step] at later
      simp only [advance, List.foldl_cons, step, List.length_cons] at later ⊢
      rw [later, Nat.add_assoc, Nat.add_comm 1]

end Position

/--
Behind a quoted text, another one is scanned as it is on its own: the token of
the quoted text comes first, and what is found on the first line of the other
one, tokens or a malformed lexeme, is further right.
-/
theorem scan_quote_append (text rest : String) :
    Token.scan (Text.quote text ++ rest) =
      match Token.scan rest with
      | .ok tokens =>
          .ok (⟨Position.start, .literal (.string text)⟩ ::
            tokens.map
              (Located.relocate (Position.indent (Text.quote text).length)))
      | .error error =>
          .error
            ⟨error.fault, error.position.indent (Text.quote text).length⟩ := by
  have width :
      (Text.quote text).length = (Text.quoteChars text.toList).length := by
    rw [Text.quote, String.length_ofList]
  have chars :
      (Text.quote text ++ rest).toList =
        '"' ::
          (text.toList.flatMap Text.quoteChar ++ ['"'] ++ rest.toList) := by
    rw [String.toList_append, Text.quote, String.toList_ofList, Text.quoteChars]
    rfl
  have behind :
      Position.start.advance
        ('"' :: (text.toList.flatMap Text.quoteChar ++ ['"'])) =
        Position.start.indent (Text.quote text).length := by
    rw [width]
    exact Position.advance_of_no_break
      (Text.break_not_mem_quoteChars text.toList) _
  rw [Token.scan, chars, Token.scanFrom, if_neg (by decide), Lexeme.read_quoted]
  simp only [List.take_left, List.drop_left, behind, String.ofList_toList]
  rw [Token.scanFrom_relocate (Position.inStep_indent _), Token.scan]
  cases Token.scanFrom Position.start rest.toList with
  | ok tokens => rfl
  | error error => rfl

/-- The token that is scanned tells the text that has been quoted. -/
theorem quote_injective : Function.Injective Text.quote := by
  intro text other same
  have scanned := scan_quote_append text ""
  rw [same, scan_quote_append other ""] at scanned
  have empty : Token.scan "" = .ok [⟨Position.start, .eof⟩] := by
    decide +kernel
  rw [empty] at scanned
  cases scanned
  rfl

/--
Quoted texts read back in front of any text.  A quoted text is scanned as the
string it quotes, at the start, and what follows it is scanned exactly when it
is on its own: its tokens come next, those on its first line as many columns
further right as the quoted text has characters, and so is the malformed lexeme
for which it is refused.  Different texts are quoted differently, and each on
one line.
-/
theorem quoted_text_reads_back :
    (∀ text rest : String,
      Token.scan (Text.quote text ++ rest) =
        match Token.scan rest with
        | .ok tokens =>
            .ok (⟨⟨1, 1⟩, .literal (.string text)⟩ ::
              tokens.map
                (Located.relocate (Position.indent (Text.quote text).length)))
        | .error error =>
            .error
              ⟨error.fault, error.position.indent (Text.quote text).length⟩) ∧
      Function.Injective Text.quote ∧
      ∀ text : String, '\n' ∉ (Text.quote text).toList := by
  refine ⟨scan_quote_append, quote_injective, ?_⟩
  intro text
  rw [Text.quote, String.toList_ofList]
  exact Text.break_not_mem_quoteChars text.toList

/-- A backslash at the end does not hide the closing quote. -/
example :
    Token.scan (Text.quote "\n\"\\" ++ "x\ny") =
      .ok [⟨⟨1, 1⟩, .literal (.string "\n\"\\")⟩, ⟨⟨1, 9⟩, .name "x"⟩,
        ⟨⟨2, 1⟩, .name "y"⟩, ⟨⟨2, 2⟩, .eof⟩] := by
  decide +kernel

end Formulary
