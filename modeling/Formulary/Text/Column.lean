namespace Formulary.Text

/-!
# Columns and lines

Padding to a width, counted in characters, and text made of lines.
-/

/-- The text followed by blanks up to the given width. -/
def padRight (width : Nat) (text : String) : String :=
  text.pushn ' ' (width - text.length)

/-- Decimal digits with leading zeros up to the given width. -/
def zeroPadded (width : Nat) (n : Nat) : String :=
  let digits := toString n
  "".pushn '0' (width - digits.length) ++ digits

/-- Every line followed by a line break. -/
def unlines (lines : List String) : String :=
  String.join (lines.map fun line => line ++ "\n")

/--
The text before the first line break, without a carriage return at its end.
-/
def firstLine (text : String) : String :=
  let line := text.toList.takeWhile (· ≠ '\n')
  let hasBreak := text.toList.contains '\n'
  String.ofList
    (if hasBreak && line.getLast? = some '\r' then line.dropLast else line)

end Formulary.Text
