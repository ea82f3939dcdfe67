namespace Formulary.Text

/-!
# Quoted strings

A string literal stands in double quotes.  The quote itself, the backslash and
three control characters are written as a backslash and a mark; every other
character stands for itself.
-/

/-- The mark that stands for a character after a backslash. -/
def escapeMark? : Char → Option Char
  | '"' => some '"'
  | '\\' => some '\\'
  | '\n' => some 'n'
  | '\t' => some 't'
  | '\r' => some 'r'
  | _ => none

/-- The character that a mark stands for after a backslash. -/
def unescape? : Char → Option Char
  | 'n' => some '\n'
  | 't' => some '\t'
  | 'r' => some '\r'
  | '\\' => some '\\'
  | '"' => some '"'
  | _ => none

/-- A character as it is written between quotes. -/
def quoteChar (c : Char) : List Char :=
  match escapeMark? c with
  | some mark => ['\\', mark]
  | none => [c]

/-- The string literal that reads back to `text`. -/
def quoteChars (text : List Char) : List Char :=
  '"' :: text.flatMap quoteChar ++ ['"']

@[inherit_doc quoteChars]
def quote (text : String) : String :=
  String.ofList (quoteChars text.toList)

/-- Reading a mark undoes writing it. -/
theorem unescape?_of_escapeMark?
    {c mark : Char}
    (escaped : escapeMark? c = some mark) :
    unescape? mark = some c := by
  unfold escapeMark? at escaped
  split at escaped <;> simp_all [unescape?]
  all_goals (subst escaped; rfl)

end Formulary.Text
