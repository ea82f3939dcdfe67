import Formulary.Text.Printable

namespace Formulary.Text

/-!
# Escaped strings

Diagnostic listings show strings in double quotes with every character that
does not show by itself given by its code point.
-/

/-- Lower-case hexadecimal digits of a code point. -/
def hexDigits (n : Nat) : List Char :=
  Nat.toDigits 16 n

/-- A character as it is shown in a listing. -/
def escapeChar (c : Char) : List Char :=
  match c with
  | '"' => ['\\', '"']
  | '\\' => ['\\', '\\']
  | '\n' => ['\\', 'n']
  | '\r' => ['\\', 'r']
  | '\t' => ['\\', 't']
  | '\x00' => ['\\', '0']
  | _ =>
      if isPrintable c then [c]
      else ['\\', 'u', '\x7b'] ++ hexDigits c.toNat ++ ['\x7d']

/-- A string as it is shown in a listing. -/
def escape (text : String) : String :=
  String.ofList ('"' :: text.toList.flatMap escapeChar ++ ['"'])

end Formulary.Text
