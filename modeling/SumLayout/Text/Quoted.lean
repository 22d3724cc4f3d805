import SumLayout.Text.Printable

/-!
# Quoted text

A string is shown in quotes with one meaning for every result: quotes and backslashes are escaped,
the usual controls have short escapes, and any other character without a glyph is given by its code
point in hexadecimal.
-/

namespace SumLayout.Text

/-- A number in hexadecimal, in small letters. -/
def hex (n : Nat) : List Char := Nat.toDigits 16 n

/-- One character as it is shown between quotes. -/
def quoteChar (c : Char) : List Char :=
  match c with
  | '\x00' => ['\\', '0']
  | '\t' => ['\\', 't']
  | '\n' => ['\\', 'n']
  | '\r' => ['\\', 'r']
  | '"' => ['\\', '"']
  | '\\' => ['\\', '\\']
  | c =>
    if isPrintable c then [c]
    else ['\\', 'u', '\x7b'] ++ hex c.toNat ++ ['\x7d']

/-- A string in quotes. -/
def quoted (s : String) : String :=
  String.ofList ('"' :: s.toList.flatMap quoteChar ++ ['"'])

end SumLayout.Text
