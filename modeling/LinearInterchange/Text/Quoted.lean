import LinearInterchange.Text.Printable

/-! # Quoted texts

A text between quotes, in which quotes, backslashes and characters that do not print are written
as escapes. -/

namespace LinearInterchange.Text

/-- The escape of a character by its code point, in hexadecimal digits between braces. -/
def codeEscape (c : Char) : List Char :=
  "\\u\x7b".toList ++ Nat.toDigits 16 c.toNat ++ "\x7d".toList

/-- A character within quotes. -/
def escape (c : Char) : List Char :=
  match c with
  | '"' => ['\\', '"']
  | '\\' => ['\\', '\\']
  | '\t' => ['\\', 't']
  | '\r' => ['\\', 'r']
  | '\n' => ['\\', 'n']
  | '\x00' => ['\\', '0']
  | c => if isPrintable c then [c] else codeEscape c

/-- The text between quotes. -/
def quoted (s : String) : String :=
  String.ofList ('"' :: s.toList.flatMap escape ++ ['"'])

end LinearInterchange.Text
