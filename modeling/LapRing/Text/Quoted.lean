import LapRing.Text.Visible

/-!
# Quoted text

A text in double quotes. Quotes and backslashes are escaped by a backslash, the
common control characters by their letters, and every other character that does
not show by itself by its code point in hexadecimal.
-/
namespace LapRing.Text

private def codePoint (c : Char) : List Char :=
  ['\\', 'u', '\x7b'] ++ Nat.toDigits 16 c.toNat ++ ['\x7d']

def escape : Char → List Char
  | '"' => ['\\', '"']
  | '\\' => ['\\', '\\']
  | '\n' => ['\\', 'n']
  | '\r' => ['\\', 'r']
  | '\t' => ['\\', 't']
  | '\x00' => ['\\', '0']
  | c => if isVisible c then [c] else codePoint c

def quoted (text : String) : String :=
  String.ofList ('"' :: text.toList.flatMap escape ++ ['"'])

end LapRing.Text
