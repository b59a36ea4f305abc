import IndentScript.Text.Unprintable

/-!
# Quoted text

A text between quotes on one line: the quote, the backslash, the usual controls and every
unprintable character are escaped, and all else stands for itself.
-/

namespace IndentScript.Text

/-- The code point of a character in lower-case hexadecimal digits, without padding. -/
def codePoint (c : Char) : List Char :=
  Nat.toDigits 16 c.toNat

/-- The form of a character between quotes. -/
def escape (c : Char) : List Char :=
  match c with
  | '"' => ['\\', '"']
  | '\\' => ['\\', '\\']
  | '\t' => ['\\', 't']
  | '\r' => ['\\', 'r']
  | '\n' => ['\\', 'n']
  | '\x00' => ['\\', '0']
  | c => if isUnprintable c then '\\' :: 'u' :: '\x7b' :: (codePoint c ++ ['\x7d']) else [c]

/-- The text between quotes. -/
def quote (s : String) : String :=
  String.ofList ('"' :: (s.toList.flatMap escape ++ ['"']))

end IndentScript.Text
