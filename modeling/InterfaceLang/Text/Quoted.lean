import InterfaceLang.Text.Hidden

/-!
# Quoted text

The form in which messages show a piece of source: in double quotes, with the quote, the backslash
and the common control characters behind a backslash, and every other hidden character by the
number of its code point.
-/

namespace InterfaceLang.Text

/-- A code point by its number, in hexadecimal digits between braces. -/
def codePoint (c : Char) : List Char :=
  "\\u\x7b".toList ++ Nat.toDigits 16 c.toNat ++ ['\x7d']

/-- One character of a quoted text. -/
def quoteChar (c : Char) : List Char :=
  match c with
  | '\x00' => ['\\', '0']
  | '\t' => ['\\', 't']
  | '\n' => ['\\', 'n']
  | '\r' => ['\\', 'r']
  | '"' => ['\\', '"']
  | '\\' => ['\\', '\\']
  | c => if isHidden c then codePoint c else [c]

/-- A text in quotes. -/
def quote (s : String) : String :=
  String.ofList ('"' :: s.toList.flatMap quoteChar ++ ['"'])

end InterfaceLang.Text
