import InterfaceLang.Document

/-!
# Documents as JSON text

Two forms: compact, without any space, and pretty, with every item and entry on a line of its own
and two spaces for each level. Text is escaped where JSON demands it and nowhere else.
-/

namespace InterfaceLang.Document.Json

/-- A hexadecimal digit. -/
def hexDigit (n : Nat) : Char :=
  (Nat.toDigits 16 (n % 16)).headD '0'

/-- One character of a JSON text. -/
def escapeChar (c : Char) : List Char :=
  match c with
  | '"' => ['\\', '"']
  | '\\' => ['\\', '\\']
  | '\n' => ['\\', 'n']
  | '\r' => ['\\', 'r']
  | '\t' => ['\\', 't']
  | '\x08' => ['\\', 'b']
  | '\x0c' => ['\\', 'f']
  | c =>
    if c.toNat < 0x20 then
      ['\\', 'u', '0', '0', hexDigit (c.toNat / 16), hexDigit c.toNat]
    else [c]

/-- A text in quotes. -/
def quote (s : String) : String :=
  String.ofList ('"' :: s.toList.flatMap escapeChar ++ ['"'])

/-- The text of a value that has no parts. -/
def scalar : Document → String
  | .null => "null"
  | .bool b => if b then "true" else "false"
  | .number n => toString n
  | .string s => quote s
  | .array _ => "[]"
  | .object _ => "\x7b\x7d"

mutual

/-- The compact form. -/
def compact : Document → String
  | .array items => "[" ++ ",".intercalate (compactItems items) ++ "]"
  | .object entries => "\x7b" ++ ",".intercalate (compactEntries entries) ++ "\x7d"
  | d => scalar d

/-- The compact forms of the items of a list. -/
def compactItems : List Document → List String
  | [] => []
  | d :: ds => compact d :: compactItems ds

/-- The compact forms of the entries of an object. -/
def compactEntries : List (String × Document) → List String
  | [] => []
  | (key, d) :: es => (quote key ++ ":" ++ compact d) :: compactEntries es

end

/-- A new line at the given depth. -/
def newLine (depth : Nat) : String :=
  "\n" ++ String.ofList (List.replicate (2 * depth) ' ')

/-- Parts between two brackets, each on a line of its own; without parts, the brackets only. -/
def bracketed (depth : Nat) (left right : String) (parts : List String) : String :=
  if parts.isEmpty then left ++ right
  else
    left ++ newLine (depth + 1) ++ ("," ++ newLine (depth + 1)).intercalate parts ++
      newLine depth ++ right

mutual

/-- The pretty form, at the given depth. -/
def prettyAt (depth : Nat) : Document → String
  | .array items => bracketed depth "[" "]" (prettyItems (depth + 1) items)
  | .object entries => bracketed depth "\x7b" "\x7d" (prettyEntries (depth + 1) entries)
  | d => scalar d

/-- The pretty forms of the items of a list. -/
def prettyItems (depth : Nat) : List Document → List String
  | [] => []
  | d :: ds => prettyAt depth d :: prettyItems depth ds

/-- The pretty forms of the entries of an object. -/
def prettyEntries (depth : Nat) : List (String × Document) → List String
  | [] => []
  | (key, d) :: es => (quote key ++ ": " ++ prettyAt depth d) :: prettyEntries depth es

end

/-- The pretty form. -/
def pretty (d : Document) : String :=
  prettyAt 0 d

end InterfaceLang.Document.Json
