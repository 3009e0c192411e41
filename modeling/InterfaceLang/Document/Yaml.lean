import InterfaceLang.Document
import InterfaceLang.Document.Lookalike

/-!
# Documents as YAML text

Block style with two spaces for each level: an entry of an object on a line of its own, the items
of a list behind dashes in the column of the list's key, empty lists and objects as brackets. Lines
are never folded.

A text is written plain where it can be; in single quotes where it would be taken for another value
or for punctuation; as a literal block where it has line feeds; and in double quotes, with escapes,
where it has characters that cannot be shown or blanks at the end of a line.
-/

namespace InterfaceLang.Document.Yaml

/-! ## Characters -/

/-- The characters that break a line. -/
def isBreak (c : Char) : Bool :=
  c = '\n' || c = '\r' || c = '\u0085' || c = '\u2028' || c = '\u2029'

/-- Blanks, line breaks and the null character. -/
def isBlank (c : Char) : Bool :=
  c = ' ' || c = '\t' || c = '\x00' || isBreak c

/-- The characters that can be shown as they are. -/
def isShown (c : Char) : Bool :=
  let n := c.toNat
  n == 0xA || (0x20 ≤ n && n ≤ 0x7E) ||
    (0xA0 ≤ n && n != 0xFEFF && n != 0xFFFE && n != 0xFFFF)

/-- The characters that mean something at the beginning of a text. -/
def indicators : List Char :=
  "#,[]\x7b\x7d&*!|>'\"%@`".toList

/-! ## Styles -/

/-- Whether a blank or the end follows. -/
def blankNext (cs : List Char) : Bool :=
  cs.head?.all isBlank

/-- Whether a colon before a blank, or a hash after one, occurs; `afterBlank` tells whether the text
is preceded by a blank. -/
def hasIndicator (afterBlank : Bool) : List Char → Bool
  | [] => false
  | c :: cs =>
    (c = ':' && blankNext cs) || (c = '#' && afterBlank) || hasIndicator (isBlank c) cs

/-- Whether a text begins with, or holds, something that is not read as text. -/
def isPunctuated (cs : List Char) : Bool :=
  match cs with
  | [] => false
  | c :: rest =>
    indicators.contains c || ("?:-".toList.contains c && blankNext rest) ||
      "---".toList.isPrefixOf cs || "...".toList.isPrefixOf cs || hasIndicator true cs

/-- Whether a line break follows a space directly. -/
def hasSpaceBreak : List Char → Bool
  | ' ' :: c :: cs => isBreak c || hasSpaceBreak (c :: cs)
  | _ :: cs => hasSpaceBreak cs
  | [] => false

/-- Whether a space follows a line break directly. -/
def hasBreakSpace : List Char → Bool
  | c :: ' ' :: cs => isBreak c || hasBreakSpace (' ' :: cs)
  | _ :: cs => hasBreakSpace cs
  | [] => false

/-- The ways to write a text. -/
inductive Style where
  | plain
  | singleQuoted
  | doubleQuoted
  | literal
  deriving DecidableEq, Repr

/-- Whether a text must be written with escapes, whatever else. -/
def needsEscapes (cs : List Char) : Bool :=
  cs.any (!isShown ·) || hasSpaceBreak cs

/-- The style in which a text is written. -/
def style (s : String) : Style :=
  let cs := s.toList
  if cs.contains '\n' then
    if needsEscapes cs || cs.getLast? = some ' ' then .doubleQuoted else .literal
  else if Lookalike.isOtherValue s || isPunctuated cs || cs.any isBreak || cs.head? = some ' ' ||
      cs.getLast? = some ' ' || needsEscapes cs then
    if needsEscapes cs || hasBreakSpace cs then .doubleQuoted else .singleQuoted
  else .plain

/-! ## Writing a text -/

/-- Spaces. -/
def spaces (n : Nat) : List Char :=
  List.replicate n ' '

/-- So many hexadecimal digits, in upper case. -/
def hex (width n : Nat) : List Char :=
  let digits := (Nat.toDigits 16 n).map Char.toUpper
  List.replicate (width - digits.length) '0' ++ digits

/-- One character in double quotes. -/
def escapeChar (c : Char) : List Char :=
  match c with
  | '\x00' => ['\\', '0']
  | '\x07' => ['\\', 'a']
  | '\x08' => ['\\', 'b']
  | '\t' => ['\\', 't']
  | '\n' => ['\\', 'n']
  | '\x0b' => ['\\', 'v']
  | '\x0c' => ['\\', 'f']
  | '\r' => ['\\', 'r']
  | '\x1b' => ['\\', 'e']
  | '"' => ['\\', '"']
  | '\\' => ['\\', '\\']
  | '\u0085' => ['\\', 'N']
  | '\u2028' => ['\\', 'L']
  | '\u2029' => ['\\', 'P']
  | c =>
    if isShown c then [c]
    else if c.toNat ≤ 0xFF then '\\' :: 'x' :: hex 2 c.toNat
    else if c.toNat ≤ 0xFFFF then '\\' :: 'u' :: hex 4 c.toNat
    else '\\' :: 'U' :: hex 8 c.toNat

/-- The characters of a text over several lines: a line that is not empty is indented, and `single`
doubles the single quotes. `fresh` tells whether a line break comes before the text. -/
def indented (indent : Nat) (single : Bool) (fresh : Bool) : List Char → List Char
  | [] => if single && fresh then spaces indent else []
  | c :: cs =>
    if isBreak c then c :: indented indent single true cs
    else
      (if fresh then spaces indent else []) ++ (if single && c = '\'' then ['\''] else []) ++
        c :: indented indent single false cs

/-- Whether a text ends with two line breaks, or is a line break and nothing else. -/
def keepsBreaks (cs : List Char) : Bool :=
  match cs.reverse with
  | [_] => true
  | _ :: d :: _ => isBreak d
  | [] => false

/-- What stands behind the bar of a literal block: the width of an indentation that cannot be seen
from the first line, and what becomes of the line breaks at the end. -/
def blockHints (cs : List Char) : List Char :=
  (if cs.head?.any fun c => c = ' ' || isBreak c then ['2'] else []) ++
    (if cs.getLast?.any isBreak then if keepsBreaks cs then ['+'] else [] else ['-'])

/-- A text as the value of an entry, to the end of its line; further lines are indented. -/
def text (indent : Nat) (s : String) : List Char :=
  let cs := s.toList
  match style s with
  | .plain => cs ++ ['\n']
  | .singleQuoted => '\'' :: indented indent true false cs ++ ['\'', '\n']
  | .doubleQuoted => '"' :: cs.flatMap escapeChar ++ ['"', '\n']
  | .literal =>
    '|' :: blockHints cs ++ '\n' :: indented indent false true cs ++
      (if cs.getLast?.any isBreak then [] else ['\n'])

/-! ## Writing a document -/

/-- A value without parts, to the end of its line. -/
def scalar (indent : Nat) : Document → List Char
  | .null => "null\n".toList
  | .bool b => (if b then "true\n" else "false\n").toList
  | .number n => (toString n).toList ++ ['\n']
  | .string s => text indent s
  | .array _ => "[]\n".toList
  | .object _ => "\x7b\x7d\n".toList

mutual

/-- A document whose first line is indented already and whose other lines need `indent` spaces. -/
def node (indent : Nat) : Document → List Char
  | .array (d :: ds) => items indent (d :: ds)
  | .object (e :: es) => entries indent (e :: es)
  | d => scalar indent d

/-- The value of an entry, behind its colon. -/
def value (indent : Nat) : Document → List Char
  | .array (d :: ds) => '\n' :: spaces indent ++ items indent (d :: ds)
  | .object (e :: es) => '\n' :: spaces (indent + 2) ++ entries (indent + 2) (e :: es)
  | d => ' ' :: scalar (indent + 2) d

/-- Items of a list, without the indentation of the first. -/
def items (indent : Nat) : List Document → List Char
  | [] => []
  | [d] => '-' :: ' ' :: node (indent + 2) d
  | d :: ds => '-' :: ' ' :: node (indent + 2) d ++ spaces indent ++ items indent ds

/-- Entries of an object, without the indentation of the first. -/
def entries (indent : Nat) : List (String × Document) → List Char
  | [] => []
  | [(key, d)] => key.toList ++ ':' :: value indent d
  | (key, d) :: es => key.toList ++ ':' :: value indent d ++ spaces indent ++ entries indent es

end

/-- The YAML text of a document. -/
def write (d : Document) : String :=
  String.ofList (node 0 d)

end InterfaceLang.Document.Yaml
