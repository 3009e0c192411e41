import InterfaceLang.Name
import InterfaceLang.Text.Blank
import InterfaceLang.Token

/-!
# From characters to tokens

`scan` splits the first token off a text; a cursor repeats this to the end of the text. Words,
runs of blanks and comments are as long as they can be, a quoted text ends at the next quote, and
a quote that is never closed spoils the rest of the text.

Results:
* `scan_append`: a token takes a part of the text from its front and nothing is lost.
* `flatMap_lexeme_tokens`: the lexemes of the tokens, one after another, are the text.
* `lexeme_ne_nil`: no token before the end is empty.
-/

namespace InterfaceLang

namespace Lexer

/-- The characters that separate tokens. -/
def isSpace (c : Char) : Bool :=
  c = ' ' || c = '\t' || c = '\r' || c = '\n'

/-- What follows the bracket of an optional mark. -/
def optionalTail : List Char :=
  "optional]".toList

/-- The kind of a word: a keyword, a built-in type or an identifier. -/
def wordKind (word : String) : TokenKind :=
  match Keyword.ofWord? word with
  | some k => .keyword k
  | none =>
    match BuiltIn.ofName? word with
    | some b => .builtIn b
    | none => .identifier word

/-- The first token of a text: its kind, its characters after the first, and what follows it. -/
structure Scanned where
  kind : TokenKind
  tail : List Char
  rest : List Char

/-- A token that begins with an opening bracket. -/
def scanBracket (cs : List Char) : Scanned :=
  if optionalTail.isPrefixOf cs then ⟨.optionalMark, optionalTail, cs.drop optionalTail.length⟩
  else ⟨.punct .lbracket, [], cs⟩

/-- A token that begins with a slash: a comment to the end of the line, if another slash follows. -/
def scanSlash (cs : List Char) : Scanned :=
  match cs with
  | [] => ⟨.unknown, [], cs⟩
  | d :: ds =>
    if d = '/' then
      ⟨.comment (String.ofList (Text.trim (ds.takeWhile (· ≠ '\n')))),
        d :: ds.takeWhile (· ≠ '\n'), ds.dropWhile (· ≠ '\n')⟩
    else ⟨.unknown, [], cs⟩

/-- A token that begins with a quote. -/
def scanQuote (cs : List Char) : Scanned :=
  match cs.dropWhile (· ≠ '"') with
  | [] => ⟨.unknown, cs, []⟩
  | q :: rest =>
    ⟨.stringLiteral (String.ofList (cs.takeWhile (· ≠ '"'))), cs.takeWhile (· ≠ '"') ++ [q], rest⟩

/-- A token that begins with a letter. -/
def scanWord (c : Char) (cs : List Char) : Scanned :=
  ⟨wordKind (String.ofList (c :: cs.takeWhile Name.isWordChar)), cs.takeWhile Name.isWordChar,
    cs.dropWhile Name.isWordChar⟩

/-- Splits the first token off the text `c :: cs`. -/
def scan (c : Char) (cs : List Char) : Scanned :=
  if c = '[' then scanBracket cs
  else if c = '/' then scanSlash cs
  else if c = '"' then scanQuote cs
  else if isSpace c then ⟨.whitespace, cs.takeWhile isSpace, cs.dropWhile isSpace⟩
  else if Name.isLetter c then scanWord c cs
  else
    match Punct.ofChar? c with
    | some p => ⟨.punct p, [], cs⟩
    | none => ⟨.unknown, [], cs⟩

theorem scanBracket_append (cs : List Char) :
    (scanBracket cs).tail ++ (scanBracket cs).rest = cs := by
  unfold scanBracket
  split
  · next h => exact (List.prefix_iff_eq_append.1 (List.isPrefixOf_iff_prefix.1 h))
  · rfl

theorem scanSlash_append (cs : List Char) : (scanSlash cs).tail ++ (scanSlash cs).rest = cs := by
  unfold scanSlash
  split
  · rfl
  · split
    · simp
    · rfl

theorem scanQuote_append (cs : List Char) : (scanQuote cs).tail ++ (scanQuote cs).rest = cs := by
  unfold scanQuote
  split
  · simp
  · next q rest h =>
    have := List.takeWhile_append_dropWhile (p := (· ≠ '"')) (l := cs)
    rw [h] at this
    simpa using this

theorem scan_append (c : Char) (cs : List Char) : (scan c cs).tail ++ (scan c cs).rest = cs := by
  unfold scan
  split
  · exact scanBracket_append cs
  split
  · exact scanSlash_append cs
  split
  · exact scanQuote_append cs
  split
  · simp
  split
  · simp [scanWord]
  split <;> rfl

theorem length_scan_rest_le (c : Char) (cs : List Char) :
    (scan c cs).rest.length ≤ cs.length := by
  have := congrArg List.length (scan_append c cs)
  rw [List.length_append] at this
  omega

/-- A place in a text from which tokens are read: its position and the characters from there. -/
structure Cursor where
  pos : Position
  rest : List Char

namespace Cursor

/-- The beginning of a text. -/
def ofSource (file source : String) : Cursor :=
  ⟨.start file, source.toList⟩

/-- The next token and the place after it. At the end this is the end mark, and the cursor stays. -/
def next (k : Cursor) : Token × Cursor :=
  match k.rest with
  | [] => (⟨.eof, [], k.pos⟩, k)
  | c :: cs =>
    (⟨(scan c cs).kind, c :: (scan c cs).tail, k.pos⟩,
      ⟨k.pos.after (c :: (scan c cs).tail), (scan c cs).rest⟩)

/-- The tokens that `n` steps read. -/
def take : Nat → Cursor → List Token
  | 0, _ => []
  | n + 1, k => k.next.1 :: take n k.next.2

end Cursor

/-- The tokens of a text that begins at `pos`, without an end mark. -/
def tokensFrom (pos : Position) : List Char → List Token
  | [] => []
  | c :: cs =>
    ⟨(scan c cs).kind, c :: (scan c cs).tail, pos⟩ ::
      tokensFrom (pos.after (c :: (scan c cs).tail)) (scan c cs).rest
termination_by cs => cs.length
decreasing_by
  have := length_scan_rest_le c cs
  simp only [List.length_cons]
  omega

end Lexer

/-- The tokens of a source, without an end mark. -/
def tokens (file source : String) : List Token :=
  Lexer.tokensFrom (.start file) source.toList

/-- The position after the last character of a source. -/
def endOf (file source : String) : Position :=
  (Position.start file).after source.toList

/-- The mark that stands after the last token of a source. -/
def endMark (file source : String) : Token :=
  ⟨.eof, [], endOf file source⟩

/-- All tokens of a source, the end mark last. -/
def lex (file source : String) : List Token :=
  tokens file source ++ [endMark file source]

namespace Lexer

theorem flatMap_lexeme_tokensFrom (pos : Position) (cs : List Char) :
    (tokensFrom pos cs).flatMap (·.lexeme) = cs := by
  fun_induction tokensFrom pos cs with
  | case1 => rfl
  | case2 pos c cs ih => rw [List.flatMap_cons, ih, List.cons_append, scan_append]

theorem flatMap_lexeme_tokens (file source : String) :
    (tokens file source).flatMap (·.lexeme) = source.toList :=
  flatMap_lexeme_tokensFrom _ _

theorem lexeme_ne_nil {pos : Position} {cs : List Char} {t : Token} (h : t ∈ tokensFrom pos cs) :
    t.lexeme ≠ [] := by
  fun_induction tokensFrom pos cs with
  | case1 => simp at h
  | case2 pos c cs ih =>
    rcases List.mem_cons.1 h with rfl | h
    · simp
    · exact ih h

end Lexer

end InterfaceLang
