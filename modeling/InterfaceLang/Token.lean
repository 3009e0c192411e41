import InterfaceLang.TypeExpr

/-!
# Tokens

A token has a kind, the characters it was written with, and the position of the first of them.
Blanks and comments are tokens too (trivia), so that the tokens of a text tile it.
-/

namespace InterfaceLang

/-- The reserved words other than the built-in types. -/
inductive Keyword where
  | namespaceKw
  | interfaceKw
  | structKw
  | enumKw
  | extendsKw
  | mapKw
  deriving DecidableEq, Repr

namespace Keyword

/-- The spelling of a keyword. -/
def text : Keyword → String
  | namespaceKw => "namespace"
  | interfaceKw => "interface"
  | structKw => "struct"
  | enumKw => "enum"
  | extendsKw => "extends"
  | mapKw => "map"

/-- All keywords. -/
def all : List Keyword :=
  [namespaceKw, interfaceKw, structKw, enumKw, extendsKw, mapKw]

/-- The keyword that is spelled `word`. -/
def ofWord? (word : String) : Option Keyword :=
  all.find? (·.text = word)

end Keyword

/-- The punctuation marks. -/
inductive Punct where
  | lbrace
  | rbrace
  | lbracket
  | rbracket
  | lparen
  | rparen
  | semicolon
  | comma
  | dot
  deriving DecidableEq, Repr

namespace Punct

/-- The character of a punctuation mark. -/
def char : Punct → Char
  | lbrace => '\x7b'
  | rbrace => '\x7d'
  | lbracket => '['
  | rbracket => ']'
  | lparen => '('
  | rparen => ')'
  | semicolon => ';'
  | comma => ','
  | dot => '.'

/-- All punctuation marks. -/
def all : List Punct :=
  [lbrace, rbrace, lbracket, rbracket, lparen, rparen, semicolon, comma, dot]

/-- The punctuation mark that is written `c`. -/
def ofChar? (c : Char) : Option Punct :=
  all.find? (·.char = c)

end Punct

/-- What a token is, with the payload that later stages read. -/
inductive TokenKind where
  /-- The end of the text. -/
  | eof
  | whitespace
  /-- A comment; the payload is its text, trimmed. -/
  | comment (text : String)
  /-- Characters that begin no token. -/
  | unknown
  | identifier (name : String)
  /-- A quoted text; the payload is what stands between the quotes. -/
  | stringLiteral (value : String)
  | keyword (k : Keyword)
  | builtIn (b : BuiltIn)
  /-- The mark `[optional]`, which is one token. -/
  | optionalMark
  | punct (p : Punct)
  deriving DecidableEq, Repr

namespace TokenKind

/-- Blanks and comments, which the grammar does not see. -/
def isTrivia : TokenKind → Bool
  | whitespace | comment _ => true
  | _ => false

/-- How messages call a token of this kind. -/
def describe : TokenKind → String
  | eof => "end of file"
  | whitespace => "whitespace"
  | comment _ => "comment"
  | unknown => "unrecognized character"
  | identifier name => s!"identifier `{name}`"
  | stringLiteral value => s!"string \"{value}\""
  | keyword k => s!"'{k.text}'"
  | builtIn b => s!"'{b.text}'"
  | optionalMark => "'[optional]'"
  | punct p => s!"'{p.char}'"

end TokenKind

/-- A token of a source text. -/
structure Token where
  kind : TokenKind
  lexeme : List Char
  /-- The position of the first character. -/
  pos : Position
  deriving DecidableEq, Repr

namespace Token

/-- The number of bytes of a token. -/
def size (t : Token) : Nat :=
  byteLength t.lexeme

/-- The offset of the byte after a token. -/
def stop (t : Token) : Nat :=
  t.pos.offset + t.size

/-- The bytes of a token. -/
def span (t : Token) : Span :=
  ⟨t.pos.offset, t.size⟩

/-- Whether the grammar does not see a token. -/
def isTrivia (t : Token) : Bool :=
  t.kind.isTrivia

end Token

end InterfaceLang
