import InterfaceLang.Diagnostic.Basic
import InterfaceLang.Grammar.Reader
import InterfaceLang.Text.Quoted

/-!
# Syntax errors
-/

namespace InterfaceLang

/-- Why a source text is not a file of the language. -/
inductive SyntaxError where
  /-- Characters that begin no token. -/
  | invalidToken (text : String) (spot : Spot)
  /-- A token where another one was needed. -/
  | unexpectedToken (found : TokenKind) (expected : Grammar.Expected) (spot : Spot)
  /-- The end of the text where a token was needed. -/
  | unexpectedEnd (expected : Grammar.Expected) (spot : Spot)
  deriving DecidableEq, Repr

namespace SyntaxError

/-- Where the error points. -/
def spot : SyntaxError → Spot
  | invalidToken _ s | unexpectedToken _ _ s | unexpectedEnd _ s => s

/-- The position that the message names. -/
def pos (e : SyntaxError) : Position :=
  e.spot.pos

/-- The message without its position. -/
def detail : SyntaxError → String
  | invalidToken text _ => s!"invalid token {Text.quote text}"
  | unexpectedToken found expected _ =>
    s!"unexpected {found.describe}, expected {expected.text}"
  | unexpectedEnd expected _ => s!"unexpected end of file, expected {expected.text}"

/-- The message: the position, then what is wrong there. -/
def message (e : SyntaxError) : String :=
  Record.lead e.pos ++ e.detail

/-- The identifier of the kind of error. -/
def code : SyntaxError → String
  | invalidToken .. => "syntax::invalid_token"
  | unexpectedToken .. => "syntax::unexpected_token"
  | unexpectedEnd .. => "syntax::unexpected_eof"

/-- Advice on the kind of error. -/
def help : SyntaxError → String
  | invalidToken .. =>
    "Identifiers must start with a letter. Only `//` comments, `[optional]`, quoted import paths " ++
      "and single-character punctuation are recognized."
  | unexpectedToken .. => "The parser found a token it did not expect in this position."
  | unexpectedEnd .. => "The file ended unexpectedly. Check for a missing closing brace or type."

/-- The remark on the span of the error. -/
def label : SyntaxError → Label
  | invalidToken _ s => ⟨s.span, "this does not start any token"⟩
  | unexpectedToken _ expected s => ⟨s.span, s!"expected {expected.text}, but found this"⟩
  | unexpectedEnd _ s => ⟨s.span, "file ended here"⟩

end SyntaxError

end InterfaceLang
