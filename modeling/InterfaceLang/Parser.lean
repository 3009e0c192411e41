import InterfaceLang.Diagnostic.SyntaxError
import InterfaceLang.Event
import InterfaceLang.Grammar.Productions
import InterfaceLang.Token.Lexer

/-!
# Parsing a source text

A parser is a source text with the tokens that are still to be read and the imports that are still
to be handed out. Making one rejects characters that begin no token, drops the trivia and lifts
the import directives out. Reading either gives the file and leaves nothing, or stops at a token;
a later attempt begins there.

Results:
* `pending_readRest_of_ok`: after a success no token and no import is left.
* `imports_readRest_of_error`: a failure keeps the imports.
-/

namespace InterfaceLang

/-- A source text in the course of being parsed. -/
structure Parser where
  source : SourceText
  /-- The tokens that are still to be read, without trivia and directives. -/
  pending : List Token
  /-- The imports that are still to be handed out. -/
  imports : List Directive
  /-- The directives that name a path again. -/
  repetitions : List Directive

namespace Parser

/-- The name of a source text that was given none. -/
def defaultName : String :=
  "source.pulse"

/-- The spot of a token. -/
def spotOf (source : SourceText) (t : Token) : Spot :=
  ⟨source, t.span, t.pos⟩

/-- The complaint about a token that begins no token of the language. -/
def invalidToken (source : SourceText) (t : Token) : SyntaxError :=
  .invalidToken (String.ofList t.lexeme) (spotOf source t)

/-- The tokens of a source text that the grammar reads, and the directives among them. -/
def significant (source : SourceText) : List Token :=
  (tokens source.name source.text).filter (!·.isTrivia)

/-- A parser at the beginning of a source text. -/
def ofSource (source : SourceText) : Except SyntaxError Parser :=
  match (tokens source.name source.text).find? (·.kind = .unknown) with
  | some t => .error (invalidToken source t)
  | none =>
    let e := Directive.extract (significant source)
    .ok ⟨source, e.kept, e.imports, e.repetitions⟩

/-- What lifting directives out of a file reports. -/
def repetitionEvents (file : String) (repetitions : List Directive) : List Event :=
  repetitions.map fun d => .repeatedImport file d.path

/-- What making a parser reports. -/
def events (p : Parser) : List Event :=
  repetitionEvents p.source.name p.repetitions

/-- The complaint of a reader that is stuck. -/
def complaint (source : SourceText) (e : Grammar.Stuck) : SyntaxError :=
  match e.rest with
  | [] => .unexpectedEnd e.expected (spotOf source (endMark source.name source.text))
  | t :: _ => .unexpectedToken t.kind e.expected (spotOf source t)

/-- Reads the file that is left. -/
def readRest (p : Parser) : Except SyntaxError SourceFile × Parser :=
  match Grammar.file p.pending with
  | .ok (elements, rest) =>
    (.ok ⟨p.source.name, p.imports, elements⟩, { p with pending := rest, imports := [] })
  | .error e => (.error (complaint p.source e), { p with pending := e.rest })

/-- Parses a whole source text. -/
def parse (source : SourceText) : Except SyntaxError SourceFile := do
  let p ← ofSource source
  p.readRest.1

theorem pending_readRest_of_ok {p : Parser} {f : SourceFile} (h : p.readRest.1 = .ok f) :
    p.readRest.2.pending = [] ∧ p.readRest.2.imports = [] := by
  unfold readRest at h ⊢
  split
  · next hok => exact ⟨Grammar.rest_eq_nil_of_file hok, rfl⟩
  · next herr =>
    rw [herr] at h
    cases h

theorem imports_readRest_of_error {p : Parser} {e : SyntaxError} (h : p.readRest.1 = .error e) :
    p.readRest.2.imports = p.imports ∧ p.readRest.2.pending <:+ p.pending := by
  unfold readRest at h ⊢
  split
  · next hok =>
    rw [hok] at h
    cases h
  · next herr => exact ⟨rfl, Grammar.reads_file.suffix_of_error herr⟩

end Parser

end InterfaceLang
