import InterfaceLang.Diagnostic.SyntaxError
import InterfaceLang.Diagnostic.Violation

/-!
# Failures

What reading, resolving and validating a file can end with, as one type.

Results:
* `records_ofSyntax`, `records_ofImport`: a syntax or import error gives one record.
-/

namespace InterfaceLang

/-- Why there is no model: a syntax error, an import error, or faults of the model. -/
inductive Failure where
  | ofSyntax (e : SyntaxError)
  | ofImport (e : ImportError)
  | invalid (violations : List Violation)
  deriving DecidableEq, Repr

namespace Failure

/-- The message of a failure, in one line. -/
def message : Failure → String
  | ofSyntax e => e.message
  | ofImport e => e.message
  | invalid vs => Violation.summary vs

/-- The identifier of the kind of failure. -/
def code : Failure → String
  | ofSyntax e => e.code
  | ofImport e => e.code
  | invalid _ => "validation::failed"

/-- Advice, for the failures that have some. -/
def help? : Failure → Option String
  | ofSyntax e => some e.help
  | ofImport e => some e.help
  | invalid _ => none

/-- The remarks on spans of source text. -/
def labels : Failure → List Label
  | ofSyntax e => [e.label]
  | ofImport e => [e.label]
  | invalid _ => []

/-- The failure as a flat list of records. -/
def records : Failure → List Record
  | ofSyntax e => [.ofPosition e.pos e.message]
  | ofImport e => [.ofPosition e.pos e.message]
  | invalid vs => vs.map fun v => .ofPosition v.pos v.message

theorem records_ofSyntax (e : SyntaxError) :
    (ofSyntax e).records = [⟨e.pos.file, e.pos.line, e.pos.column, e.detail⟩] := by
  rw [records, SyntaxError.message, Record.ofPosition, Record.stripStart_append]

theorem records_ofImport (e : ImportError) :
    (ofImport e).records = [⟨e.pos.file, e.pos.line, e.pos.column, e.detail⟩] := by
  rw [records, ImportError.message, Record.ofPosition, Record.stripStart_append]

end Failure

end InterfaceLang
