import InterfaceLang.Diagnostic.ImportError
import InterfaceLang.Model

/-!
# Violations of the rules on models
-/

namespace InterfaceLang

/-- One fault of a model. -/
inductive Violation where
  | missingNamespace (pos : Position)
  | invalidIdentifier (name : String) (pos : Position)
  /-- A type name that is already taken, with the kind and position of its first declaration. -/
  | duplicateTypeName (name : String) (previousKind : DeclKind) (previous pos : Position)
  | unknownType (name : String) (pos : Position)
  | extendsUnknownType (name parent : String) (pos : Position)
  /-- Structs that contain each other in a ring; the last name is the first again. -/
  | circularReference (cycle : List String) (pos : Position)
  deriving DecidableEq, Repr

namespace Violation

/-- Where the fault is. -/
def pos : Violation → Position
  | missingNamespace p | invalidIdentifier _ p | duplicateTypeName _ _ _ p | unknownType _ p
  | extendsUnknownType _ _ p | circularReference _ p => p

/-- The wording of a fault; it does not name the position. -/
def message : Violation → String
  | missingNamespace _ => "IDL file must declare a namespace at the top level"
  | invalidIdentifier name _ =>
    s!"invalid identifier: {name} " ++
      "(must start with a letter, followed by letters, numbers, or underscores)"
  | duplicateTypeName name kind previous _ =>
    s!"duplicate type name: {name} (previously defined as {kind.text} at " ++
      s!"{previous.line}:{previous.column})"
  | unknownType name _ => s!"unknown type: {name}"
  | extendsUnknownType name parent _ => s!"struct {name} extends unknown type {parent}"
  | circularReference cycle _ => s!"circular type reference detected: {cycleText cycle}"

/-- The identifier of the kind of fault. -/
def code : Violation → String
  | missingNamespace _ => "validation::missing_namespace"
  | invalidIdentifier .. => "validation::invalid_identifier"
  | duplicateTypeName .. => "validation::duplicate_type_name"
  | unknownType .. => "validation::unknown_type"
  | extendsUnknownType .. => "validation::extends_unknown_type"
  | circularReference .. => "validation::circular_reference"

/-- Advice, for the faults that have some. -/
def help? : Violation → Option String
  | missingNamespace _ => some "Add `namespace <name>` to the file."
  | circularReference .. => some "Mark one of the fields on the cycle `[optional]` to break it."
  | _ => none

/-- What is wrong with a model, in one line. -/
def summary : List Violation → String
  | [] => "validation errors"
  | [v] => Record.lead v.pos ++ v.message
  | v :: vs => s!"{vs.length + 1} validation errors (first: {Record.lead v.pos}{v.message})"

end Violation

end InterfaceLang
