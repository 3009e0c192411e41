import InterfaceLang.Document.Json
import InterfaceLang.Document.Yaml
import InterfaceLang.Imports.Resolve
import InterfaceLang.Model.Document
import InterfaceLang.Model.Groups
import InterfaceLang.Validation

/-!
# Analysis

To analyse a file is to resolve it and validate the model. The model is then available as a
document, in JSON or YAML.

Results:
* `analyze_eq_ok_iff`: analysis succeeds exactly if resolving does and the model has no fault.
-/

namespace InterfaceLang

/-- What an operation ends with, and what it reported. -/
structure Outcome (α : Type) where
  result : Except Failure α
  events : List Event

namespace Outcome

/-- The outcome of a resolution. -/
def ofResolution (r : Except Failure Model × Imports.Progress) : Outcome Model :=
  ⟨r.1, r.2.events⟩

/-- Validates a model that was found. -/
def validated (o : Outcome Model) : Outcome Model :=
  match o.result with
  | .error _ => o
  | .ok m => ⟨(validate m).map fun _ => m, o.events ++ Validation.events m⟩

end Outcome

/-- Resolves a file of the given name and text, without validating the model. -/
def resolveSource (disk : Disk) (baseDir : Option Path) (name text : String) : Outcome Model :=
  .ofResolution (Imports.resolve disk baseDir name text)

/-- Reads and resolves a file, without validating the model. -/
def resolveFile (disk : Disk) (baseDir : Option Path) (p : Path) : Outcome Model :=
  .ofResolution (Imports.resolvePath disk baseDir p)

/-- Analyses a file of the given name and text. -/
def analyze (disk : Disk) (name text : String) : Outcome Model :=
  (resolveSource disk none name text).validated

/-- Reads and analyses a file. -/
def analyzeFile (disk : Disk) (p : Path) : Outcome Model :=
  (resolveFile disk none p).validated

namespace Model

/-- The introspection document as JSON, one entry to a line. -/
def toJson (m : Model) : String :=
  Document.Json.pretty m.toDocument

/-- The introspection document as JSON on one line. -/
def toCompactJson (m : Model) : String :=
  Document.Json.compact m.toDocument

/-- The introspection document as YAML. -/
def toYaml (m : Model) : String :=
  Document.Yaml.write m.toDocument

end Model

theorem analyze_eq_ok_iff (disk : Disk) (name text : String) (m : Model) :
    (analyze disk name text).result = .ok m ↔
      (resolveSource disk none name text).result = .ok m ∧ Validation.violations m = [] := by
  rw [← validate_eq_ok_iff]
  unfold analyze Outcome.validated
  split
  · next e h => simp [h]
  · next m' h =>
    rw [h]
    cases hv : validate m' with
    | error e =>
      simp only [Except.map, reduceCtorEq, Except.ok.injEq, false_iff, not_and]
      rintro rfl
      simp [hv]
    | ok u =>
      simp only [Except.map, Except.ok.injEq]
      constructor
      · rintro rfl
        exact ⟨rfl, hv⟩
      · exact fun h => h.1

end InterfaceLang
