import InterfaceLang.Diagnostic.Basic
import InterfaceLang.Disk.ReadFailure

/-!
# Import errors
-/

namespace InterfaceLang

/-- Why the text of a file is not to be had. -/
inductive LoadFailure where
  /-- The file cannot be read. -/
  | reading (cause : ReadFailure)
  /-- A relative name cannot be placed, because there is no working directory. -/
  | locating (cause : ReadFailure)
  deriving DecidableEq, Repr

/-- The wording of the reason. -/
def LoadFailure.message : LoadFailure → String
  | reading cause => cause.message
  | locating cause => s!"cannot determine the working directory: {cause.message}"

/-- Why a file and its imports do not make one model. -/
inductive ImportError where
  /-- A file, named `path` and looked for at `resolved`, is not to be had. -/
  | moduleNotFound (path resolved : String) (reason : LoadFailure) (spot : Spot)
  /-- Files that import each other in a ring; the last name is the first again. -/
  | circularImport (cycle : List String) (spot : Spot)
  /-- Two files that declare one namespace. -/
  | duplicateNamespace (ns first second : String) (spot : Spot)
  /-- A file that declares two namespaces. -/
  | multipleNamespaces (file : String) (spot : Spot)
  deriving DecidableEq, Repr

/-- The form in which a cycle is written. -/
def cycleText (cycle : List String) : String :=
  " -> ".intercalate cycle

namespace ImportError

/-- Where the error points. -/
def spot : ImportError → Spot
  | moduleNotFound _ _ _ s | circularImport _ s | duplicateNamespace _ _ _ s
  | multipleNamespaces _ s => s

/-- The position that the message names. -/
def pos (e : ImportError) : Position :=
  e.spot.pos

/-- The message without its position. -/
def detail : ImportError → String
  | moduleNotFound path resolved reason _ =>
    s!"failed to read import file {resolved} (resolved from {path}): {reason.message}"
  | circularImport cycle _ => s!"import cycle detected: {cycleText cycle}"
  | duplicateNamespace ns first second _ =>
    s!"duplicate namespace {ns}: already used in {first}, also used in {second}"
  | multipleNamespaces file _ => s!"multiple namespace declarations in file {file}"

/-- The message: the position, then what is wrong there. -/
def message (e : ImportError) : String :=
  Record.lead e.pos ++ e.detail

/-- The identifier of the kind of error. -/
def code : ImportError → String
  | moduleNotFound .. => "import::module_not_found"
  | circularImport .. => "import::circular_import"
  | duplicateNamespace .. => "import::duplicate_namespace"
  | multipleNamespaces .. => "import::multiple_namespaces"

/-- Advice on the kind of error. -/
def help : ImportError → String
  | moduleNotFound .. =>
    "Import paths are resolved relative to the directory of the importing file."
  | circularImport .. =>
    "Break the cycle by moving the shared declarations into a file that both can import."
  | duplicateNamespace .. =>
    "Each namespace may be declared by exactly one file in an import graph."
  | multipleNamespaces .. => "A file declares at most one namespace."

/-- The remark on the span of the error. -/
def label : ImportError → Label
  | moduleNotFound _ _ _ s | duplicateNamespace _ _ _ s => ⟨s.span, "imported here"⟩
  | circularImport _ s => ⟨s.span, "this import closes the cycle"⟩
  | multipleNamespaces _ s => ⟨s.span, "second namespace declaration"⟩

end ImportError

end InterfaceLang
