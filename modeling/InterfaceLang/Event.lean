import InterfaceLang.Diagnostic.Violation

/-!
# Events

What the stages report while they work, each with a level and a wording.
-/

namespace InterfaceLang

/-- How fine the news is. -/
inductive Level where
  | debug
  | trace
  deriving DecidableEq, Repr

/-- A piece of news. -/
inductive Event where
  /-- A directive of `file` names a path again. -/
  | repeatedImport (file path : String)
  /-- The file at `path` is being read. -/
  | resolving (path : String)
  /-- The file at `path` imports the one at `target`. -/
  | importing (path target : String)
  /-- The file at `path` imports one that is in the model already. -/
  | alreadyIncluded (path target : String)
  /-- A model without namespace is added to another one. -/
  | mergingFlat (file : String)
  /-- So many names are put under a namespace. -/
  | qualifying (count : Nat) (ns : String)
  /-- A type name is entered. -/
  | registered (kind : DeclKind) (name : String)
  /-- A reference closes a cycle of structs. -/
  | backEdge (name : String) (cycle : List String)
  /-- A model has been checked. -/
  | validated (file : String) (interfaces structs enums violations : Nat)
  deriving DecidableEq, Repr

namespace Event

/-- The level of an event. -/
def level : Event → Level
  | repeatedImport .. | registered .. | backEdge .. => .trace
  | _ => .debug

/-- The wording of an event. -/
def message : Event → String
  | repeatedImport file path => s!"{file}: duplicate import of {path} ignored"
  | resolving path => s!"resolving {path}"
  | importing path target => s!"{path} imports {target}"
  | alreadyIncluded path target => s!"{path}: {target} is already included, skipping"
  | mergingFlat file => s!"merging {file} without a namespace"
  | qualifying count ns => s!"qualifying {count} declarations with {ns}"
  | registered kind name => s!"registered {kind.text} {name}"
  | backEdge name cycle => s!"back edge to {name}: {cycleText cycle}"
  | validated file i s e n =>
    s!"validated {file}: {i} interfaces, {s} structs, {e} enums, {n} errors"

end Event

end InterfaceLang
