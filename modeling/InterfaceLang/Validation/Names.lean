import InterfaceLang.Diagnostic.Violation
import InterfaceLang.Name

/-!
# Names of declarations and members

The declarations of a model are entered into a table in turn: interfaces, structs, enums. A name
whose last segment is no identifier is not entered, nor is a name that stands in the table already.

Results:
* `nodup_entered`: no name is entered twice.
* `mem_entered_iff`: the names entered are the names with an identifier as last segment.
-/

namespace InterfaceLang

/-- A type name and where it is declared. -/
structure Symbol where
  kind : DeclKind
  name : String
  pos : Position
  deriving DecidableEq, Repr

/-- Whether the last segment of a symbol's name is an identifier. -/
def Symbol.isValid (s : Symbol) : Bool :=
  Name.isIdentifier (Name.base s.name)

/-- The declarations of a model in the order in which they are entered. -/
def Model.symbols (m : Model) : List Symbol :=
  m.interfaces.map (fun i => ⟨.interface, i.name, i.pos⟩) ++
    m.structs.map (fun s => ⟨.struct, s.name, s.pos⟩) ++
    m.enums.map (fun e => ⟨.enum, e.name, e.pos⟩)

namespace Validation

/-- What entering symbols gives: those that were entered, and the faults of the others. -/
structure Registration where
  entered : List Symbol
  violations : List Violation

/-- Enters symbols in turn into a table. -/
def register (table : List Symbol) : List Symbol → Registration
  | [] => ⟨[], []⟩
  | s :: rest =>
    if s.isValid then
      match table.find? (·.name = s.name) with
      | some first =>
        let r := register table rest
        { r with violations := .duplicateTypeName s.name first.kind first.pos s.pos :: r.violations }
      | none =>
        let r := register (table ++ [s]) rest
        { r with entered := s :: r.entered }
    else
      let r := register table rest
      { r with violations := .invalidIdentifier (Name.base s.name) s.pos :: r.violations }

/-- The names of the members of a method: its own and those of its parameters. -/
def methodNames (m : Method) : List (String × Position) :=
  (m.name, m.pos) :: m.parameters.map fun p => (p.name, p.pos)

/-- The names of all members of a model. -/
def memberNames (m : Model) : List (String × Position) :=
  m.interfaces.flatMap (·.methods.flatMap methodNames) ++
    m.structs.flatMap (·.fields.map fun f => (f.name, f.pos)) ++
    m.enums.flatMap (·.values.map fun v => (v.name, v.pos))

/-- The fault of a member name that is no identifier. -/
def checkMember (member : String × Position) : Option Violation :=
  if Name.isIdentifier member.1 then none else some (.invalidIdentifier member.1 member.2)

/-- The faults of the member names of a model. -/
def checkMembers (m : Model) : List Violation :=
  (memberNames m).filterMap checkMember

theorem mem_names_of_find? {table : List Symbol} {name : String} {first : Symbol}
    (h : table.find? (·.name = name) = some first) : name ∈ table.map (·.name) := by
  have hname := List.find?_some h
  exact List.mem_map.2 ⟨first, List.mem_of_find?_eq_some h, by simpa using hname⟩

theorem not_mem_names_of_find? {table : List Symbol} {name : String}
    (h : table.find? (·.name = name) = none) : name ∉ table.map (·.name) := by
  simp only [List.find?_eq_none, decide_eq_true_eq] at h
  simpa using h

theorem mem_entered_iff (table symbols : List Symbol) (name : String) :
    name ∈ (register table symbols).entered.map (·.name) ↔
      name ∉ table.map (·.name) ∧ ∃ s ∈ symbols, s.isValid = true ∧ s.name = name := by
  fun_induction register table symbols with
  | case1 => simp
  | case2 table s rest hv first hf r ih =>
    have hmem := mem_names_of_find? hf
    simp only [r, ih]
    grind
  | case3 table s rest hv hf r ih =>
    have hnot := not_mem_names_of_find? hf
    simp only [List.map_cons, List.mem_cons, r, ih]
    grind
  | case4 table s rest hv r ih =>
    simp only [r, ih]
    grind

theorem nodup_entered (table symbols : List Symbol) :
    ((register table symbols).entered.map (·.name)).Nodup := by
  fun_induction register table symbols with
  | case1 => simp
  | case2 table s rest hv first hf r ih => exact ih
  | case3 table s rest hv hf r ih =>
    rw [List.map_cons, List.nodup_cons]
    refine ⟨fun h => ?_, ih⟩
    have := ((mem_entered_iff (table ++ [s]) rest s.name).1 h).1
    simp at this
  | case4 table s rest hv r ih => exact ih

end Validation

end InterfaceLang
