import InterfaceLang.Diagnostic.Violation
import InterfaceLang.Walk

/-!
# Cycles of structs

A struct refers to its parent and to the structs that its fields must hold; an optional field may
be left out and does not count. The search walks these references depth first from every struct in
turn, keeps the names on the current path, and reports each reference back to a name on the path as
a cycle. A struct that has been walked is not walked again. Of several structs of one name the
first counts.
-/

namespace InterfaceLang

/-- The names that a struct cannot do without: its parent, then the leaves of required fields. -/
def Struct.required (s : Struct) : List String :=
  (if s.parent = "" then [] else [s.parent]) ++
    (s.fields.filter (!·.optional)).flatMap (·.type.names)

namespace Validation

/-- A reference to a name on the path of the search. -/
structure BackEdge where
  target : String
  /-- The path from the target to itself. -/
  cycle : List String
  /-- The position of the target's declaration. -/
  pos : Position
  deriving DecidableEq, Repr

/-- What a search has done: the names it is finished with and the back edges it met. -/
structure Search where
  visited : List String
  backEdges : List BackEdge

namespace Search

/-- Nothing done yet. -/
def start : Search :=
  ⟨[], []⟩

/-- Adds a back edge. -/
def report (st : Search) (e : BackEdge) : Search :=
  { st with backEdges := st.backEdges ++ [e] }

/-- Adds a name to those that the search is finished with. -/
def finish (st : Search) (name : String) : Search :=
  { st with visited := st.visited ++ [name] }

end Search

/-- The names of the structs of a model. -/
def structNames (m : Model) : List String :=
  m.structs.map (·.name)

theorem mem_structNames_of_findStruct? {m : Model} {name : String} {s : Struct}
    (h : m.findStruct? name = some s) : name ∈ structNames m := by
  have hname := List.find?_some h
  exact List.mem_map.2 ⟨s, List.mem_of_find?_eq_some h, by simpa using hname⟩

/-- The part of a path from `name` on, closed by `name`. -/
def closing (path : List String) (name : String) : List String :=
  path.dropWhile (· ≠ name) ++ [name]

mutual

/-- Walks from one name, which follows the names on the path. -/
def visit (m : Model) (path : List String) (name : String) (st : Search) : Search :=
  match _h : m.findStruct? name with
  | none => st
  | some s =>
    if _hp : name ∈ path then st.report ⟨name, closing path name, s.pos⟩
    else if name ∈ st.visited then st
    else (visitAll m (path ++ [name]) s.required st).finish name
termination_by (Walk.fresh (structNames m) path, 0)
decreasing_by
  exact Prod.Lex.left _ _ (Walk.fresh_concat_lt (mem_structNames_of_findStruct? _h) _hp)

/-- Walks from several names in turn. -/
def visitAll (m : Model) (path : List String) (names : List String) (st : Search) : Search :=
  match names with
  | [] => st
  | name :: rest => visitAll m path rest (visit m path name st)
termination_by (Walk.fresh (structNames m) path, names.length)
decreasing_by
  · exact Prod.Lex.right _ (by simp)
  · exact Prod.Lex.right _ (by simp)

end

/-- The search through all structs of a model. -/
def search (m : Model) : Search :=
  visitAll m [] (structNames m) .start

/-- The fault that a back edge shows. -/
def BackEdge.violation (e : BackEdge) : Violation :=
  .circularReference e.cycle e.pos

/-- The faults of the cycles of a model. -/
def checkCycles (m : Model) : List Violation :=
  (search m).backEdges.map BackEdge.violation

end Validation

end InterfaceLang
