import InterfaceLang.Event
import InterfaceLang.Name

/-!
# Qualifying and merging

To import a model is to put its own declarations under its namespace and add all its declarations
to the importing model. The own declarations are those that carry the namespace; references among
them follow. Declarations that were imported before carry another namespace and stay as they are.

Results:
* `qualify_eq_self_of_foreign`: a struct of another namespace is left alone.
-/

namespace InterfaceLang

namespace Model

/-- The names of the declarations that belong to a namespace. -/
def ownNames (m : Model) (ns : String) : List String :=
  (m.structs.filter (·.ns = ns)).map (·.name) ++ (m.enums.filter (·.ns = ns)).map (·.name) ++
    (m.interfaces.filter (·.ns = ns)).map (·.name)

end Model

/-- Puts `name` under the namespace if it is one of the given names. -/
def requalify (own : List String) (ns name : String) : String :=
  if name ∈ own then Name.qualify ns name else name

/-- Follows the own names of a namespace in a type. -/
def TypeExpr.requalify (own : List String) (ns : String) (t : TypeExpr) : TypeExpr :=
  t.mapRefs fun r => { r with name := InterfaceLang.requalify own ns r.name }

/-- Follows the own names of a namespace in a method. -/
def Method.requalify (own : List String) (ns : String) (m : Method) : Method :=
  { m with
    returns := m.returns.map (TypeExpr.requalify own ns)
    parameters := m.parameters.map fun p => { p with type := p.type.requalify own ns } }

/-- Puts a struct of the namespace under it. -/
def Struct.qualify (own : List String) (ns : String) (s : Struct) : Struct :=
  if s.ns = ns then
    { s with
      name := Name.qualify ns s.name
      parent := requalify own ns s.parent
      fields := s.fields.map fun f => { f with type := f.type.requalify own ns } }
  else s

/-- Puts an enum of the namespace under it. -/
def Enum.qualify (ns : String) (e : Enum) : Enum :=
  if e.ns = ns then { e with name := Name.qualify ns e.name } else e

/-- Puts an interface of the namespace under it. -/
def Interface.qualify (own : List String) (ns : String) (i : Interface) : Interface :=
  if i.ns = ns then
    { i with name := Name.qualify ns i.name, methods := i.methods.map (Method.requalify own ns) }
  else i

namespace Model

/-- Puts the declarations that belong to a namespace under it. -/
def qualify (m : Model) (ns : String) : Model :=
  let own := m.ownNames ns
  { m with
    structs := m.structs.map (Struct.qualify own ns)
    enums := m.enums.map (Enum.qualify ns)
    interfaces := m.interfaces.map (Interface.qualify own ns) }

/-- What qualifying reports. -/
def qualifyEvent (m : Model) (ns : String) : Event :=
  .qualifying (m.ownNames ns).eraseDups.length ns

/-- A model as another file sees it: under its namespace, if it has one. -/
def imported (m : Model) : Model :=
  if m.rootNs = "" then m else m.qualify m.rootNs

/-- Adds the declarations of an imported model. -/
def merge (m sub : Model) : Model :=
  { m with
    structs := m.structs ++ sub.imported.structs
    enums := m.enums ++ sub.imported.enums
    interfaces := m.interfaces ++ sub.imported.interfaces }

/-- What adding a model reports. -/
def mergeEvent (sub : Model) : Event :=
  if sub.rootNs = "" then .mergingFlat sub.file else sub.qualifyEvent sub.rootNs

end Model

theorem Struct.qualify_eq_self_of_foreign {own : List String} {ns : String} {s : Struct}
    (h : s.ns ≠ ns) : s.qualify own ns = s :=
  if_neg h

end InterfaceLang
