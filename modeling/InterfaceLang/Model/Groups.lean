import InterfaceLang.Model
import InterfaceLang.Name

/-!
# Declarations by namespace

A declaration belongs to the namespace it carries or, if it carries none, to the one that its name
begins with. The groups are listed in ascending order of their namespaces.

Results:
* `mem_namespaceKeys`: there is a group exactly for the namespaces that hold a declaration.
* `pairwise_namespaceKeys`: the namespaces ascend.
-/

namespace InterfaceLang

/-- The declarations of one namespace. -/
structure NamespaceGroup where
  ns : String
  structs : List Struct
  enums : List Enum
  interfaces : List Interface
  deriving DecidableEq, Repr

namespace Model

/-- The namespace of a declaration. -/
def namespaceOf (name ns : String) : String :=
  if ns = "" then Name.qualifier name else ns

/-- The namespaces of all declarations, in the order of the model. -/
def namespaceList (m : Model) : List String :=
  m.structs.map (fun s => namespaceOf s.name s.ns) ++
    m.enums.map (fun e => namespaceOf e.name e.ns) ++
    m.interfaces.map (fun i => namespaceOf i.name i.ns)

/-- The namespaces that hold a declaration, in ascending order. -/
def namespaceKeys (m : Model) : List String :=
  m.namespaceList.eraseDups.mergeSort fun a b => decide (a ≤ b)

/-- The declarations of a model that belong to a namespace, in the order of the model. -/
def group (m : Model) (ns : String) : NamespaceGroup where
  ns := ns
  structs := m.structs.filter fun s => namespaceOf s.name s.ns = ns
  enums := m.enums.filter fun e => namespaceOf e.name e.ns = ns
  interfaces := m.interfaces.filter fun i => namespaceOf i.name i.ns = ns

/-- The declarations of a model by namespace. -/
def groups (m : Model) : List NamespaceGroup :=
  m.namespaceKeys.map m.group

theorem mem_namespaceKeys {m : Model} {ns : String} :
    ns ∈ m.namespaceKeys ↔ ns ∈ m.namespaceList := by
  rw [namespaceKeys, List.mem_mergeSort, List.mem_eraseDups]

theorem pairwise_namespaceKeys (m : Model) : m.namespaceKeys.Pairwise (· ≤ ·) := by
  have h := @List.pairwise_mergeSort String (fun a b => decide (a ≤ b))
    (fun a b c hab hbc => by simpa using String.le_trans (by simpa using hab) (by simpa using hbc))
    (fun a b => by simpa using String.le_total a b) m.namespaceList.eraseDups
  exact h.imp (by simp)

end Model

end InterfaceLang
