import InterfaceLang.Path

/-!
# Namespaces and files of a resolution

The registry knows which file owns each namespace and which files are in the model already. Files
are compared by the components of their paths.

Results:
* `owner?_claim_of_some`: a namespace keeps its owner.
-/

namespace InterfaceLang

/-- The owners of namespaces and the files included so far. -/
structure Registry where
  owners : List (String × Path)
  included : List Path
  deriving DecidableEq, Repr

namespace Registry

/-- Nothing owned, nothing included. -/
def empty : Registry :=
  ⟨[], []⟩

/-- The file that owns a namespace. -/
def owner? (r : Registry) (ns : String) : Option Path :=
  r.owners.lookup ns

/-- Whether a file is in the model already. -/
def includes (r : Registry) (p : Path) : Bool :=
  r.included.any (·.same p)

/-- Notes that a file is in the model. -/
def addFile (r : Registry) (p : Path) : Registry :=
  if r.includes p then r else { r with included := r.included ++ [p] }

/-- Makes a file the owner of a namespace, or gives the other file that owns it. -/
def claim (r : Registry) (ns : String) (p : Path) : Except Path Registry :=
  match r.owner? ns with
  | some first => if first.same p then .ok r else .error first
  | none => .ok { r with owners := r.owners ++ [(ns, p)] }

theorem owner?_claim_of_some {r r' : Registry} {ns other : String} {p q : Path}
    (h : r.claim ns p = .ok r') (howner : r.owner? other = some q) :
    r'.owner? other = some q := by
  unfold claim at h
  split at h
  · split at h <;> cases h
    exact howner
  · cases h
    simp [owner?, List.lookup_append] at howner ⊢
    simp [howner]

end Registry

end InterfaceLang
