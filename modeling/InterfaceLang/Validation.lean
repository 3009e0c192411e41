import InterfaceLang.Diagnostic.Failure
import InterfaceLang.Event
import InterfaceLang.Validation.Cycles
import InterfaceLang.Validation.References

/-!
# Validation

A model is checked as a whole and every fault is listed: a missing namespace, then the names of
declarations, the names of members, the references, and the cycles of structs.

Results:
* `validate_eq_ok_iff`: validation succeeds exactly if no fault is listed.
-/

namespace InterfaceLang

namespace Validation

/-- The declarations of a model, entered into an empty table. -/
def registration (m : Model) : Registration :=
  register [] m.symbols

/-- Whether a name has been entered. -/
def Registration.knows (r : Registration) (name : String) : Bool :=
  r.entered.any (·.name = name)

/-- A model with declarations needs a namespace. -/
def checkNamespace (m : Model) : List Violation :=
  if m.isEmpty || m.rootNs ≠ "" then [] else [.missingNamespace (.start m.file)]

/-- All faults of a model. -/
def violations (m : Model) : List Violation :=
  let r := registration m
  checkNamespace m ++ r.violations ++ checkMembers m ++ checkReferences r.knows m ++ checkCycles m

/-- What validating a model reports. -/
def events (m : Model) : List Event :=
  (registration m).entered.map (fun s => .registered s.kind s.name) ++
    (search m).backEdges.map (fun e => .backEdge e.target e.cycle) ++
    [.validated m.file m.interfaces.length m.structs.length m.enums.length (violations m).length]

end Validation

/-- Checks a model. -/
def validate (m : Model) : Except Failure Unit :=
  match Validation.violations m with
  | [] => .ok ()
  | vs => .error (.invalid vs)

theorem validate_eq_ok_iff (m : Model) : validate m = .ok () ↔ Validation.violations m = [] := by
  unfold validate
  split
  · simp_all
  · simp_all

end InterfaceLang
