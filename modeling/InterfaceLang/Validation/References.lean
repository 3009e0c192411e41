import InterfaceLang.Validation.Names

/-!
# References to types

Every reference in a method or field, below any arrays and maps, and every parent of a struct must
be the name of a declaration. Each occurrence that is not is a fault of its own.

Results:
* `checkType_eq_leaf`: looking below the layers of a type one by one finds the fault of its leaf.
* `checkType_eq_nil_iff`: a type has no fault exactly if its leaf, if any, is known.
-/

namespace InterfaceLang.Validation

/-- The fault of a type: the name below its layers is not known. -/
def checkType (known : String → Bool) : TypeExpr → List Violation
  | .builtIn _ => []
  | .array element => checkType known element
  | .mapOf value => checkType known value
  | .named r => if known r.name then [] else [.unknownType r.name r.pos]

/-- The fault of a struct whose parent is not known. -/
def checkParent (known : String → Bool) (s : Struct) : List Violation :=
  if s.parent = "" ∨ known s.parent then [] else [.extendsUnknownType s.name s.parent s.pos]

/-- The faults of the types that a struct mentions, its parent first. -/
def checkStruct (known : String → Bool) (s : Struct) : List Violation :=
  checkParent known s ++ s.fields.flatMap fun f => checkType known f.type

/-- The faults of the types that an interface mentions. -/
def checkInterface (known : String → Bool) (i : Interface) : List Violation :=
  i.methods.flatMap fun m => m.types.flatMap (checkType known)

/-- The faults of all references in a model. -/
def checkReferences (known : String → Bool) (m : Model) : List Violation :=
  m.interfaces.flatMap (checkInterface known) ++ m.structs.flatMap (checkStruct known)

/-- The fault of a type is the one of its leaf. -/
theorem checkType_eq_leaf (known : String → Bool) (t : TypeExpr) :
    checkType known t = t.leaf.toList.flatMap fun r =>
      if known r.name then [] else [.unknownType r.name r.pos] := by
  induction t with
  | builtIn => rfl
  | array element ih => exact ih
  | mapOf value ih => exact ih
  | named r => simp [checkType, TypeExpr.leaf]

theorem mem_checkType_iff {known : String → Bool} {t : TypeExpr} {v : Violation} :
    v ∈ checkType known t ↔
      ∃ r, t.leaf = some r ∧ ¬known r.name = true ∧ v = .unknownType r.name r.pos := by
  rw [checkType_eq_leaf]
  simp

theorem checkType_eq_nil_iff (known : String → Bool) (t : TypeExpr) :
    checkType known t = [] ↔ ∀ r, t.leaf = some r → known r.name = true := by
  rw [checkType_eq_leaf]
  simp

end InterfaceLang.Validation
