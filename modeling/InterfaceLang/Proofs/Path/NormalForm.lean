import InterfaceLang.Path

/-!
# Paths in normal form

A path is in normal form if normalising does not change it. Files are told apart by the components
of their paths; between normal forms this is the same as telling their texts apart.

Results:
* `normalize_normalize`: what normalising gives is in normal form.
* `same_iff_eq`: two normal forms with the same components are equal.
-/

namespace InterfaceLang.Path

/-- A path that normalising leaves as it is. -/
def IsNormalForm (p : Path) : Prop :=
  p.normalize = p

theorem foldl_push_names (stack : List Component) (names : List String) :
    (names.map Component.name).foldl push stack = (names.map Component.name).reverse ++ stack := by
  induction names generalizing stack with
  | nil => rfl
  | cons s names ih =>
    rw [List.map_cons, List.foldl_cons, ih, List.reverse_cons, List.append_assoc]
    rfl

/-- Normal components hold nothing that a `..` could cancel. -/
theorem reduce_eq_self {cs : List Component} (h : IsNormal cs) : reduce cs = cs := by
  obtain ⟨lead, hlead, names, rfl⟩ := h
  have hpush : lead.foldl push [] = lead.reverse := by
    simp only [leads, List.mem_cons, List.not_mem_nil, or_false] at hlead
    rcases hlead with rfl | rfl | rfl | rfl <;> rfl
  rw [reduce, List.foldl_append, hpush, foldl_push_names]
  simp

theorem normalize_normalize (p : Path) : p.normalize.IsNormalForm := by
  have h := reduce_eq_self (isNormal_normalize p)
  rw [IsNormalForm, normalize, h, components_normalize]
  rfl

theorem isNormalForm_target (p : Path) (importPath : String) :
    (p.target importPath).IsNormalForm :=
  normalize_normalize _

theorem same_iff_eq {p q : Path} (hp : p.IsNormalForm) (hq : q.IsNormalForm) :
    p.same q = true ↔ p = q := by
  constructor
  · intro h
    have hcomp : p.components = q.components := by simpa [same] using h
    rw [← hp, ← hq, normalize, normalize, hcomp]
  · rintro rfl
    simp [same]

end InterfaceLang.Path
