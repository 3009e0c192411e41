/-!
# Walks without repetition

A depth-first walk that never steps on its own path ends, because the nodes that are not on the
path become fewer with every step.

Results:
* `fresh_concat_lt`: a step to a node that is not on the path leaves fewer fresh nodes.
-/

namespace InterfaceLang.Walk

variable {α : Type} [DecidableEq α]

/-- The number of nodes that are not on a path. -/
def fresh (nodes path : List α) : Nat :=
  (nodes.filter (· ∉ path)).length

theorem filter_not_mem_concat (nodes path : List α) (a : α) :
    nodes.filter (· ∉ path ++ [a]) = (nodes.filter (· ∉ path)).filter (· ≠ a) := by
  rw [List.filter_filter]
  apply List.filter_congr
  intro x _
  simp [Bool.and_comm]

theorem fresh_concat_lt {nodes path : List α} {a : α} (hnode : a ∈ nodes) (hpath : a ∉ path) :
    fresh nodes (path ++ [a]) < fresh nodes path := by
  rw [fresh, fresh, filter_not_mem_concat, List.length_filter_lt_length_iff_exists]
  exact ⟨a, by simp [hnode, hpath]⟩

end InterfaceLang.Walk
