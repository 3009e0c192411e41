import Mathlib.Data.List.Chain
import Mathlib.Logic.Relation

/-!
# Chains and cycles

A depth-first walk keeps the nodes it came through as a chain of steps. A step from the last node of
a chain back onto the chain closes a cycle, and a node from which every walk ends lies on none.

Results:
* `cycle_of_mem`, `cycle_of_closed`: two ways in which a chain shows a cycle.
* `not_cycle_of_acc`, `not_cycle_of_reaches`: where every walk ends, there is no cycle, and none can
  be reached.
-/

namespace InterfaceLang.Walk

variable {α : Type} {r : α → α → Prop} {a b : α} {walk rest : List α}

theorem isChain_concat (hwalk : walk.IsChain r) (hstep : ∀ a, walk.getLast? = some a → r a b) :
    (walk ++ [b]).IsChain r := by
  refine hwalk.append (.singleton b) ?_
  intro a ha c hc
  cases hc
  exact hstep a ha

/-- A chain leads from its first node to its last. -/
theorem reaches_last (hwalk : (a :: rest).IsChain r) (hlast : (a :: rest).getLast? = some b) :
    Relation.ReflTransGen r a b := by
  rw [List.getLast?_eq_some_getLast (List.cons_ne_nil _ _)] at hlast
  exact List.relationReflTransGen_of_exists_isChain_cons rest hwalk (Option.some.inj hlast)

/-- From a node on a chain the chain leads on to its last node, so a step from there back to the
node closes a cycle. -/
theorem cycle_of_mem (hwalk : walk.IsChain r) (hlast : walk.getLast? = some a) (hstep : r a b)
    (hb : b ∈ walk) : Relation.TransGen r b b := by
  obtain ⟨before, after, rfl⟩ := List.append_of_mem hb
  rw [List.getLast?_append_of_ne_nil _ (List.cons_ne_nil _ _)] at hlast
  exact .tail' (reaches_last hwalk.right_of_append hlast) hstep

/-- A chain of at least one step that ends where it starts is a cycle. -/
theorem cycle_of_closed (hwalk : (a :: b :: rest).IsChain r)
    (hclosed : (b :: rest).getLast? = some a) : Relation.TransGen r a a := by
  rw [List.isChain_cons_cons] at hwalk
  exact .head' hwalk.1 (reaches_last hwalk.2 hclosed)

theorem not_cycle_of_acc (h : Acc (fun b a => r a b) a) : ¬Relation.TransGen r a a := by
  have htrans := h.transGen
  clear h
  induction htrans with
  | intro x _ ih =>
    -- against the steps, a node on a cycle lies below itself
    intro hcycle
    exact ih x (Relation.transGen_swap.2 hcycle) hcycle

/-- Where every walk ends, no cycle can be reached. -/
theorem not_cycle_of_reaches (h : Acc (fun b a => r a b) a)
    (hreach : Relation.ReflTransGen r a b) : ¬Relation.TransGen r b b := by
  have hb : Acc (fun b a => r a b) b := by
    induction hreach with
    | refl => exact h
    | tail _ hstep ih => exact ih.inv hstep
  exact not_cycle_of_acc hb

end InterfaceLang.Walk
