import InterfaceLang.Proofs.Validation.Search
import InterfaceLang.Validation

/-!
# Which cycles of structs are reported

The search does not report every cycle of the struct graph, but it reports enough of them: each
cycle has a step with which some reported cycle ends. So without the steps that close reported
cycles nothing is circular, and without any cycle nothing is reported.

Results:
* `closed_walk_reported`: every closed walk holds a step with which a reported cycle ends.
* `checkCycles_eq_nil_iff`: no cycle is reported exactly if the struct graph has none.
-/

namespace InterfaceLang.Validation

variable {m : Model} {path : List String} {name u v : String} {st st' : Search}

/-- A cycle that ends with the step from `u` to `v` has been met. -/
def Search.Reports (st : Search) (u v : String) : Prop :=
  ∃ e ∈ st.backEdges, [u, v] <:+ e.cycle

/-- A step of the struct graph with which no cycle ends that has been met. -/
def Search.Unreported (m : Model) (st : Search) (u v : String) : Prop :=
  m.StructEdge u v ∧ ¬st.Reports u v

/-- From every name that the search is finished with, walks along unreported steps end. -/
def Search.Finished (m : Model) (st : Search) : Prop :=
  ∀ u ∈ st.visited, Acc (fun b a => st.Unreported m a b) u

/-- Validation reports a cycle that ends with the step from `u` to `v`. -/
def ClosingReported (m : Model) (u v : String) : Prop :=
  ∃ vs cycle pos, validate m = .error (.invalid vs) ∧
    Violation.circularReference cycle pos ∈ vs ∧ [u, v] <:+ cycle

/-! ## Enough cycles are reported -/

theorem closing_append_cons {before after : List String} (h : v ∉ before) :
    closing (before ++ v :: after) v = v :: after ++ [v] := by
  have hbefore : ∀ w ∈ before, decide (w ≠ v) = true := by
    intro w hw
    exact decide_eq_true fun heq => h (heq ▸ hw)
  rw [closing, List.dropWhile_append_of_pos hbefore, List.dropWhile_cons_of_neg (by simp)]

/-- A step from the end of a path back onto the path is the last step of the cycle it closes. -/
theorem suffix_closing (hlast : path.getLast? = some u) (hv : v ∈ path) :
    [u, v] <:+ closing path v := by
  obtain ⟨before, after, rfl, hnot⟩ := List.eq_append_cons_of_mem hv
  rw [List.getLast?_append_of_ne_nil _ (List.cons_ne_nil _ _)] at hlast
  obtain ⟨inner, hinner⟩ := List.getLast?_eq_some_iff.1 hlast
  rw [closing_append_cons hnot, hinner, List.append_assoc]
  exact List.suffix_append inner [u, v]

theorem Search.Reports.mono (h : st.Reports u v) (hback : st.backEdges ⊆ st'.backEdges) :
    st'.Reports u v := by
  obtain ⟨e, he, hsuffix⟩ := h
  exact ⟨e, hback he, hsuffix⟩

theorem Search.Finished.mono (h : st.Finished m) (hvisited : st'.visited = st.visited)
    (hback : st.backEdges ⊆ st'.backEdges) : st'.Finished m := by
  intro u hu
  rw [hvisited] at hu
  refine Subrelation.accessible ?_ (h u hu)
  intro b a hab
  exact ⟨hab.1, fun hreports => hab.2 (hreports.mono hback)⟩

theorem kept_finished (m : Model) : Kept m fun _ st => st.Finished m where
  enter := fun _ _ _ h _ _ _ _ => h
  report := fun _ _ _ _ h _ _ _ => h.mono rfl (List.subset_append_left _ _)
  leave := by
    intro path name st h hmet u hu
    rcases List.mem_append.1 hu with hu | hu
    · exact h u hu
    · rw [List.mem_singleton.1 hu]
      refine ⟨_, fun v hv => ?_⟩
      rcases hmet v hv.1 with hvisited | ⟨hpath, e, he, hcycle⟩
      · exact h v hvisited
      · -- the step closes a cycle that has been met, so it is not unreported
        have hsuffix := suffix_closing List.getLast?_concat hpath
        exact absurd ⟨e, he, hcycle ▸ hsuffix⟩ hv.2

/-- Along steps with which no reported cycle ends, nothing is circular. -/
theorem not_cycle_unreported (m : Model) (u : String) :
    ¬Relation.TransGen ((search m).Unreported m) u u := by
  have hstart : Search.start.Finished m := by
    intro u hu
    cases hu
  obtain ⟨hfinished, hall⟩ := search_walked (kept_finished m) hstart
  intro hcycle
  obtain ⟨w, _, hstep⟩ := Relation.TransGen.tail'_iff.1 hcycle
  exact Walk.not_cycle_of_acc (hfinished u (hall u hstep.1.2)) hcycle

theorem validate_eq_error {fault : Violation} (h : fault ∈ violations m) :
    validate m = .error (.invalid (violations m)) := by
  unfold validate
  split
  · next hnil =>
    rw [hnil] at h
    cases h
  · rfl

/-- Without structs there is no cycle, and the passes before the last find all faults. -/
theorem violations_of_no_structs (h : m.structs = []) :
    violations m = checkNamespace m ++ (registration m).violations ++ checkMembers m ++
      checkReferences (registration m).knows m := by
  have hcycles : checkCycles m = [] := by
    rw [checkCycles, search, structNames, h, List.map_nil, visitAll]
    rfl
  rw [violations, hcycles, List.append_nil]

theorem closingReported_of_reports (h : (search m).Reports u v) : ClosingReported m u v := by
  obtain ⟨e, he, hsuffix⟩ := h
  have hmem : e.violation ∈ violations m := by
    unfold violations checkCycles
    exact List.mem_append_right _ (List.mem_map_of_mem he)
  exact ⟨_, e.cycle, e.pos, validate_eq_error hmem, hmem, hsuffix⟩

/-- Every closed walk in the struct graph holds a step with which a reported cycle ends; without
the steps that close reported cycles, the struct graph has no cycle. -/
theorem closed_walk_reported (m : Model) :
    (∀ walk : List String, walk.IsChain m.StructEdge → 2 ≤ walk.length →
      walk.head? = walk.getLast? → ∃ u v, [u, v] <:+: walk ∧ ClosingReported m u v) ∧
    ∀ u, ¬Relation.TransGen (fun a b => m.StructEdge a b ∧ ¬ClosingReported m a b) u u := by
  constructor
  · intro walk hwalk hlen hclosed
    by_contra hnone
    have hopen : walk.IsChain ((search m).Unreported m) := by
      rw [List.isChain_iff_forall_rel_of_append_cons_cons] at hwalk ⊢
      intro u v before after heq
      refine ⟨hwalk heq, fun hreports => hnone ⟨u, v, ?_, closingReported_of_reports hreports⟩⟩
      exact ⟨before, after, by rw [heq, List.append_assoc]; rfl⟩
    match walk, hlen with
    | a :: b :: rest, _ =>
      exact not_cycle_unreported m a (Walk.cycle_of_closed hopen hclosed.symm)
  · intro u hcycle
    have hopen : ∀ a b, m.StructEdge a b ∧ ¬ClosingReported m a b →
        (search m).Unreported m a b :=
      fun a b hab => ⟨hab.1, fun hreports => hab.2 (closingReported_of_reports hreports)⟩
    exact not_cycle_unreported m u (hcycle.lift id hopen)

/-- Two structs that require each other, one through its parent and one through an array field. -/
theorem closed_walk_reported_of_pair :
    ∃ u v, [u, v] <:+: ["A", "B", "A"] ∧ ClosingReported
      ⟨"", "ns", [], [⟨"A", "ns", "B", [], "", ⟨"", 1, 1, 0⟩⟩,
        ⟨"B", "ns", "", [⟨"f", .array (.named ⟨"A", ⟨"", 2, 1, 0⟩⟩), false, "", ⟨"", 2, 1, 0⟩⟩], "",
          ⟨"", 2, 1, 0⟩⟩], []⟩ u v :=
  (closed_walk_reported _).1 ["A", "B", "A"] (by decide) (by decide) (by decide)

/-! ## Only cycles are reported -/

/-- The path is a chain of steps, and whatever has been reported lies on a cycle. -/
def Search.Grounded (m : Model) (path : List String) (st : Search) : Prop :=
  path.IsChain m.StructEdge ∧
    ∀ e ∈ st.backEdges, Relation.TransGen m.StructEdge e.target e.target

theorem kept_grounded (m : Model) : Kept m (Search.Grounded m) where
  enter := by
    intro path name st h hleads hstruct _ _
    refine ⟨Walk.isChain_concat h.1 fun u hu => ?_, h.2⟩
    exact hleads u hu name List.mem_cons_self hstruct
  report := by
    intro path name st s h hleads hs hpath
    refine ⟨h.1, fun e he => ?_⟩
    rcases List.mem_append.1 he with he | he
    · exact h.2 e he
    · rw [List.mem_singleton.1 he]
      have hlast := List.getLast?_eq_some_getLast (List.ne_nil_of_mem hpath)
      have hstep := hleads _ hlast name List.mem_cons_self (mem_structNames_of_findStruct? hs)
      exact Walk.cycle_of_mem h.1 hlast hstep hpath
  leave := fun _ _ _ h _ => ⟨h.1.left_of_append, h.2⟩

theorem checkCycles_eq_nil_iff (m : Model) :
    checkCycles m = [] ↔ ∀ u, ¬Relation.TransGen m.StructEdge u u := by
  rw [checkCycles, List.map_eq_nil_iff]
  constructor
  · intro hnone u hcycle
    have hopen : ∀ a b, m.StructEdge a b → (search m).Unreported m a b := by
      refine fun a b hab => ⟨hab, ?_⟩
      rintro ⟨e, he, _⟩
      rw [hnone] at he
      cases he
    exact not_cycle_unreported m u (hcycle.lift id hopen)
  · intro hacyclic
    have hstart : Search.Grounded m [] .start := by
      refine ⟨.nil, fun e he => ?_⟩
      cases he
    have hgrounded := (search_walked (kept_grounded m) hstart).1
    exact List.eq_nil_iff_forall_not_mem.2 fun e he => hacyclic e.target (hgrounded.2 e he)

end InterfaceLang.Validation
