import InterfaceLang.Proofs.Walk
import InterfaceLang.Validation.Cycles

/-!
# The search through the struct graph

The nodes are the names of structs. A step leads from a name to each struct that the first struct
of the name requires, through its parent or through the leaf of a field that is not optional.

While the search runs, it enters a name, reports a step back onto its path, or leaves a name whose
steps it has all dealt with. What each of the three keeps, a whole search keeps.

Results:
* `Struct.mem_required_iff`: the names that a struct requires.
* `search_walked`: what entering, reporting and leaving keep holds at the end of a search, and the
  search is finished with every struct.
-/

namespace InterfaceLang

/-- A struct cannot do without `name`: it is the parent, or a field that is not optional has it as
its leaf. -/
def Struct.Requires (s : Struct) (name : String) : Prop :=
  (s.parent ≠ "" ∧ s.parent = name) ∨
    ∃ f ∈ s.fields, f.optional = false ∧ ∃ r, f.type.leaf = some r ∧ r.name = name

theorem Struct.mem_required_iff {s : Struct} {name : String} :
    name ∈ s.required ↔ s.Requires name := by
  have hparent : name ∈ (if s.parent = "" then [] else [s.parent]) ↔
      s.parent ≠ "" ∧ s.parent = name := by
    by_cases hempty : s.parent = ""
    · simp [hempty]
    · rw [if_neg hempty, List.mem_singleton, eq_comm]
      exact (and_iff_right hempty).symm
  have hfield : ∀ f : Field, name ∈ f.type.names ↔ ∃ r, f.type.leaf = some r ∧ r.name = name := by
    simp [TypeExpr.names]
  unfold required Requires
  rw [List.mem_append, hparent, List.mem_flatMap]
  simp [hfield, and_assoc]

namespace Validation

theorem mem_structNames_iff {m : Model} {name : String} :
    name ∈ structNames m ↔ ∃ s, m.findStruct? name = some s := by
  constructor
  · intro h
    obtain ⟨s, hs, hname⟩ := List.mem_map.1 h
    rw [← Option.isSome_iff_exists, Model.findStruct?, List.find?_isSome]
    exact ⟨s, hs, by simpa using hname⟩
  · rintro ⟨s, hs⟩
    exact mem_structNames_of_findStruct? hs

end Validation

/-- `v` names a struct, and the first struct of the name `u` cannot do without it. -/
def Model.StructEdge (m : Model) (u v : String) : Prop :=
  (∃ s, m.findStruct? u = some s ∧ s.Requires v) ∧ v ∈ Validation.structNames m

instance (m : Model) (u v : String) : Decidable (m.StructEdge u v) :=
  decidable_of_iff
    ((m.findStruct? u).any (fun s => v ∈ s.required) = true ∧ v ∈ Validation.structNames m) <| by
      unfold Model.StructEdge
      simp only [Option.any_eq_true, decide_eq_true_eq, Struct.mem_required_iff]

namespace Validation

variable {m : Model} {path names : List String} {name u v : String} {st st' st'' : Search}

/-! ## What the search does -/

theorem visit_of_none (h : m.findStruct? name = none) : visit m path name st = st := by
  rw [visit]
  split <;> simp_all

theorem visit_of_some {s : Struct} (h : m.findStruct? name = some s) :
    visit m path name st =
      if name ∈ path then st.report ⟨name, closing path name, s.pos⟩
      else if name ∈ st.visited then st
      else (visitAll m (path ++ [name]) s.required st).finish name := by
  rw [visit]
  split
  · simp_all
  · next s' hs' =>
    rw [h] at hs'
    cases hs'
    rfl

/-- The search has dealt with a step from the end of the path to `v`: it is finished with `v`, or
`v` is on the path and the cycle has been reported. -/
def Search.Met (st : Search) (path : List String) (v : String) : Prop :=
  v ∈ st.visited ∨ v ∈ path ∧ ∃ e ∈ st.backEdges, e.cycle = closing path v

/-- Steps lead from the end of the path to those of the names that are structs. -/
def Leads (m : Model) (path names : List String) : Prop :=
  ∀ u, path.getLast? = some u → ∀ v ∈ names, v ∈ structNames m → m.StructEdge u v

/-- What holds of a path and a search is kept when a name is entered, a cycle is reported, or a name
is left. -/
structure Kept (m : Model) (Inv : List String → Search → Prop) : Prop where
  enter : ∀ path name st, Inv path st → Leads m path [name] → name ∈ structNames m →
    name ∉ path → name ∉ st.visited → Inv (path ++ [name]) st
  report : ∀ path name st s, Inv path st → Leads m path [name] → m.findStruct? name = some s →
    name ∈ path → Inv path (st.report ⟨name, closing path name, s.pos⟩)
  leave : ∀ path name st, Inv (path ++ [name]) st →
    (∀ v, m.StructEdge name v → st.Met (path ++ [name]) v) → Inv path (st.finish name)

/-- What walking from some names at the end of a path comes to. -/
structure Walked (m : Model) (Inv : List String → Search → Prop) (path names : List String)
    (st st' : Search) : Prop where
  inv : Inv path st'
  visited : st.visited ⊆ st'.visited
  backEdges : st.backEdges ⊆ st'.backEdges
  met : ∀ v ∈ names, v ∈ structNames m → st'.Met path v

theorem Search.Met.mono (h : st.Met path v) (hvisited : st.visited ⊆ st'.visited)
    (hback : st.backEdges ⊆ st'.backEdges) : st'.Met path v := by
  rcases h with h | ⟨hpath, e, he, hcycle⟩
  · exact .inl (hvisited h)
  · exact .inr ⟨hpath, e, hback he, hcycle⟩

theorem Leads.mono {names' : List String} (h : Leads m path names) (hsub : names' ⊆ names) :
    Leads m path names' :=
  fun u hu v hv => h u hu v (hsub hv)

theorem Leads.required {s : Struct} (hs : m.findStruct? name = some s) :
    Leads m (path ++ [name]) s.required := by
  intro u hu v hv hstruct
  rw [List.getLast?_concat] at hu
  cases hu
  exact ⟨⟨s, hs, Struct.mem_required_iff.1 hv⟩, hstruct⟩

namespace Walked

variable {Inv : List String → Search → Prop}

theorem refl (hinv : Inv path st) (hmet : ∀ v ∈ names, v ∈ structNames m → st.Met path v) :
    Walked m Inv path names st st :=
  ⟨hinv, List.Subset.refl _, List.Subset.refl _, hmet⟩

theorem cons (h : Walked m Inv path [name] st st') (h' : Walked m Inv path names st' st'') :
    Walked m Inv path (name :: names) st st'' where
  inv := h'.inv
  visited := List.Subset.trans h.visited h'.visited
  backEdges := List.Subset.trans h.backEdges h'.backEdges
  met := by
    intro v hv hstruct
    rcases List.mem_cons.1 hv with rfl | hv
    · exact (h.met v List.mem_cons_self hstruct).mono h'.visited h'.backEdges
    · exact h'.met v hv hstruct

theorem report {s : Struct} (hinv : Kept m Inv) (h : Inv path st) (hleads : Leads m path [name])
    (hs : m.findStruct? name = some s) (hpath : name ∈ path) :
    Walked m Inv path [name] st (st.report ⟨name, closing path name, s.pos⟩) where
  inv := hinv.report path name st s h hleads hs hpath
  visited := List.Subset.refl _
  backEdges := List.subset_append_left _ _
  met := by
    intro v hv _
    rw [List.mem_singleton.1 hv]
    exact .inr ⟨hpath, _, List.mem_append_right _ List.mem_cons_self, rfl⟩

/-- A name is left when the search has walked from everything its struct requires. -/
theorem leave {s : Struct} (hinv : Kept m Inv) (hs : m.findStruct? name = some s)
    (h : Walked m Inv (path ++ [name]) s.required st st') :
    Walked m Inv path [name] st (st'.finish name) where
  inv := by
    refine hinv.leave path name st' h.inv fun v hv => ?_
    obtain ⟨⟨s', hs', hreq⟩, hstruct⟩ := hv
    rw [hs] at hs'
    cases hs'
    exact h.met v (Struct.mem_required_iff.2 hreq) hstruct
  visited := fun u hu => List.mem_append_left _ (h.visited hu)
  backEdges := h.backEdges
  met := by
    intro v hv _
    rw [List.mem_singleton.1 hv]
    exact .inl (List.mem_append_right _ List.mem_cons_self)

end Walked

/-- Walking keeps what entering, reporting and leaving keep. -/
theorem visit_walked {Inv : List String → Search → Prop} (hinv : Kept m Inv) :
    (∀ path name st, Leads m path [name] → Inv path st →
      Walked m Inv path [name] st (visit m path name st)) ∧
    ∀ path names st, Leads m path names → Inv path st →
      Walked m Inv path names st (visitAll m path names st) := by
  refine visit.mutual_induct m _ _ ?_ ?_ ?_ ?_ ?_ ?_
  · intro path name st hnone _ h
    rw [visit_of_none hnone]
    refine .refl h fun v hv hstruct => ?_
    obtain ⟨s, hs⟩ := mem_structNames_iff.1 hstruct
    rw [List.mem_singleton.1 hv, hnone] at hs
    cases hs
  · intro path name st s hs hpath hleads h
    rw [visit_of_some hs, if_pos hpath]
    exact .report hinv h hleads hs hpath
  · intro path name st s hs hpath hvisited _ h
    rw [visit_of_some hs, if_neg hpath, if_pos hvisited]
    refine .refl h fun v hv _ => ?_
    rw [List.mem_singleton.1 hv]
    exact .inl hvisited
  · intro path name st s hs hpath hvisited ih hleads h
    rw [visit_of_some hs, if_neg hpath, if_neg hvisited]
    have hstruct := mem_structNames_of_findStruct? hs
    have henter := hinv.enter path name st h hleads hstruct hpath hvisited
    exact .leave hinv hs (ih (.required hs) henter)
  · intro path st _ h
    rw [visitAll]
    exact .refl h (by simp)
  · intro path st name rest ih ihrest hleads h
    rw [visitAll]
    have hfirst := ih (hleads.mono (by simp)) h
    exact hfirst.cons (ihrest (hleads.mono (List.subset_cons_self _ _)) hfirst.inv)

/-- What entering, reporting and leaving keep holds at the end of the search through a model, and
the search is finished with every struct. -/
theorem search_walked {Inv : List String → Search → Prop} (hinv : Kept m Inv)
    (hstart : Inv [] .start) :
    Inv [] (search m) ∧ ∀ name ∈ structNames m, name ∈ (search m).visited := by
  have hleads : Leads m [] (structNames m) := by
    intro u hu
    cases hu
  have h := (visit_walked hinv).2 [] (structNames m) .start hleads hstart
  refine ⟨h.inv, fun name hname => ?_⟩
  rcases h.met name hname hname with hvisited | ⟨hpath, _⟩
  · exact hvisited
  · cases hpath

end Validation

end InterfaceLang
