import InterfaceLang.Proofs.Validation.Cycles

/-!
# Reported cycles of structs

The path of the search is a chain of steps without repetition. A step back onto it closes a ring:
the part of the path from the name that is met again. This ring is what is reported, at the
place where the first struct of that name is declared.

A ring only needs what the search can walk along. Optional fields, enums, interfaces and references
to anything but a struct can be taken out of a model, and the same cycles are reported.

Results:
* `backEdge_ringed`: every back edge of a search closes a ring.
* `search_skeleton`: the search does not see what a model loses that is cut down to its skeleton.
* `circularReference_truthful`: a reported cycle is a simple cycle of the struct graph, and nothing
  but structs, parents and required fields decides which cycles are reported.
-/

namespace InterfaceLang

/-- Structs that require each other in a ring: each of them requires the next one, and the last one
requires the first. -/
structure Model.Ring (m : Model) (first : String) (rest : List String) : Prop where
  structs : ∀ name ∈ first :: rest, name ∈ Validation.structNames m
  distinct : (first :: rest).Nodup
  walk : (first :: rest ++ [first]).IsChain m.StructEdge

/-- A struct without its optional fields and without references to other names than the given
ones. -/
def Struct.skeleton (names : List String) (s : Struct) : Struct :=
  { s with
    parent := if s.parent ∈ names then s.parent else ""
    fields := s.fields.filter fun f => !f.optional && f.type.names.any (· ∈ names) }

/-- A model without enums, interfaces, optional fields and references to anything but its
structs. -/
def Model.skeleton (m : Model) : Model :=
  { m with
    interfaces := []
    structs := m.structs.map (·.skeleton (Validation.structNames m))
    enums := [] }

namespace Validation

variable {m : Model} {path : List String} {name : String} {st : Search}

/-- Validation reports a cycle through the given names, at the given position. -/
def CycleReported (m : Model) (cycle : List String) (pos : Position) : Prop :=
  ∃ vs, validate m = .error (.invalid vs) ∧ Violation.circularReference cycle pos ∈ vs

/-! ## Back edges close rings -/

/-- A back edge closes a ring that begins at its target, and stands where the target is declared. -/
def BackEdge.Ringed (m : Model) (e : BackEdge) : Prop :=
  ∃ rest s, m.Ring e.target rest ∧ e.cycle = e.target :: rest ++ [e.target] ∧
    m.findStruct? e.target = some s ∧ e.pos = s.pos

/-- The path is a chain of steps between different structs, and what has been met are rings. -/
structure Search.Ringed (m : Model) (path : List String) (st : Search) : Prop where
  structs : ∀ name ∈ path, name ∈ structNames m
  distinct : path.Nodup
  walk : path.IsChain m.StructEdge
  backEdges : ∀ e ∈ st.backEdges, e.Ringed m

/-- A step from the end of the path to a name on it closes a ring. -/
theorem Search.Ringed.closes {s : Struct} (h : st.Ringed m path) (hleads : Leads m path [name])
    (hs : m.findStruct? name = some s) (hpath : name ∈ path) :
    BackEdge.Ringed m ⟨name, closing path name, s.pos⟩ := by
  have hlast := List.getLast?_eq_some_getLast (List.ne_nil_of_mem hpath)
  have hstep := hleads _ hlast name List.mem_cons_self (mem_structNames_of_findStruct? hs)
  have hclosed : (path ++ [name]).IsChain m.StructEdge := by
    refine Walk.isChain_concat h.walk fun u hu => ?_
    rw [hlast] at hu
    exact Option.some.inj hu ▸ hstep
  -- the path is cut at the first place where the name stands
  obtain ⟨before, after, hsplit, hnot⟩ := List.eq_append_cons_of_mem hpath
  rw [hsplit, List.append_assoc] at hclosed
  refine ⟨after, s, ⟨fun u hu => ?_, ?_, hclosed.right_of_append⟩, ?_, hs, rfl⟩
  · exact h.structs u (hsplit ▸ List.mem_append_right _ hu)
  · exact (List.nodup_append.1 (hsplit ▸ h.distinct)).2.1
  · rw [hsplit, closing_append_cons hnot]

theorem kept_ringed (m : Model) : Kept m fun path st => st.Ringed m path where
  enter := by
    intro path name st h hleads hstruct hpath _
    refine ⟨?_, ?_, Walk.isChain_concat h.walk fun u hu => ?_, h.backEdges⟩
    · exact List.forall_mem_append.2 ⟨h.structs, List.forall_mem_singleton.2 hstruct⟩
    · simpa [List.nodup_append] using ⟨h.distinct, fun u hu heq => hpath (heq ▸ hu)⟩
    · exact hleads u hu name List.mem_cons_self hstruct
  report := by
    intro path name st s h hleads hs hpath
    refine ⟨h.structs, h.distinct, h.walk, ?_⟩
    exact List.forall_mem_append.2
      ⟨h.backEdges, List.forall_mem_singleton.2 (h.closes hleads hs hpath)⟩
  leave := by
    intro path name st h _
    exact ⟨fun u hu => h.structs u (List.mem_append_left _ hu), (List.nodup_append.1 h.distinct).1,
      h.walk.left_of_append, h.backEdges⟩

/-- Every back edge of a search closes a ring. -/
theorem backEdge_ringed (m : Model) : ∀ e ∈ (search m).backEdges, e.Ringed m := by
  have hstart : Search.start.Ringed m [] := by
    refine ⟨?_, .nil, .nil, ?_⟩
    · simp
    · simp [Search.start]
  exact (search_walked (kept_ringed m) hstart).1.backEdges

/-! ## Cycles among the faults of a model -/

theorem circularReference_not_mem_register {cycle : List String} {pos : Position}
    (table symbols : List Symbol) :
    .circularReference cycle pos ∉ (register table symbols).violations := by
  fun_induction register table symbols with
  | case1 => simp
  | case2 table s rest hvalid first hfirst r ih => simpa [r] using ih
  | case3 table s rest hvalid hnone r ih => simpa [r] using ih
  | case4 table s rest hvalid r ih => simpa [r] using ih

theorem circularReference_not_mem_checkReferences {cycle : List String} {pos : Position}
    (known : String → Bool) : .circularReference cycle pos ∉ checkReferences known m := by
  have hparent : ∀ s, .circularReference cycle pos ∉ checkParent known s := by
    intro s
    unfold checkParent
    split <;> simp
  simp [checkReferences, checkInterface, checkStruct, hparent, mem_checkType_iff]

/-- Only the search reports cycles. -/
theorem circularReference_mem_iff {cycle : List String} {pos : Position} :
    .circularReference cycle pos ∈ violations m ↔ .circularReference cycle pos ∈ checkCycles m := by
  have hnamespace : .circularReference cycle pos ∉ checkNamespace m := by
    unfold checkNamespace
    split <;> simp
  have hmembers : .circularReference cycle pos ∉ checkMembers m := by
    simp [checkMembers, checkMember]
  simp [violations, registration, hnamespace, hmembers, circularReference_not_mem_register,
    circularReference_not_mem_checkReferences]

theorem cycleReported_iff {cycle : List String} {pos : Position} :
    CycleReported m cycle pos ↔ ∃ e ∈ (search m).backEdges, e.cycle = cycle ∧ e.pos = pos := by
  have hsearch : .circularReference cycle pos ∈ checkCycles m ↔
      ∃ e ∈ (search m).backEdges, e.cycle = cycle ∧ e.pos = pos := by
    simp [checkCycles, BackEdge.violation]
  rw [← hsearch, ← circularReference_mem_iff]
  constructor
  · rintro ⟨vs, hvalidate, hmem⟩
    unfold validate at hvalidate
    split at hvalidate <;> cases hvalidate
    exact hmem
  · intro hmem
    exact ⟨_, validate_eq_error hmem, hmem⟩

/-! ## What cycles depend on -/

theorem structNames_skeleton (m : Model) : structNames m.skeleton = structNames m := by
  simp [structNames, Model.skeleton, Struct.skeleton, Function.comp_def]

theorem findStruct?_skeleton (m : Model) (name : String) :
    m.skeleton.findStruct? name =
      (m.findStruct? name).map (·.skeleton (structNames m)) := by
  rw [Model.findStruct?, Model.findStruct?, Model.skeleton, List.find?_map]
  rfl

theorem filter_names (names : List String) (t : TypeExpr) :
    t.names.filter (· ∈ names) = if t.names.any (· ∈ names) then t.names else [] := by
  unfold TypeExpr.names
  cases t.leaf with
  | none => simp
  | some r => by_cases hr : r.name ∈ names <;> simp [hr]

/-- The skeleton of a struct requires what the struct requires, other names left out. -/
theorem required_skeleton (names : List String) (s : Struct) :
    (s.skeleton names).required = s.required.filter (· ∈ names) := by
  have hparent : (if (s.skeleton names).parent = "" then [] else [(s.skeleton names).parent]) =
      (if s.parent = "" then [] else [s.parent]).filter (· ∈ names) := by
    by_cases hempty : s.parent = ""
    · simp [Struct.skeleton, hempty]
    · by_cases hmem : s.parent ∈ names <;> simp [Struct.skeleton, hempty, hmem]
  have hfields : ∀ fs : List Field,
      ((fs.filter fun f => !f.optional && f.type.names.any (· ∈ names)).filter
        (!·.optional)).flatMap (·.type.names) =
      ((fs.filter (!·.optional)).flatMap (·.type.names)).filter (· ∈ names) := by
    intro fs
    induction fs with
    | nil => rfl
    | cons f fs ih =>
      cases hopt : f.optional with
      | true => simpa [hopt] using ih
      | false =>
        have hkeep : ((f :: fs).filter (!·.optional)).flatMap (·.type.names) =
            f.type.names ++ (fs.filter (!·.optional)).flatMap (·.type.names) := by
          simp [hopt]
        rw [hkeep, List.filter_append, filter_names, ← ih]
        cases hany : f.type.names.any (· ∈ names) <;> simp [hopt, hany]
  unfold Struct.required
  rw [List.filter_append, ← hparent, ← hfields]
  rfl

/-- Names that are no structs can be left out of a walk. -/
theorem visitAll_filter (m : Model) (path names : List String) (st : Search) :
    visitAll m path (names.filter (· ∈ structNames m)) st = visitAll m path names st := by
  induction names generalizing st with
  | nil => rfl
  | cons name names ih =>
    by_cases hname : name ∈ structNames m
    · rw [List.filter_cons_of_pos (by simpa using hname), visitAll, visitAll, ih]
    · have hnone : m.findStruct? name = none :=
        Option.eq_none_iff_forall_ne_some.2 fun s hs => hname (mem_structNames_iff.2 ⟨s, hs⟩)
      rw [List.filter_cons_of_neg (by simpa using hname), visitAll, visit_of_none hnone, ih]

theorem visit_skeleton (m : Model) :
    (∀ path name st, visit m.skeleton path name st = visit m path name st) ∧
      ∀ path names st, visitAll m.skeleton path names st = visitAll m path names st := by
  refine visit.mutual_induct m _ _ ?_ ?_ ?_ ?_ ?_ ?_
  · intro path name st hnone
    rw [visit_of_none hnone, visit_of_none]
    rw [findStruct?_skeleton, hnone]
    rfl
  · intro path name st s hs hpath
    have hskeleton := (findStruct?_skeleton m name).trans (congrArg _ hs)
    rw [visit_of_some hs, visit_of_some hskeleton, if_pos hpath, if_pos hpath]
    rfl
  · intro path name st s hs hpath hvisited
    have hskeleton := (findStruct?_skeleton m name).trans (congrArg _ hs)
    rw [visit_of_some hs, visit_of_some hskeleton, if_neg hpath, if_neg hpath, if_pos hvisited,
      if_pos hvisited]
  · intro path name st s hs hpath hvisited ih
    have hskeleton := (findStruct?_skeleton m name).trans (congrArg _ hs)
    rw [visit_of_some hs, visit_of_some hskeleton, if_neg hpath, if_neg hpath, if_neg hvisited,
      if_neg hvisited, required_skeleton, ← structNames_skeleton m, visitAll_filter, ih]
  · intro path st
    rw [visitAll, visitAll]
  · intro path st name rest ih ihrest
    rw [visitAll, visitAll, ih, ihrest]

/-- The search does not see what a model loses that is cut down to its skeleton. -/
theorem search_skeleton (m : Model) : search m.skeleton = search m := by
  rw [search, search, structNames_skeleton, (visit_skeleton m).2]

/-- Every reported cycle is one: its names are different structs, the first struct of each name
extends the next one or has a field with it as its leaf that is not optional, and the cycle stands
where the first of them is declared. Without the optional fields, the enums, the interfaces and the
references to them, the same cycles are reported. -/
theorem circularReference_truthful (m : Model) :
    (∀ cycle pos, CycleReported m cycle pos → ∃ first rest s,
      m.Ring first rest ∧ cycle = first :: rest ++ [first] ∧
      cycleText cycle = " -> ".intercalate (first :: rest ++ [first]) ∧
      m.findStruct? first = some s ∧ pos = s.pos) ∧
    ∀ cycle pos, CycleReported m.skeleton cycle pos ↔ CycleReported m cycle pos := by
  constructor
  · intro cycle pos h
    obtain ⟨e, he, rfl, rfl⟩ := cycleReported_iff.1 h
    obtain ⟨rest, s, hring, hcycle, hs, hpos⟩ := backEdge_ringed m e he
    exact ⟨e.target, rest, s, hring, hcycle, by rw [hcycle, cycleText], hs, hpos⟩
  · intro cycle pos
    rw [cycleReported_iff, cycleReported_iff, search_skeleton]

/-- A struct that extends another one, which holds it in an array: a third struct, from which the
search comes to them, is not named. -/
theorem circularReference_truthful_of_entered_ring :
    ∃ m : Model,
      m.structs = [⟨"C", "ns", "A", [], "", ⟨"", 1, 1, 0⟩⟩, ⟨"A", "ns", "B", [], "", ⟨"", 2, 1, 9⟩⟩,
        ⟨"B", "ns", "", [⟨"f", .array (.named ⟨"A", ⟨"", 3, 6, 23⟩⟩), false, "", ⟨"", 3, 2, 19⟩⟩], "",
          ⟨"", 3, 1, 18⟩⟩] ∧
      CycleReported m ["A", "B", "A"] ⟨"", 2, 1, 9⟩ ∧
      CycleReported m.skeleton ["A", "B", "A"] ⟨"", 2, 1, 9⟩ ∧
      ∃ first rest, m.Ring first rest ∧ ["A", "B", "A"] = first :: rest ++ [first] := by
  have hsearch : (search ⟨"", "ns", [], [⟨"C", "ns", "A", [], "", ⟨"", 1, 1, 0⟩⟩,
      ⟨"A", "ns", "B", [], "", ⟨"", 2, 1, 9⟩⟩, ⟨"B", "ns", "", [⟨"f", .array (.named
        ⟨"A", ⟨"", 3, 6, 23⟩⟩), false, "", ⟨"", 3, 2, 19⟩⟩], "", ⟨"", 3, 1, 18⟩⟩], []⟩).backEdges =
      [⟨"A", ["A", "B", "A"], ⟨"", 2, 1, 9⟩⟩] := by
    cbv
  have hreported := cycleReported_iff.2 ⟨_, hsearch ▸ List.mem_cons_self, rfl, rfl⟩
  obtain ⟨hring, hskeleton⟩ := circularReference_truthful _
  obtain ⟨first, rest, _, hring, hcycle, _⟩ := hring _ _ hreported
  exact ⟨_, rfl, hreported, (hskeleton _ _).2 hreported, first, rest, hring, hcycle⟩

end Validation

end InterfaceLang
