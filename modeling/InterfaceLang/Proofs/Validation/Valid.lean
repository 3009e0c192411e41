import InterfaceLang.Proofs.Imports.Contribution
import InterfaceLang.Proofs.Validation.Cycles

/-!
# Valid models

Validation collects faults in five passes, and the passes share a table of names that leaves out
what the first of them complains about. `Model.Valid` states what a valid model is without passes
and tables. Where the names are in order, the table holds them all, so that every pass finds no
fault exactly if its part of the statement holds.

Results:
* `register_eq_nil_iff`: names are entered without a fault exactly if they are all new, distinct and
  well formed.
* `validate_ok_iff_valid`: validation accepts exactly the valid models.
-/

namespace InterfaceLang

/-- What a model must be like to be accepted. -/
structure Model.Valid (m : Model) : Prop where
  /-- There is a namespace, unless nothing is declared. -/
  hasNamespace : (m.interfaces = [] ∧ m.structs = [] ∧ m.enums = []) ∨ m.rootNs ≠ ""
  declarations : ∀ name ∈ m.declaredNames, Name.isIdentifier (Name.base name) = true
  distinct : m.declaredNames.Nodup
  methods : ∀ i ∈ m.interfaces, ∀ f ∈ i.methods, Name.isIdentifier f.name = true ∧
    ∀ p ∈ f.parameters, Name.isIdentifier p.name = true
  fields : ∀ s ∈ m.structs, ∀ f ∈ s.fields, Name.isIdentifier f.name = true
  values : ∀ e ∈ m.enums, ∀ v ∈ e.values, Name.isIdentifier v.name = true
  /-- The leaf of every type that a method or a field mentions is declared. -/
  references : ∀ t ∈ m.types, ∀ r, t.leaf = some r → r.name ∈ m.declaredNames
  parents : ∀ s ∈ m.structs, s.parent ≠ "" → s.parent ∈ m.declaredNames
  acyclic : ∀ u, ¬Relation.TransGen m.StructEdge u u

namespace Validation

variable {m : Model}

/-! ## Names -/

theorem names_symbols_perm (m : Model) : (m.symbols.map (·.name)).Perm m.declaredNames := by
  have hsymbols : m.symbols.map (·.name) = m.interfaces.map (·.name) ++
      (m.structs.map (·.name) ++ m.enums.map (·.name)) := by
    simp [Model.symbols, Function.comp_def]
  rw [hsymbols]
  exact List.perm_append_comm

theorem checkNamespace_eq_nil_iff :
    checkNamespace m = [] ↔
      (m.interfaces = [] ∧ m.structs = [] ∧ m.enums = []) ∨ m.rootNs ≠ "" := by
  unfold checkNamespace Model.isEmpty
  split <;> simp_all [and_assoc]

theorem register_eq_nil_iff (table symbols : List Symbol) :
    (register table symbols).violations = [] ↔
      (∀ s ∈ symbols, s.isValid = true ∧ s.name ∉ table.map (·.name)) ∧
        (symbols.map (·.name)).Nodup := by
  fun_induction register table symbols with
  | case1 => simp
  | case2 table s rest _ first hfirst r _ =>
    constructor
    · intro hnil
      cases hnil
    · rintro ⟨hall, _⟩
      exact absurd (mem_names_of_find? hfirst) (hall s List.mem_cons_self).2
  | case3 table s rest hvalid hnone r ih =>
    have hnew := not_mem_names_of_find? hnone
    show r.violations = [] ↔ _
    have hnames : (s :: rest).map (·.name) = s.name :: rest.map (·.name) := rfl
    rw [ih, List.forall_mem_cons, List.map_append, hnames, List.nodup_cons]
    constructor
    · rintro ⟨hrest, hnodup⟩
      refine ⟨⟨⟨hvalid, hnew⟩, fun t ht => ⟨(hrest t ht).1, fun hmem => ?_⟩⟩, ?_, hnodup⟩
      · exact (hrest t ht).2 (List.mem_append_left _ hmem)
      · intro hmem
        obtain ⟨t, ht, heq⟩ := List.mem_map.1 hmem
        exact (hrest t ht).2 (by simp [heq])
    · rintro ⟨⟨_, hrest⟩, hnot, hnodup⟩
      refine ⟨fun t ht => ⟨(hrest t ht).1, fun hmem => ?_⟩, hnodup⟩
      rcases List.mem_append.1 hmem with hmem | hmem
      · exact (hrest t ht).2 hmem
      · rw [List.map_cons, List.map_nil, List.mem_singleton] at hmem
        exact hnot (hmem ▸ List.mem_map_of_mem ht)
  | case4 table s rest hvalid r _ =>
    constructor
    · intro hnil
      cases hnil
    · rintro ⟨hall, _⟩
      exact absurd (hall s List.mem_cons_self).1 hvalid

theorem registration_eq_nil_iff :
    (registration m).violations = [] ↔
      (∀ name ∈ m.declaredNames, Name.isIdentifier (Name.base name) = true) ∧
        m.declaredNames.Nodup := by
  have hperm := names_symbols_perm m
  rw [registration, register_eq_nil_iff, hperm.nodup_iff]
  simp [← hperm.mem_iff, Symbol.isValid]

theorem checkMembers_eq_nil_iff :
    checkMembers m = [] ↔
      (∀ i ∈ m.interfaces, ∀ f ∈ i.methods, Name.isIdentifier f.name = true ∧
        ∀ p ∈ f.parameters, Name.isIdentifier p.name = true) ∧
      (∀ s ∈ m.structs, ∀ f ∈ s.fields, Name.isIdentifier f.name = true) ∧
      ∀ e ∈ m.enums, ∀ v ∈ e.values, Name.isIdentifier v.name = true := by
  have hmember : ∀ member, checkMember member = none ↔ Name.isIdentifier member.1 = true := by
    intro member
    unfold checkMember
    split <;> simp_all
  rw [checkMembers, List.filterMap_eq_nil_iff]
  simp only [hmember, memberNames, methodNames, List.forall_mem_append, List.forall_mem_flatMap,
    List.forall_mem_cons, List.forall_mem_map, and_assoc]

/-! ## References -/

/-- Where all names are well formed, the table knows the names that are declared. -/
theorem knows_iff (h : ∀ name ∈ m.declaredNames, Name.isIdentifier (Name.base name) = true)
    (name : String) : (registration m).knows name = true ↔ name ∈ m.declaredNames := by
  have hknows : (registration m).knows name = true ↔
      name ∈ (registration m).entered.map (·.name) := by
    simp [Registration.knows]
  have hperm := names_symbols_perm m
  rw [hknows, registration, mem_entered_iff, ← hperm.mem_iff]
  constructor
  · rintro ⟨_, s, hs, _, rfl⟩
    exact List.mem_map_of_mem hs
  · intro hname
    obtain ⟨s, hs, rfl⟩ := List.mem_map.1 hname
    exact ⟨List.not_mem_nil, s, hs, h s.name (hperm.mem_iff.1 hname), rfl⟩

theorem checkParent_eq_nil_iff {known : String → Bool} {s : Struct} :
    checkParent known s = [] ↔ (s.parent ≠ "" → known s.parent = true) := by
  unfold checkParent
  by_cases h : s.parent = "" ∨ known s.parent = true
  · rw [if_pos h]
    exact iff_of_true rfl fun hne => h.resolve_left hne
  · rw [if_neg h]
    rw [not_or] at h
    exact iff_of_false (List.cons_ne_nil _ _) fun himp => h.2 (himp h.1)

theorem checkReferences_eq_nil_iff (known : String → Bool) :
    checkReferences known m = [] ↔
      (∀ t ∈ m.types, ∀ r, t.leaf = some r → known r.name = true) ∧
        ∀ s ∈ m.structs, s.parent ≠ "" → known s.parent = true := by
  simp only [checkReferences, checkInterface, checkStruct, List.append_eq_nil_iff,
    List.flatMap_eq_nil_iff, checkType_eq_nil_iff, checkParent_eq_nil_iff, Model.types,
    List.forall_mem_append, List.forall_mem_flatMap, List.forall_mem_map]
  constructor
  · rintro ⟨hmethods, hstructs⟩
    exact ⟨⟨hmethods, fun s hs => (hstructs s hs).2⟩, fun s hs => (hstructs s hs).1⟩
  · rintro ⟨⟨hmethods, hfields⟩, hparents⟩
    exact ⟨hmethods, fun s hs => ⟨hparents s hs, hfields s hs⟩⟩

/-- Where the names of declarations are in order, no reference is at fault exactly if all of them
are declared. -/
theorem checkReferences_knows_eq_nil_iff (h : (registration m).violations = []) :
    checkReferences (registration m).knows m = [] ↔
      (∀ t ∈ m.types, ∀ r, t.leaf = some r → r.name ∈ m.declaredNames) ∧
        ∀ s ∈ m.structs, s.parent ≠ "" → s.parent ∈ m.declaredNames := by
  simp only [checkReferences_eq_nil_iff, knows_iff (registration_eq_nil_iff.1 h).1]

end Validation

/-- Validation accepts a model exactly if it is valid. -/
theorem validate_ok_iff_valid (m : Model) : validate m = .ok () ↔ m.Valid := by
  rw [validate_eq_ok_iff]
  simp only [Validation.violations, List.append_eq_nil_iff, Validation.checkNamespace_eq_nil_iff,
    Validation.registration_eq_nil_iff, Validation.checkMembers_eq_nil_iff,
    Validation.checkReferences_eq_nil_iff, Validation.checkCycles_eq_nil_iff]
  constructor
  · rintro ⟨⟨⟨⟨hns, hdecl, hdistinct⟩, hmethods, hfields, hvalues⟩, hrefs, hparents⟩, hacyclic⟩
    have hknows := Validation.knows_iff hdecl
    exact ⟨hns, hdecl, hdistinct, hmethods, hfields, hvalues,
      fun t ht r hr => (hknows _).1 (hrefs t ht r hr),
      fun s hs hne => (hknows _).1 (hparents s hs hne), hacyclic⟩
  · intro h
    have hknows := Validation.knows_iff h.declarations
    exact ⟨⟨⟨⟨h.hasNamespace, h.declarations, h.distinct⟩, h.methods, h.fields, h.values⟩,
      fun t ht r hr => (hknows _).2 (h.references t ht r hr),
      fun s hs hne => (hknows _).2 (h.parents s hs hne)⟩, h.acyclic⟩

end InterfaceLang
