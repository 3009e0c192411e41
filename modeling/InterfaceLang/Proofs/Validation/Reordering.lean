import InterfaceLang.Proofs.Validation.Renaming

/-!
# Order, positions and comments

Whether a model is accepted depends on its declarations, not on their order and not on where they
stand or how they are commented. The passes do walk the declarations in order, and of several
declarations of one name the first counts; but a model that declares a name twice is rejected in
any order, and in every other model the first declaration of a name is the only one.

Results:
* `validate_bare`: positions and comments do not matter.
* `validate_of_reordered`: the order does not matter.
-/

namespace InterfaceLang

/-! ## Without positions and comments -/

/-- A type without positions. -/
def TypeExpr.bare (t : TypeExpr) : TypeExpr :=
  t.mapRefs fun r => { r with pos := default }

/-- A field without positions and comments. -/
def Field.bare (f : Field) : Field :=
  { f with type := f.type.bare, comment := "", pos := default }

/-- A struct without positions and comments. -/
def Struct.bare (s : Struct) : Struct :=
  { s with fields := s.fields.map Field.bare, comment := "", pos := default }

/-- A parameter without positions. -/
def Parameter.bare (p : Parameter) : Parameter :=
  { p with type := p.type.bare, pos := default }

/-- A method without positions and comments. -/
def Method.bare (m : Method) : Method :=
  { m with
    parameters := m.parameters.map Parameter.bare
    returns := m.returns.map TypeExpr.bare
    comment := ""
    pos := default }

/-- An interface without positions and comments. -/
def Interface.bare (i : Interface) : Interface :=
  { i with methods := i.methods.map Method.bare, comment := "", pos := default }

/-- An enum value without its position and its comment. -/
def EnumValue.bare (v : EnumValue) : EnumValue :=
  { v with comment := "", pos := default }

/-- An enum without positions and comments. -/
def Enum.bare (e : Enum) : Enum :=
  { e with values := e.values.map EnumValue.bare, comment := "", pos := default }

/-- A model without positions and comments, and without the name of its file. -/
def Model.bare (m : Model) : Model where
  file := ""
  rootNs := m.rootNs
  interfaces := m.interfaces.map Interface.bare
  structs := m.structs.map Struct.bare
  enums := m.enums.map Enum.bare

/-- The same declarations in another order. -/
structure Model.Reordered (m m' : Model) : Prop where
  rootNs : m.rootNs = m'.rootNs
  structs : m.structs.Perm m'.structs
  enums : m.enums.Perm m'.enums
  interfaces : m.interfaces.Perm m'.interfaces

variable {m m' : Model}

/-! ## What each pass finds without positions and comments -/

theorem TypeExpr.leaf_bare (t : TypeExpr) :
    t.bare.leaf = t.leaf.map fun r => { r with pos := default } :=
  leaf_mapRefs _ t

theorem Method.types_bare (d : Method) : d.bare.types = d.types.map TypeExpr.bare := by
  unfold Method.types Method.bare
  cases d.returns <;> simp [Parameter.bare]

/-- A type without its positions refers to the same name. -/
theorem TypeExpr.forall_leaf_bare {t : TypeExpr} {P : String → Prop} :
    (∀ r, t.bare.leaf = some r → P r.name) ↔ ∀ r, t.leaf = some r → P r.name := by
  rw [leaf_bare]
  cases t.leaf <;> simp

theorem TypeExpr.names_bare (t : TypeExpr) : t.bare.names = t.names := by
  rw [names, leaf_bare, Option.map_map]
  rfl

theorem Struct.required_bare (s : Struct) : s.bare.required = s.required := by
  have hfields : (s.bare.fields.filter (!·.optional)).flatMap (·.type.names) =
      (s.fields.filter (!·.optional)).flatMap (·.type.names) := by
    simp [bare, Field.bare, List.filter_map, List.flatMap_map, TypeExpr.names_bare,
      Function.comp_def]
  unfold required
  rw [hfields]
  rfl

namespace Model

theorem declaredNames_bare (m : Model) : m.bare.declaredNames = m.declaredNames := by
  simp [declaredNames, bare, Struct.bare, Enum.bare, Interface.bare, Function.comp_def]

theorem types_bare (m : Model) : m.bare.types = m.types.map TypeExpr.bare := by
  simp [types, bare, Struct.bare, Interface.bare, Field.bare, List.flatMap_map, List.map_flatMap,
    Method.types_bare, Function.comp_def]

theorem findStruct?_bare (m : Model) (name : String) :
    m.bare.findStruct? name = (m.findStruct? name).map Struct.bare := by
  rw [findStruct?, findStruct?, bare, List.find?_map]
  rfl

theorem structEdge_bare {u v : String} : m.bare.StructEdge u v ↔ m.StructEdge u v := by
  have hnames : Validation.structNames m.bare = Validation.structNames m := by
    simp [Validation.structNames, bare, Struct.bare, Function.comp_def]
  unfold StructEdge
  simp only [hnames, findStruct?_bare, ← Struct.mem_required_iff, Option.map_eq_some_iff]
  refine and_congr_left fun _ => ⟨?_, ?_⟩
  · rintro ⟨_, ⟨s, hs, rfl⟩, hv⟩
    rw [Struct.required_bare] at hv
    exact ⟨s, hs, hv⟩
  · rintro ⟨s, hs, hv⟩
    rw [← Struct.required_bare] at hv
    exact ⟨s.bare, ⟨s, hs, rfl⟩, hv⟩

end Model

namespace Validation

theorem checkNamespace_bare (m : Model) : checkNamespace m.bare = [] ↔ checkNamespace m = [] := by
  simp [checkNamespace_eq_nil_iff, Model.bare]

theorem registration_bare (m : Model) :
    (registration m.bare).violations = [] ↔ (registration m).violations = [] := by
  rw [registration_eq_nil_iff, registration_eq_nil_iff, Model.declaredNames_bare]

theorem checkMembers_bare (m : Model) : checkMembers m.bare = [] ↔ checkMembers m = [] := by
  simp only [checkMembers_eq_nil_iff, Model.bare, Struct.bare, Enum.bare, Interface.bare,
    Method.bare, List.forall_mem_map, Field.bare, EnumValue.bare, Parameter.bare]

theorem checkReferences_bare (h : (registration m).violations = []) :
    checkReferences (registration m.bare).knows m.bare = [] ↔
      checkReferences (registration m).knows m = [] := by
  rw [checkReferences_knows_eq_nil_iff ((registration_bare m).2 h),
    checkReferences_knows_eq_nil_iff h, Model.declaredNames_bare, Model.types_bare]
  simp only [List.forall_mem_map, TypeExpr.forall_leaf_bare, Model.bare, Struct.bare]

theorem checkCycles_bare (m : Model) : checkCycles m.bare = [] ↔ checkCycles m = [] := by
  have hedge : m.bare.StructEdge = m.StructEdge := by
    funext u v
    exact propext Model.structEdge_bare
  rw [checkCycles_eq_nil_iff, checkCycles_eq_nil_iff, hedge]

end Validation

/-- Positions and comments do not matter for validation. -/
theorem validate_bare (m : Model) : validate m.bare = .ok () ↔ validate m = .ok () := by
  simp only [validate_eq_ok_iff, Validation.violations, List.append_eq_nil_iff, and_assoc]
  rw [Validation.checkNamespace_bare, Validation.registration_bare]
  refine and_congr_right fun _ => and_congr_right fun hnames => ?_
  rw [Validation.checkMembers_bare, Validation.checkReferences_bare hnames,
    Validation.checkCycles_bare]

/-! ## What each pass finds in another order -/

namespace Model.Reordered

theorem declaredNames (h : m.Reordered m') : m.declaredNames.Perm m'.declaredNames :=
  ((h.structs.map _).append (h.enums.map _)).append (h.interfaces.map _)

theorem types (h : m.Reordered m') : m.types.Perm m'.types :=
  (h.interfaces.flatMap_right _).append (h.structs.flatMap_right _)

/-- Where no name is declared twice, a step leads to the same structs in any order. -/
theorem structEdge (h : m.Reordered m') (hdistinct : m.declaredNames.Nodup) {u v : String}
    (hedge : m'.StructEdge u v) : m.StructEdge u v := by
  obtain ⟨⟨s, hs, hv⟩, hmem⟩ := hedge
  have hname : s.name = u := by simpa using List.find?_some hs
  have hstruct := h.structs.mem_iff.2 (List.mem_of_find?_eq_some hs)
  refine ⟨⟨s, ?_, hv⟩, (h.structs.map _).mem_iff.2 hmem⟩
  rw [← hname]
  exact findStruct?_of_mem hdistinct hstruct

end Model.Reordered

/-- The order of declarations does not matter for validation. -/
theorem validate_of_reordered (h : m.Reordered m') (hm : validate m = .ok ()) :
    validate m' = .ok () := by
  simp only [validate_eq_ok_iff, Validation.violations, List.append_eq_nil_iff] at hm ⊢
  obtain ⟨⟨⟨⟨hns, hnames⟩, hmembers⟩, hrefs⟩, hcycles⟩ := hm
  have hdistinct := (Validation.registration_eq_nil_iff.1 hnames).2
  have hnames' : (Validation.registration m').violations = [] := by
    rw [Validation.registration_eq_nil_iff] at hnames ⊢
    exact ⟨fun name hname => hnames.1 name (h.declaredNames.mem_iff.2 hname),
      h.declaredNames.nodup_iff.1 hnames.2⟩
  refine ⟨⟨⟨⟨?_, hnames'⟩, ?_⟩, ?_⟩, ?_⟩
  · rw [Validation.checkNamespace_eq_nil_iff] at hns ⊢
    rw [← h.rootNs]
    refine hns.imp_left fun hempty => ?_
    obtain ⟨hinterfaces, hstructs, henums⟩ := hempty
    exact ⟨(hinterfaces ▸ h.interfaces.symm).eq_nil, (hstructs ▸ h.structs.symm).eq_nil,
      (henums ▸ h.enums.symm).eq_nil⟩
  · rw [Validation.checkMembers_eq_nil_iff] at hmembers ⊢
    exact ⟨fun i hi => hmembers.1 i (h.interfaces.mem_iff.2 hi),
      fun s hs => hmembers.2.1 s (h.structs.mem_iff.2 hs),
      fun e he => hmembers.2.2 e (h.enums.mem_iff.2 he)⟩
  · rw [Validation.checkReferences_knows_eq_nil_iff hnames] at hrefs
    rw [Validation.checkReferences_knows_eq_nil_iff hnames']
    exact ⟨fun t ht r hr => h.declaredNames.mem_iff.1 (hrefs.1 t (h.types.mem_iff.2 ht) r hr),
      fun s hs hne => h.declaredNames.mem_iff.1 (hrefs.2 s (h.structs.mem_iff.2 hs) hne)⟩
  · rw [Validation.checkCycles_eq_nil_iff] at hcycles ⊢
    exact fun u hcycle => hcycles u (hcycle.lift id fun _ _ => h.structEdge hdistinct)

end InterfaceLang
