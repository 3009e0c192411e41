import InterfaceLang.Proofs.Validation.Valid
import Mathlib.Data.List.Nodup
import Mathlib.Data.Set.Function

/-!
# Renaming declarations

Renaming gives every declaration another name and lets all references follow. If it tells apart the
names that a model declares and keeps their last segments identifiers, then no pass of validation
finds a fault in the renamed model that it does not find in the model.

Results:
* `checkCycles_rename`: a cycle of renamed structs is the image of a cycle.
* `validate_rename`: renaming keeps an accepted model accepted.
-/

namespace InterfaceLang

/-! ## The renamed model -/

/-- A type, its reference renamed. -/
def TypeExpr.rename (f : String → String) (t : TypeExpr) : TypeExpr :=
  t.mapRefs fun r => { r with name := f r.name }

/-- A method, the references in its types renamed. -/
def Method.rename (f : String → String) (m : Method) : Method :=
  { m with
    returns := m.returns.map (TypeExpr.rename f)
    parameters := m.parameters.map fun p => { p with type := p.type.rename f } }

/-- A struct, its name and its references renamed. A struct without a parent stays so. -/
def Struct.rename (f : String → String) (s : Struct) : Struct :=
  { s with
    name := f s.name
    parent := if s.parent = "" then "" else f s.parent
    fields := s.fields.map fun d => { d with type := d.type.rename f } }

/-- An enum, its name renamed. -/
def Enum.rename (f : String → String) (e : Enum) : Enum :=
  { e with name := f e.name }

/-- An interface, its name and its references renamed. -/
def Interface.rename (f : String → String) (i : Interface) : Interface :=
  { i with
    name := f i.name
    methods := i.methods.map (Method.rename f) }

/-- A model, its declarations and all references renamed. -/
def Model.rename (f : String → String) (m : Model) : Model :=
  { m with
    structs := m.structs.map (Struct.rename f)
    enums := m.enums.map (Enum.rename f)
    interfaces := m.interfaces.map (Interface.rename f) }

variable {m : Model} {f : String → String}

theorem TypeExpr.leaf_rename (t : TypeExpr) :
    (t.rename f).leaf = t.leaf.map fun r => { r with name := f r.name } :=
  leaf_mapRefs _ t

/-- A reference that a renamed type makes is one that the type makes, renamed. -/
theorem TypeExpr.exists_leaf_of_rename {t : TypeExpr} {r : TypeRef}
    (h : (t.rename f).leaf = some r) : ∃ r', t.leaf = some r' ∧ r.name = f r'.name := by
  rw [leaf_rename, Option.map_eq_some_iff] at h
  obtain ⟨r', hleaf, rfl⟩ := h
  exact ⟨r', hleaf, rfl⟩

theorem Method.types_rename (d : Method) :
    (d.rename f).types = d.types.map (TypeExpr.rename f) := by
  unfold Method.types Method.rename
  cases d.returns <;> simp

namespace Model

theorem declaredNames_rename (f : String → String) (m : Model) :
    (m.rename f).declaredNames = m.declaredNames.map f := by
  simp [declaredNames, rename, Struct.rename, Enum.rename, Interface.rename, Function.comp_def]

theorem types_rename (f : String → String) (m : Model) :
    (m.rename f).types = m.types.map (TypeExpr.rename f) := by
  simp [types, rename, Struct.rename, Interface.rename, List.flatMap_map, List.map_flatMap,
    Method.types_rename, Function.comp_def]

theorem mem_types_of_field {s : Struct} {d : Field} (hs : s ∈ m.structs) (hd : d ∈ s.fields) :
    d.type ∈ m.types :=
  List.mem_append_right _ (List.mem_flatMap.2 ⟨s, hs, List.mem_map_of_mem hd⟩)

theorem mem_types_of_method {i : Interface} {d : Method} {t : TypeExpr} (hi : i ∈ m.interfaces)
    (hd : d ∈ i.methods) (ht : t ∈ d.types) : t ∈ m.types :=
  List.mem_append_left _ (List.mem_flatMap.2 ⟨i, hi, List.mem_flatMap.2 ⟨d, hd, ht⟩⟩)

theorem mem_declaredNames_of_struct {s : Struct} (hs : s ∈ m.structs) :
    s.name ∈ m.declaredNames :=
  List.mem_append_left _ (List.mem_append_left _ (List.mem_map_of_mem hs))

/-- If no name is declared twice, a struct is the first of its name. -/
theorem findStruct?_of_mem (hdistinct : m.declaredNames.Nodup) {s : Struct} (hs : s ∈ m.structs) :
    m.findStruct? s.name = some s := by
  obtain ⟨t, ht⟩ := Validation.mem_structNames_iff.1 (List.mem_map_of_mem hs)
  have hname : t.name = s.name := by simpa using List.find?_some ht
  have hstructs : (m.structs.map (·.name)).Nodup := hdistinct.of_append_left.of_append_left
  rw [ht, List.inj_on_of_nodup_map hstructs (List.mem_of_find?_eq_some ht) hs hname]

end Model

/-! ## What stays as it is

A renaming changes nothing in a declaration if it leaves alone the name and every name that is
referred to. -/

theorem map_eq_self {α : Type} {g : α → α} {l : List α} (h : ∀ a ∈ l, g a = a) : l.map g = l := by
  rw [List.map_congr_left h, List.map_id']

theorem TypeExpr.rename_eq_self {t : TypeExpr} (h : ∀ r, t.leaf = some r → f r.name = r.name) :
    t.rename f = t := by
  induction t with
  | builtIn => rfl
  | array e ih => exact congrArg TypeExpr.array (ih h)
  | mapOf v ih => exact congrArg TypeExpr.mapOf (ih h)
  | named r =>
    show TypeExpr.named { r with name := f r.name } = _
    rw [h r rfl]

theorem Method.rename_eq_self {d : Method}
    (h : ∀ t ∈ d.types, ∀ r, t.leaf = some r → f r.name = r.name) : d.rename f = d := by
  have hreturns : d.returns.map (TypeExpr.rename f) = d.returns := by
    cases hd : d.returns with
    | none => rfl
    | some t => exact congrArg some (TypeExpr.rename_eq_self (h t (by simp [types, hd])))
  have hparameters : d.parameters.map (fun p => { p with type := p.type.rename f }) =
      d.parameters := by
    refine map_eq_self fun p hp => ?_
    rw [TypeExpr.rename_eq_self (h p.type (List.mem_append_right _ (List.mem_map_of_mem hp)))]
  unfold Method.rename
  rw [hreturns, hparameters]

theorem Struct.rename_eq_self {s : Struct} (hname : f s.name = s.name)
    (hparent : f s.parent = s.parent)
    (htypes : ∀ d ∈ s.fields, ∀ r, d.type.leaf = some r → f r.name = r.name) : s.rename f = s := by
  have hfields : s.fields.map (fun d => { d with type := d.type.rename f }) = s.fields := by
    refine map_eq_self fun d hd => ?_
    rw [TypeExpr.rename_eq_self (htypes d hd)]
  have hempty : (if s.parent = "" then "" else s.parent) = s.parent := by
    split
    · next h => exact h.symm
    · rfl
  unfold Struct.rename
  rw [hname, hparent, hempty, hfields]

theorem Interface.rename_eq_self {i : Interface} (hname : f i.name = i.name)
    (htypes : ∀ d ∈ i.methods, ∀ t ∈ d.types, ∀ r, t.leaf = some r → f r.name = r.name) :
    i.rename f = i := by
  have hmethods : i.methods.map (Method.rename f) = i.methods :=
    map_eq_self fun d hd => Method.rename_eq_self (htypes d hd)
  unfold Interface.rename
  rw [hname, hmethods]

/-! ## What each pass finds -/

namespace Validation

theorem checkNamespace_rename (m : Model) :
    checkNamespace (m.rename f) = [] ↔ checkNamespace m = [] := by
  simp [checkNamespace_eq_nil_iff, Model.rename]

theorem memberNames_rename (m : Model) : memberNames (m.rename f) = memberNames m := by
  have hmethod : ∀ d : Method, methodNames (d.rename f) = methodNames d := by
    simp [methodNames, Method.rename]
  simp [memberNames, hmethod, Model.rename, Struct.rename, Enum.rename, Interface.rename,
    List.flatMap_map, Function.comp_def]

theorem registration_rename (hinj : Set.InjOn f {name | name ∈ m.declaredNames})
    (hbase : ∀ name ∈ m.declaredNames, Name.isIdentifier (Name.base (f name)) = true)
    (h : (registration m).violations = []) : (registration (m.rename f)).violations = [] := by
  rw [registration_eq_nil_iff] at h ⊢
  rw [Model.declaredNames_rename]
  exact ⟨List.forall_mem_map.2 hbase, h.2.map_on hinj⟩

theorem checkReferences_rename (hnames : (registration m).violations = [])
    (hnames' : (registration (m.rename f)).violations = [])
    (h : checkReferences (registration m).knows m = []) :
    checkReferences (registration (m.rename f)).knows (m.rename f) = [] := by
  obtain ⟨htypes, hparents⟩ := (checkReferences_knows_eq_nil_iff hnames).1 h
  rw [checkReferences_knows_eq_nil_iff hnames', Model.declaredNames_rename, Model.types_rename]
  refine ⟨List.forall_mem_map.2 fun t ht r hr => ?_, List.forall_mem_map.2 fun s hs hne => ?_⟩
  · obtain ⟨r', hleaf, hname⟩ := TypeExpr.exists_leaf_of_rename hr
    rw [hname]
    exact List.mem_map_of_mem (htypes t ht r' hleaf)
  · have hparent : s.parent ≠ "" := fun hempty => hne (if_pos hempty)
    have heq : (s.rename f).parent = f s.parent := if_neg hparent
    rw [heq]
    exact List.mem_map_of_mem (hparents s hs hparent)

/-- A struct requires what its renamed form requires under the new name, if its references are
among the names that the renaming tells apart. -/
theorem requires_of_rename (hinj : Set.InjOn f {name | name ∈ m.declaredNames})
    (htypes : ∀ t ∈ m.types, ∀ r, t.leaf = some r → r.name ∈ m.declaredNames)
    (hparents : ∀ s ∈ m.structs, s.parent ≠ "" → s.parent ∈ m.declaredNames)
    {s : Struct} (hs : s ∈ m.structs) {v : String} (hv : v ∈ m.declaredNames)
    (h : (s.rename f).Requires (f v)) : s.Requires v := by
  rcases h with ⟨hne, heq⟩ | ⟨d', hd', hoptional, r, hr, hname⟩
  · have hparent : s.parent ≠ "" := fun hempty => hne (if_pos hempty)
    have hrename : (s.rename f).parent = f s.parent := if_neg hparent
    rw [hrename] at heq
    exact .inl ⟨hparent, hinj (hparents s hs hparent) hv heq⟩
  · obtain ⟨d, hd, rfl⟩ := List.mem_map.1 hd'
    obtain ⟨r', hleaf, hname'⟩ := TypeExpr.exists_leaf_of_rename hr
    have hdeclared := htypes d.type (Model.mem_types_of_field hs hd) r' hleaf
    exact .inr ⟨d, hd, hoptional, r', hleaf, hinj hdeclared hv (hname'.symm.trans hname)⟩

theorem checkCycles_rename (hinj : Set.InjOn f {name | name ∈ m.declaredNames})
    (hnames : (registration m).violations = [])
    (hrefs : checkReferences (registration m).knows m = []) (h : checkCycles m = []) :
    checkCycles (m.rename f) = [] := by
  obtain ⟨_, hdistinct⟩ := registration_eq_nil_iff.1 hnames
  obtain ⟨htypes, hparents⟩ := (checkReferences_knows_eq_nil_iff hnames).1 hrefs
  rw [checkCycles_eq_nil_iff] at h ⊢
  have hinv := hinj.leftInvOn_invFunOn
  -- going back along the renaming takes a step to a step
  have hback : ∀ u v, (m.rename f).StructEdge u v →
      m.StructEdge (Function.invFunOn f {name | name ∈ m.declaredNames} u)
        (Function.invFunOn f {name | name ∈ m.declaredNames} v) := by
    rintro u v ⟨⟨s', hs', hreq⟩, hv⟩
    have hu : s'.name = u := by simpa using List.find?_some hs'
    obtain ⟨s, hs, rfl⟩ := List.mem_map.1 (List.mem_of_find?_eq_some hs')
    obtain ⟨t', ht', rfl⟩ := List.mem_map.1 hv
    obtain ⟨t, ht, rfl⟩ := List.mem_map.1 ht'
    have hs'' := Model.mem_declaredNames_of_struct hs
    have ht'' := Model.mem_declaredNames_of_struct ht
    have hreq' := requires_of_rename hinj htypes hparents hs ht'' hreq
    rw [← hu]
    show m.StructEdge (Function.invFunOn f _ (f s.name)) (Function.invFunOn f _ (f t.name))
    rw [hinv hs'', hinv ht'']
    exact ⟨⟨s, Model.findStruct?_of_mem hdistinct hs, hreq'⟩, List.mem_map_of_mem ht⟩
  intro u hcycle
  exact h _ (hcycle.lift _ hback)

end Validation

/-- A renaming that tells the declared names apart and keeps their last segments identifiers keeps
an accepted model accepted. -/
theorem validate_rename (hinj : Set.InjOn f {name | name ∈ m.declaredNames})
    (hbase : ∀ name ∈ m.declaredNames, Name.isIdentifier (Name.base (f name)) = true)
    (h : validate m = .ok ()) : validate (m.rename f) = .ok () := by
  rw [validate_eq_ok_iff] at h ⊢
  simp only [Validation.violations, List.append_eq_nil_iff] at h ⊢
  obtain ⟨⟨⟨⟨hns, hnames⟩, hmembers⟩, hrefs⟩, hcycles⟩ := h
  have hnames' := Validation.registration_rename hinj hbase hnames
  refine ⟨⟨⟨⟨(Validation.checkNamespace_rename m).2 hns, hnames'⟩, ?_⟩,
    Validation.checkReferences_rename hnames hnames' hrefs⟩,
    Validation.checkCycles_rename hinj hnames hrefs hcycles⟩
  rw [Validation.checkMembers, Validation.memberNames_rename]
  exact hmembers

end InterfaceLang
