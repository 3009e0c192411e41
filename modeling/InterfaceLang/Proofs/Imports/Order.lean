import InterfaceLang.Analysis
import InterfaceLang.Proofs.Imports.Grouping
import InterfaceLang.Proofs.Validation.Reordering

/-!
# The order of imports

The order of imports decides in which order files are met, which of the imports of a file includes
another file that both need, and where the declarations of a file come in the model. None of this
matters for the outcome. Whether a root can be resolved depends on the import graph, and what a file
contributes depends on the file alone, so that the models for two orders have the same declarations
in another order; and validation does not see the order.

All this is said of two file systems that agree: at every path both have the same elements,
positions and comments aside, and import the same paths, or neither has a file that parses. What
their errors are is left open.

Results:
* `SourceFile.bare_toModel`: without positions and comments, a model is determined by its file
  without positions.
* `Graph.Agrees.resolvable`: of two graphs that agree, both are resolvable or neither is.
* `Graph.Agrees.reordered`: two graphs that agree are resolved to the same declarations.
* `analyze_of_interchangeable`: file systems that agree are analysed alike.
-/

namespace InterfaceLang

/-! ## Trees without positions -/

/-- A name without its position. -/
def Ident.bare (i : Ident) : Ident :=
  { i with pos := default }

/-- A namespace declaration without positions. -/
def NamespaceDecl.bare (d : NamespaceDecl) : NamespaceDecl :=
  ⟨d.name.bare, default⟩

/-- A declared parameter without positions. -/
def ParamDecl.bare (d : ParamDecl) : ParamDecl :=
  ⟨d.name.bare, d.type.bare⟩

/-- A declared method without positions. -/
def MethodDecl.bare (d : MethodDecl) : MethodDecl :=
  ⟨d.name.bare, d.params.map ParamDecl.bare, d.returns.bare, d.optional⟩

/-- A declared interface without positions. -/
def InterfaceDecl.bare (d : InterfaceDecl) : InterfaceDecl :=
  ⟨d.name.bare, d.methods.map MethodDecl.bare, default, 0⟩

/-- A declared field without positions. -/
def FieldDecl.bare (d : FieldDecl) : FieldDecl :=
  ⟨d.name.bare, d.type.bare, d.optional⟩

/-- A declared struct without positions. -/
def StructDecl.bare (d : StructDecl) : StructDecl :=
  ⟨d.name.bare, d.parent.map Ident.bare, d.fields.map FieldDecl.bare, default, 0⟩

/-- A declared enum without positions. -/
def EnumDecl.bare (d : EnumDecl) : EnumDecl :=
  ⟨d.name.bare, d.values.map Ident.bare, default, 0⟩

/-- An element without positions. -/
def Element.bare : Element → Element
  | namespaceDecl d => namespaceDecl d.bare
  | interfaceDecl d => interfaceDecl d.bare
  | structDecl d => structDecl d.bare
  | enumDecl d => enumDecl d.bare

/-- A file without positions and comments, and without its imports. -/
def SourceFile.bare (f : SourceFile) : SourceFile :=
  ⟨"", [], f.elements.map Element.bare⟩

section Lowering

variable {f f' : SourceFile} {text text' : String} {lines lines' : Model.Lines} {floor : Nat}
  {ns : String} {m m' : Model}

theorem TypeExpr.mapRefs_mapRefs (f h : TypeRef → TypeRef) (t : TypeExpr) :
    (t.mapRefs f).mapRefs h = t.mapRefs (h ∘ f) := by
  induction t with
  | builtIn => rfl
  | array e ih => exact congrArg array ih
  | mapOf v ih => exact congrArg mapOf ih
  | named => rfl

theorem TypeExpr.bare_bare (t : TypeExpr) : t.bare.bare = t.bare :=
  mapRefs_mapRefs _ _ t

theorem Model.bare_ofMethod (d : MethodDecl) :
    (ofMethod lines floor d).bare = (ofMethod lines' 0 d.bare).bare := by
  simp [ofMethod, Method.bare, MethodDecl.bare, ofParam, Parameter.bare, ParamDecl.bare, Ident.bare,
    TypeExpr.bare_bare, Function.comp_def]

theorem Model.bare_ofInterface (d : InterfaceDecl) :
    (ofInterface lines ns d).bare = (ofInterface lines' ns d.bare).bare := by
  have hmethods : d.methods.map (fun x => (ofMethod lines d.bodyLine x).bare) =
      d.methods.map fun x => (ofMethod lines' 0 x.bare).bare :=
    List.map_congr_left fun x _ => bare_ofMethod x
  simp [ofInterface, Interface.bare, InterfaceDecl.bare, Ident.bare, Function.comp_def, hmethods]

theorem Model.bare_ofField (d : FieldDecl) :
    (ofField lines floor d).bare = (ofField lines' 0 d.bare).bare := by
  simp [ofField, Field.bare, FieldDecl.bare, Ident.bare, TypeExpr.bare_bare]

theorem Model.bare_ofStruct (d : StructDecl) :
    (ofStruct lines ns d).bare = (ofStruct lines' ns d.bare).bare := by
  have hfields : d.fields.map (fun x => (ofField lines d.bodyLine x).bare) =
      d.fields.map fun x => (ofField lines' 0 x.bare).bare :=
    List.map_congr_left fun x _ => bare_ofField x
  simp [ofStruct, Struct.bare, StructDecl.bare, Ident.bare, Function.comp_def, hfields]

theorem Model.bare_ofEnum (d : EnumDecl) :
    (ofEnum lines ns d).bare = (ofEnum lines' ns d.bare).bare := by
  simp [ofEnum, Enum.bare, EnumDecl.bare, Ident.bare, EnumValue.bare, ofEnumValue,
    Function.comp_def]

/-- The elements of one kind in a file without positions. -/
theorem SourceFile.filterMap_bare {α : Type} {pick : Element → Option α} {strip : α → α}
    (h : ∀ e : Element, pick e.bare = (pick e).map strip) (f : SourceFile) :
    f.bare.elements.filterMap pick = (f.elements.filterMap pick).map strip := by
  simp only [SourceFile.bare, List.filterMap_map, List.map_filterMap]
  exact List.filterMap_congr fun e _ => h e

theorem SourceFile.namespaces_bare (f : SourceFile) :
    f.bare.namespaces = f.namespaces.map NamespaceDecl.bare :=
  f.filterMap_bare fun e => by cases e <;> rfl

theorem SourceFile.namespaceDecl?_bare {d : Option NamespaceDecl}
    (h : f.namespaceDecl? text = .ok d) :
    f.bare.namespaceDecl? "" = .ok (d.map NamespaceDecl.bare) := by
  unfold namespaceDecl? at h ⊢
  rw [namespaces_bare]
  match hf : f.namespaces with
  | [] =>
    rw [hf] at h
    cases h
    rfl
  | [e] =>
    rw [hf] at h
    cases h
    rfl
  | e :: e' :: es =>
    rw [hf] at h
    cases h

/-- The model of a file, without positions and comments, is determined by the file without
positions. -/
theorem SourceFile.bare_toModel (h : f.toModel text = .ok m) :
    ∃ m₀, f.bare.toModel "" = .ok m₀ ∧ m.bare = m₀.bare := by
  unfold toModel at h ⊢
  cases hd : f.namespaceDecl? text with
  | error e =>
    rw [hd] at h
    cases h
  | ok d =>
    rw [hd] at h
    cases h
    rw [namespaceDecl?_bare hd]
    refine ⟨_, rfl, ?_⟩
    have hns : ((d.map NamespaceDecl.bare).map (·.name.name)).getD "" =
        (d.map (·.name.name)).getD "" := by
      cases d <;> rfl
    have hstructs : f.bare.elements.filterMap Element.struct? =
        (f.elements.filterMap Element.struct?).map StructDecl.bare :=
      f.filterMap_bare fun e => by cases e <;> rfl
    have henums : f.bare.elements.filterMap Element.enum? =
        (f.elements.filterMap Element.enum?).map EnumDecl.bare :=
      f.filterMap_bare fun e => by cases e <;> rfl
    have hinterfaces : f.bare.elements.filterMap Element.interface? =
        (f.elements.filterMap Element.interface?).map InterfaceDecl.bare :=
      f.filterMap_bare fun e => by cases e <;> rfl
    simp only [Model.bare, hns, hstructs, henums, hinterfaces, List.map_map]
    congr 1
    · exact List.map_congr_left fun d _ => Model.bare_ofInterface d
    · exact List.map_congr_left fun d _ => Model.bare_ofStruct d
    · exact List.map_congr_left fun d _ => Model.bare_ofEnum d

/-- Files that are alike up to positions and comments have models that are so. -/
theorem SourceFile.bare_eq_of_toModel (hf : f.bare = f'.bare) (h : f.toModel text = .ok m)
    (h' : f'.toModel text' = .ok m') : m.bare = m'.bare := by
  obtain ⟨m₀, hm₀, hbare⟩ := bare_toModel h
  obtain ⟨m₀', hm₀', hbare'⟩ := bare_toModel h'
  rw [hf, hm₀'] at hm₀
  cases hm₀
  rw [hbare, hbare']

end Lowering

section Under

variable {names : List String} {ns : String}

theorem TypeExpr.bare_under (t : TypeExpr) : (t.under names ns).bare = t.bare.under names ns := by
  induction t with
  | builtIn => rfl
  | array element ih => exact congrArg array ih
  | mapOf value ih => exact congrArg mapOf ih
  | named => rfl

theorem Struct.bare_under (s : Struct) : (s.under names ns).bare = s.bare.under names ns := by
  have hfields : (s.fields.map fun f => { f with type := f.type.under names ns }).map Field.bare =
      (s.fields.map Field.bare).map fun f => { f with type := f.type.under names ns } := by
    simp [Field.bare, TypeExpr.bare_under, Function.comp_def]
  unfold under bare
  rw [hfields]

theorem Method.bare_under (m : Method) : (m.under names ns).bare = m.bare.under names ns := by
  simp [under, bare, Parameter.bare, TypeExpr.bare_under, Function.comp_def]

theorem Interface.bare_under (i : Interface) : (i.under names ns).bare = i.bare.under names ns := by
  simp [under, bare, Method.bare_under, Function.comp_def]

theorem Enum.bare_under (e : Enum) : (e.under ns).bare = e.bare.under ns := rfl

/-- What other files see is taken from the bare model. -/
theorem Model.bare_exported (m : Model) : m.exported.bare = m.bare.exported := by
  unfold exported
  rw [declaredNames_bare]
  by_cases hns : m.rootNs = ""
  · rw [if_pos hns, if_pos (show m.bare.rootNs = "" from hns)]
  · rw [if_neg hns, if_neg (show m.bare.rootNs ≠ "" from hns)]
    simp [bare, Struct.bare_under, Interface.bare_under, Enum.bare_under, Function.comp_def]

end Under

/-! ## Groups -/

/-- The same namespace and the same declarations, positions and comments aside, in any order. -/
structure NamespaceGroup.Matches (k k' : NamespaceGroup) : Prop where
  ns : k.ns = k'.ns
  structs : (k.structs.map Struct.bare).Perm (k'.structs.map Struct.bare)
  enums : (k.enums.map Enum.bare).Perm (k'.enums.map Enum.bare)
  interfaces : (k.interfaces.map Interface.bare).Perm (k'.interfaces.map Interface.bare)

namespace Model

variable {m m' : Model}

/-- The keys of the groups do not depend on positions and comments. -/
theorem namespaceKeys_bare (m : Model) : m.bare.namespaceKeys = m.namespaceKeys := by
  have hlist : m.bare.namespaceList = m.namespaceList := by
    simp [namespaceList, bare, Struct.bare, Enum.bare, Interface.bare, Function.comp_def]
  rw [namespaceKeys, hlist, namespaceKeys]

/-- The keys are sorted and distinct, so the order of the declarations leaves no trace in them. -/
theorem Reordered.namespaceKeys (h : m.Reordered m') : m.namespaceKeys = m'.namespaceKeys := by
  have hlist : m.namespaceList.Perm m'.namespaceList :=
    ((h.structs.map _).append (h.enums.map _)).append (h.interfaces.map _)
  have hkeys : m.namespaceKeys.Perm m'.namespaceKeys := by
    refine (List.perm_ext_iff_of_nodup m.nodup_namespaceKeys m'.nodup_namespaceKeys).2 fun ns => ?_
    rw [mem_namespaceKeys, mem_namespaceKeys, hlist.mem_iff]
  exact hkeys.eq_of_pairwise (fun _ _ _ _ => le_antisymm) m.pairwise_namespaceKeys
    m'.pairwise_namespaceKeys

/-- Reordered models are grouped under the same keys, and group by group they hold the same. -/
theorem Reordered.groups_match (h : m.bare.Reordered m'.bare) :
    List.Forall₂ NamespaceGroup.Matches m.groups m'.groups := by
  have hkeys : m.namespaceKeys = m'.namespaceKeys := by
    rw [← namespaceKeys_bare, h.namespaceKeys, namespaceKeys_bare]
  rw [groups, groups, hkeys, List.forall₂_map_left_iff, List.forall₂_map_right_iff]
  refine List.forall₂_same.2 fun ns _ => ⟨rfl, ?_, ?_, ?_⟩
  · have hfilter := h.structs.filter fun s => namespaceOf s.name s.ns = ns
    rwa [bare, bare, List.filter_map, List.filter_map] at hfilter
  · have hfilter := h.enums.filter fun e => namespaceOf e.name e.ns = ns
    rwa [bare, bare, List.filter_map, List.filter_map] at hfilter
  · have hfilter := h.interfaces.filter fun i => namespaceOf i.name i.ns = ns
    rwa [bare, bare, List.filter_map, List.filter_map] at hfilter

end Model

/-! ## Graphs that agree -/

namespace Imports

/-- At `p` both graphs have files with the same elements, positions and comments aside, and with
the same imports in any order, or neither has a file that can be read and parsed. -/
def Graph.AgreesAt (g g' : Graph) (p : Path) : Prop :=
  (∃ f f', g.HasTree p f ∧ g'.HasTree p f' ∧ f.bare = f'.bare ∧
    ∀ path, path ∈ f.imports.map (·.path) ↔ path ∈ f'.imports.map (·.path)) ∨
  ((∀ f, ¬g.HasTree p f) ∧ ∀ f, ¬g'.HasTree p f)

/-- Two graphs agree at every path. -/
structure Graph.Agrees (g g' : Graph) : Prop where
  root : g.root.path = g'.root.path
  files : ∀ p, g.AgreesAt g' p

namespace Graph

variable {g g' : Graph} {p q : Path} {f f' : SourceFile}

/-- A file has at most one tree. -/
theorem HasTree.unique (h : g.HasTree p f) (h' : g.HasTree p f') : f = f' := by
  obtain ⟨u, hu, hf⟩ := h
  obtain ⟨u', hu', hf'⟩ := h'
  rw [hu] at hu'
  cases hu'
  rw [hf] at hf'
  exact Except.ok.inj hf'

theorem path_of_unitAt {u : SourceUnit} (h : g.unitAt p = .ok u) : u.path = p := by
  rcases unitAt_cases h with ⟨hp, rfl⟩ | ⟨_, text, _, rfl⟩
  · exact hp.symm
  · rfl

/-- The edges of a file that parses lead to the targets of its imports. -/
theorem HasTree.edge_iff (h : g.HasTree p f) :
    g.Edge p q ↔ ∃ path ∈ f.imports.map (·.path), p.target path = q := by
  obtain ⟨u, hu, hf⟩ := h
  rw [Edge, targets_eq hu, SourceUnit.targets, SourceUnit.directives, path_of_unitAt hu,
    Parser.imports_of_parse hf]
  simp

namespace AgreesAt

theorem symm (h : g.AgreesAt g' p) : g'.AgreesAt g p := by
  rcases h with ⟨f, f', hf, hf', hbare, himports⟩ | ⟨hnone, hnone'⟩
  · exact .inl ⟨f', f, hf', hf, hbare.symm, fun path => (himports path).symm⟩
  · exact .inr ⟨hnone', hnone⟩

/-- Where two graphs agree, a tree in one has its counterpart in the other. -/
theorem exists_tree (h : g.AgreesAt g' p) (hf : g.HasTree p f) :
    ∃ f', g'.HasTree p f' ∧ f.bare = f'.bare ∧
      ∀ path, path ∈ f.imports.map (·.path) ↔ path ∈ f'.imports.map (·.path) := by
  rcases h with ⟨f₀, f', hf₀, hf', hbare, himports⟩ | ⟨hnone, _⟩
  · cases hf.unique hf₀
    exact ⟨f', hf', hbare, himports⟩
  · exact absurd hf (hnone f)

/-- Where two graphs agree, a well-formed file imports the same files. -/
theorem edge_iff (h : g.AgreesAt g' p) (hf : g.HasTree p f) : g.Edge p q ↔ g'.Edge p q := by
  obtain ⟨f', hf', _, himports⟩ := h.exists_tree hf
  rw [hf.edge_iff, hf'.edge_iff]
  simp only [himports]

theorem declares (h : g.AgreesAt g' p) {ns : String} (hd : g.Declares p ns) : g'.Declares p ns := by
  obtain ⟨f, hf, d, hd, rfl⟩ := hd
  obtain ⟨f', hf', hbare, _⟩ := h.exists_tree hf
  have hmem : d.bare ∈ f'.bare.namespaces := by
    rw [← hbare, SourceFile.namespaces_bare]
    exact List.mem_map_of_mem hd
  rw [SourceFile.namespaces_bare] at hmem
  obtain ⟨d', hd', heq⟩ := List.mem_map.1 hmem
  exact ⟨f', hf', d', hd', congrArg (·.name.name) heq⟩

end AgreesAt

namespace Agrees

theorem symm (h : g.Agrees g') : g'.Agrees g :=
  ⟨h.root.symm, fun p => (h.files p).symm⟩

/-- From what can be reached in a resolvable graph, both graphs lead to the same files. -/
theorem edge_iff (h : g.Agrees g') (hg : g.Resolvable) (hp : g.Reachable p) :
    g.Edge p q ↔ g'.Edge p q := by
  obtain ⟨f, hf, _⟩ := hg.wellFormed p hp
  exact (h.files p).edge_iff hf

/-- Graphs that agree have the same reachable files, if one of them is resolvable. -/
theorem reachable_iff (h : g.Agrees g') (hg : g.Resolvable) : g'.Reachable p ↔ g.Reachable p := by
  constructor
  · intro hp
    induction hp with
    | refl =>
      rw [← h.root]
      exact .refl
    | tail _ hedge ih => exact ih.tail ((h.edge_iff hg ih).2 hedge)
  · intro hp
    have hstart : g'.Reachable g.root.path := by
      rw [h.root]
      exact .refl
    induction hp with
    | refl => exact hstart
    | tail hp hedge ih => exact ih.tail ((h.edge_iff hg hp).1 hedge)

/-- A way in the one graph is a way in the other, as long as what it passes is reachable. -/
theorem transGen (h : g.Agrees g') (hg : g.Resolvable) (hp : g.Reachable p)
    (hpq : Relation.TransGen g'.Edge p q) : Relation.TransGen g.Edge p q := by
  induction hpq with
  | single hedge => exact .single ((h.edge_iff hg hp).2 hedge)
  | tail _ hedge ih =>
    exact ih.tail ((h.edge_iff hg (hp.trans ih.to_reflTransGen)).2 hedge)

/-- Resolvability carries over between graphs that agree. -/
theorem resolvable (h : g.Agrees g') (hg : g.Resolvable) : g'.Resolvable where
  wellFormed := by
    intro p hp
    obtain ⟨f, hf, hlen⟩ := hg.wellFormed p ((h.reachable_iff hg).1 hp)
    obtain ⟨f', hf', hbare, _⟩ := (h.files p).exists_tree hf
    refine ⟨f', hf', ?_⟩
    have hnamespaces := congrArg (·.namespaces.length) hbare
    simp only [SourceFile.namespaces_bare, List.length_map] at hnamespaces
    omega
  acyclic := by
    intro p hp hcycle
    have hp := (h.reachable_iff hg).1 hp
    exact hg.acyclic p hp (h.transGen hg hp hcycle)
  distinct := by
    intro p q ns hp hq hns hdp hdq
    exact hg.distinct p q ns ((h.reachable_iff hg).1 hp) ((h.reachable_iff hg).1 hq) hns
      ((h.files p).symm.declares hdp) ((h.files q).symm.declares hdq)

/-- Both graphs have the same file at every path, positions and comments aside. -/
theorem bare_own (h : g.Agrees g') (hm : g.lowered? p = some (g.own p))
    (hm' : g'.lowered? p = some (g'.own p)) : (g.own p).bare = (g'.own p).bare := by
  obtain ⟨u, f, hu, hf, hm⟩ := lowered?_eq_some_iff.1 hm
  obtain ⟨u', f', hu', hf', hm'⟩ := lowered?_eq_some_iff.1 hm'
  obtain ⟨f'', hf'', hbare, _⟩ := (h.files p).exists_tree ⟨u, hu, hf⟩
  cases hf''.unique ⟨u', hu', hf'⟩
  exact SourceFile.bare_eq_of_toModel hbare hm hm'

/-- A file contributes the same in both graphs, up to positions and comments. -/
theorem bare_contribution (h : g.Agrees g') (hown : (g.own p).bare = (g'.own p).bare) :
    (g.contribution p).bare = (g'.contribution p).bare := by
  unfold contribution
  rw [h.root]
  split
  · exact hown
  · rw [Model.bare_exported, Model.bare_exported, hown]

/-- The files that can be reached are the same, in whatever order they are walked. -/
theorem perm (h : g.Agrees g') (hg : g.Resolvable) {order order' : List Path}
    (hwalk : g.Preorder [] [g.root.path] order) (hwalk' : g'.Preorder [] [g'.root.path] order') :
    order.Perm order' := by
  refine (List.perm_ext_iff_of_nodup hwalk.nodup hwalk'.nodup).2 fun p => ?_
  rw [hwalk.mem_iff, hwalk'.mem_iff, h.reachable_iff hg]

/-- What two graphs that agree are resolved to is the same up to order, positions and comments. -/
theorem reordered (h : g.Agrees g') (hg : g.Resolvable) {order order' : List Path} {m m' : Model}
    (hc : g.Collects order m) (hc' : g'.Collects order' m') : m.bare.Reordered m'.bare := by
  -- both models are made of the same contributions, in the order in which the files are walked
  have hperm := h.perm hg hc.walk hc'.walk
  have hown : ∀ p ∈ order, (g.own p).bare = (g'.own p).bare := fun p hp =>
    h.bare_own (hc.lowered p hp) (hc'.lowered p (hperm.mem_iff.1 hp))
  have hitems : ∀ {α : Type} (items : Model → List α),
      (order.flatMap fun p => items (g.contribution p).bare).Perm
        (order'.flatMap fun p => items (g'.contribution p).bare) := by
    intro α items
    have heq : (order.flatMap fun p => items (g.contribution p).bare) =
        order.flatMap fun p => items (g'.contribution p).bare :=
      List.flatMap_congr fun p hp => by rw [h.bare_contribution (hown p hp)]
    rw [heq]
    exact hperm.flatMap_right _
  refine ⟨?rootNs, ?structs, ?enums, ?interfaces⟩
  case rootNs =>
    have hroot := congrArg (·.rootNs) (hown g.root.path (hc.walk.mem_iff.2 .refl))
    exact hc.rootNs.trans (hroot.trans (h.root ▸ hc'.rootNs.symm))
  case structs =>
    have hstructs := hitems (·.structs)
    simpa only [Model.bare, hc.structs, hc'.structs, List.map_flatMap] using hstructs
  case enums =>
    have henums := hitems (·.enums)
    simpa only [Model.bare, hc.enums, hc'.enums, List.map_flatMap] using henums
  case interfaces =>
    have hinterfaces := hitems (·.interfaces)
    simpa only [Model.bare, hc.interfaces, hc'.interfaces, List.map_flatMap] using hinterfaces

end Agrees

end Graph

/-! ## Analysis -/

/-- Two file systems with two roots: both roots are located at one path, and at every path both
have the same file up to positions, comments and the order of imports; or neither is located. -/
def Interchangeable (disk : Disk) (name text : String) (disk' : Disk) (name' text' : String) :
    Prop :=
  (∃ path, locate disk none ⟨name⟩ = .ok path ∧ locate disk' none ⟨name'⟩ = .ok path ∧
    Graph.Agrees ⟨disk, ⟨path, name, text⟩⟩ ⟨disk', ⟨path, name', text'⟩⟩) ∨
  ((∀ path, locate disk none ⟨name⟩ ≠ .ok path) ∧ ∀ path, locate disk' none ⟨name'⟩ ≠ .ok path)

section Analysis

variable {disk disk' : Disk} {name text name' text' : String}

theorem Interchangeable.symm (h : Interchangeable disk name text disk' name' text') :
    Interchangeable disk' name' text' disk name text := by
  rcases h with ⟨path, hpath, hpath', hagrees⟩ | ⟨hnone, hnone'⟩
  · exact .inl ⟨path, hpath', hpath, hagrees.symm⟩
  · exact .inr ⟨hnone', hnone⟩

/-- Resolving succeeds on both sides alike. -/
theorem Interchangeable.exists_resolve (h : Interchangeable disk name text disk' name' text')
    {m : Model} (hm : (resolve disk none name text).1 = .ok m) :
    ∃ m', (resolve disk' none name' text').1 = .ok m' := by
  obtain ⟨path, _, hpath, hg, _⟩ := collects_of_resolve hm
  rcases h with ⟨path', hlocate, hlocate', hagrees⟩ | ⟨hnone, _⟩
  · rw [hpath] at hlocate
    cases hlocate
    exact exists_resolve_of_resolvable hlocate' (hagrees.resolvable hg)
  · exact absurd hpath (hnone path)

/-- Two resolutions of interchangeable inputs give reordered models. -/
theorem Interchangeable.reordered (h : Interchangeable disk name text disk' name' text')
    {m m' : Model} (hm : (resolve disk none name text).1 = .ok m)
    (hm' : (resolve disk' none name' text').1 = .ok m') : m.bare.Reordered m'.bare := by
  obtain ⟨path, _, hpath, hg, hcollects⟩ := collects_of_resolve hm
  obtain ⟨path', _, hpath', _, hcollects'⟩ := collects_of_resolve hm'
  rcases h with ⟨path'', hlocate, hlocate', hagrees⟩ | ⟨hnone, _⟩
  · rw [hpath] at hlocate
    cases hlocate
    rw [hpath'] at hlocate'
    cases hlocate'
    exact hagrees.reordered hg hcollects hcollects'
  · exact absurd hpath (hnone path)

/-- If the one analysis succeeds, so does the other. -/
theorem Interchangeable.exists_analyze (h : Interchangeable disk name text disk' name' text')
    (hm : ∃ m, (analyze disk name text).result = .ok m) :
    ∃ m', (analyze disk' name' text').result = .ok m' := by
  obtain ⟨m, hm⟩ := hm
  obtain ⟨hresolve, hvalid⟩ := (analyze_eq_ok_iff _ _ _ _).1 hm
  obtain ⟨m', hresolve'⟩ := h.exists_resolve hresolve
  refine ⟨m', (analyze_eq_ok_iff _ _ _ _).2 ⟨hresolve', ?_⟩⟩
  rw [← validate_eq_ok_iff, ← validate_bare] at hvalid ⊢
  exact validate_of_reordered (h.reordered hresolve hresolve') hvalid

/-- The order of imports does not matter: analysis succeeds in any order or in none, and then the
models have the same namespace, the same declarations and the same groups, positions, comments and
order aside. -/
theorem analyze_of_interchangeable (h : Interchangeable disk name text disk' name' text') :
    ((∃ m, (analyze disk name text).result = .ok m) ↔
      ∃ m', (analyze disk' name' text').result = .ok m') ∧
    ∀ m m', (analyze disk name text).result = .ok m →
      (analyze disk' name' text').result = .ok m' →
        m.bare.Reordered m'.bare ∧ List.Forall₂ NamespaceGroup.Matches m.groups m'.groups := by
  refine ⟨⟨h.exists_analyze, h.symm.exists_analyze⟩, fun m m' hm hm' => ?_⟩
  have hreordered := h.reordered ((analyze_eq_ok_iff _ _ _ _).1 hm).1
    ((analyze_eq_ok_iff _ _ _ _).1 hm').1
  exact ⟨hreordered, hreordered.groups_match⟩

/-! ## Two imports -/

/-- Graphs that have the same file at a path agree there. -/
theorem Graph.agreesAt_of_unitAt_eq {g g' : Graph} {p : Path} (h : g.unitAt p = g'.unitAt p) :
    g.AgreesAt g' p := by
  by_cases htree : ∃ f, g.HasTree p f
  · obtain ⟨f, u, hu, hf⟩ := htree
    exact .inl ⟨f, f, ⟨u, hu, hf⟩, ⟨u, h ▸ hu, hf⟩, rfl, fun _ => .rfl⟩
  · refine .inr ⟨not_exists.1 htree, ?_⟩
    rintro f ⟨u, hu, hf⟩
    exact htree ⟨f, u, h ▸ hu, hf⟩

/-- Two roots over one file system agree if their own texts do. -/
theorem Graph.agrees_of_roots {path : Path} {f f' : SourceFile}
    (hf : Parser.parse ⟨name, text⟩ = .ok f) (hf' : Parser.parse ⟨name', text'⟩ = .ok f')
    (hbare : f.bare = f'.bare)
    (himports : ∀ x, x ∈ f.imports.map (·.path) ↔ x ∈ f'.imports.map (·.path)) :
    Graph.Agrees ⟨disk, ⟨path, name, text⟩⟩ ⟨disk, ⟨path, name', text'⟩⟩ where
  root := rfl
  files := by
    intro p
    by_cases hp : p = path
    · rw [hp]
      exact .inl ⟨f, f', ⟨_, unitAt_root _, hf⟩, ⟨_, unitAt_root _, hf'⟩, hbare, himports⟩
    · refine agreesAt_of_unitAt_eq ?_
      rw [unitAt, unitAt, if_neg hp, if_neg hp]

/-- A root whose two imports are written in either order: the enums that they declare come in either
order, and the interface of one of them refers to the enum of the other. -/
theorem analyze_of_two_imports :
    ∃ (disk : Disk) (m m' : Model),
      disk = FileTree.toDisk ⟨[(["a"], .file "namespace a enum A { }".toUTF8), (["b"], .file
        "namespace b enum B { } interface I { f() a.A }".toUTF8)], .present []⟩ ∧
      (analyze disk "/r" "namespace r import \"a\" import \"b\"").result = .ok m ∧
      (analyze disk "/r" "namespace r import \"b\" import \"a\"").result = .ok m' ∧
      m.enums.map (·.name) = ["a.A", "b.B"] ∧ m'.enums.map (·.name) = ["b.B", "a.A"] ∧
      m.bare.Reordered m'.bare ∧ List.Forall₂ NamespaceGroup.Matches m.groups m'.groups := by
  obtain ⟨disk, hdisk⟩ : ∃ disk, disk = FileTree.toDisk ⟨[(["a"], .file
    "namespace a enum A { }".toUTF8), (["b"], .file
    "namespace b enum B { } interface I { f() a.A }".toUTF8)], .present []⟩ := ⟨_, rfl⟩
  have hlocate : locate disk none ⟨"/r"⟩ = .ok ⟨"/r"⟩ := rfl
  have hreadA : disk.read ⟨"/a"⟩ = .ok "namespace a enum A { }" := by
    rw [hdisk]
    decide +kernel
  have hreadB : disk.read ⟨"/b"⟩ = .ok "namespace b enum B { } interface I { f() a.A }" := by
    rw [hdisk]
    decide +kernel
  have hA : (⟨⟨"/a"⟩, "/a", "namespace a enum A { }"⟩ : SourceUnit).load.1.toOption =
      some (⟨"/a", "a", [], [], [⟨"A", "a", [], "", ⟨"/a", 1, 13, 12⟩⟩]⟩, []) := by
    decide +kernel
  have hB : (⟨⟨"/b"⟩, "/b", "namespace b enum B { } interface I { f() a.A }"⟩ :
      SourceUnit).load.1.toOption =
      some (⟨"/b", "b", [⟨"I", "b", [⟨"f", [], some (.named ⟨"a.A", ⟨"/b", 1, 42, 41⟩⟩), false, "",
        ⟨"/b", 1, 38, 37⟩⟩], "", ⟨"/b", 1, 24, 23⟩⟩], [],
        [⟨"B", "b", [], "", ⟨"/b", 1, 13, 12⟩⟩]⟩, []) := by
    decide +kernel
  have hload : (⟨⟨"/r"⟩, "/r", "namespace r import \"a\" import \"b\""⟩ :
      SourceUnit).load.1.toOption = some (⟨"/r", "r", [], [], []⟩,
        [⟨"a", ⟨"/r", 1, 13, 12⟩, 22⟩, ⟨"b", ⟨"/r", 1, 24, 23⟩, 33⟩]) := by
    decide +kernel
  have hload' : (⟨⟨"/r"⟩, "/r", "namespace r import \"b\" import \"a\""⟩ :
      SourceUnit).load.1.toOption = some (⟨"/r", "r", [], [], []⟩,
        [⟨"b", ⟨"/r", 1, 13, 12⟩, 22⟩, ⟨"a", ⟨"/r", 1, 24, 23⟩, 33⟩]) := by
    decide +kernel
  have hresolve := Follows.resolve hlocate hload
    (.visit (by decide +kernel) (by decide +kernel) (by decide +kernel) hreadA hA .done (by decide)
      (.visit (by decide +kernel) (by decide +kernel) (by decide +kernel) hreadB hB .done
        (by decide) .done)) (by decide)
  have hresolve' := Follows.resolve hlocate hload'
    (.visit (by decide +kernel) (by decide +kernel) (by decide +kernel) hreadB hB .done (by decide)
      (.visit (by decide +kernel) (by decide +kernel) (by decide +kernel) hreadA hA .done
        (by decide) .done)) (by decide)
  have hok := (analyze_eq_ok_iff disk "/r" "namespace r import \"a\" import \"b\"" _).2
    ⟨hresolve, (validate_eq_ok_iff _).1 ((validate_of_no_structs rfl).2 (by decide +kernel))⟩
  have hok' := (analyze_eq_ok_iff disk "/r" "namespace r import \"b\" import \"a\"" _).2
    ⟨hresolve', (validate_eq_ok_iff _).1 ((validate_of_no_structs rfl).2 (by decide +kernel))⟩
  have hparse : Parser.parse ⟨"/r", "namespace r import \"a\" import \"b\""⟩ =
      .ok ⟨"/r", [⟨"a", ⟨"/r", 1, 13, 12⟩, 22⟩, ⟨"b", ⟨"/r", 1, 24, 23⟩, 33⟩],
        [.namespaceDecl ⟨⟨"r", ⟨"/r", 1, 11, 10⟩⟩, ⟨"/r", 1, 1, 0⟩⟩]⟩ := by
    decide +kernel
  have hparse' : Parser.parse ⟨"/r", "namespace r import \"b\" import \"a\""⟩ =
      .ok ⟨"/r", [⟨"b", ⟨"/r", 1, 13, 12⟩, 22⟩, ⟨"a", ⟨"/r", 1, 24, 23⟩, 33⟩],
        [.namespaceDecl ⟨⟨"r", ⟨"/r", 1, 11, 10⟩⟩, ⟨"/r", 1, 1, 0⟩⟩]⟩ := by
    decide +kernel
  have hagrees := @Graph.agrees_of_roots disk _ _ _ _ ⟨"/r"⟩ _ _ hparse hparse' rfl
    fun x => by simp [or_comm]
  have hsame := (analyze_of_interchangeable (.inl ⟨_, hlocate, hlocate, hagrees⟩)).2 _ _ hok hok'
  exact ⟨disk, _, _, hdisk, hok, hok', by decide +kernel, by decide +kernel, hsame.1, hsame.2⟩

end Analysis

end Imports

end InterfaceLang
