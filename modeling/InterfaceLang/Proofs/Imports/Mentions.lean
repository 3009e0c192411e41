import InterfaceLang.Proofs.Imports.Identifiers
import InterfaceLang.Proofs.Imports.Positions

/-!
# Names that a resolved model mentions

A file mentions types and parents by identifiers that are joined by dots. In a resolved model the
namespace of the file, which is an identifier, may stand before a mention, as it may before the name
of a declaration. So all names in a resolved model consist of word characters and dots, those of
declarations and members and those that are only mentioned.

Results:
* `Model.dotted_toModel`: the mentions of one file have word characters and dots only.
* `Imports.Graph.Collects.dotted`: so have the mentions of a resolved model.
* `Model.WellNamed.dotted_names`: so have all names of a model that is well named.
-/

namespace InterfaceLang

open Grammar

/-! ## Names of words and dots -/

namespace Name

/-- All characters of a name are word characters or dots. -/
def Dotted (name : String) : Prop :=
  ∀ c ∈ name.toList, isWordChar c = true ∨ c = '.'

variable {ns name : String}

theorem dotted_empty : Dotted "" := by
  simp [Dotted]

/-- Identifiers are dotted names of one part. -/
theorem dotted_of_isIdentifier (h : isIdentifier name = true) : Dotted name :=
  fun c hc => .inl (isWordChar_of_isIdentifier h c hc)

/-- A dotted name under a dotted name is one. -/
theorem Dotted.under (hns : Dotted ns) (h : Dotted name) : Dotted (ns ++ "." ++ name) := by
  intro c hc
  simp only [String.toList_append, List.mem_append] at hc
  rcases hc with (hc | hc) | hc
  · exact hns c hc
  · exact .inr (by simpa using hc)
  · exact h c hc

/-- Dotted names joined by dots are one. -/
theorem dotted_intercalate {parts : List String} (h : ∀ part ∈ parts, Dotted part) :
    Dotted (".".intercalate parts) := by
  induction parts with
  | nil => exact dotted_empty
  | cons part parts ih =>
    obtain ⟨hpart, hparts⟩ := List.forall_mem_cons.1 h
    cases parts with
    | nil => simpa using hpart
    | cons next parts =>
      rw [String.intercalate_cons_cons]
      exact hpart.under (ih hparts)

/-- The last segment of a name is part of it. -/
theorem mem_of_mem_base {c : Char} (h : c ∈ (base name).toList) : c ∈ name.toList := by
  rw [base, String.toList_ofList, List.mem_reverse] at h
  exact List.mem_reverse.1 ((List.takeWhile_sublist _).subset h)

end Name

/-- A type that mentions a name, if it does, of word characters and dots. -/
def TypeExpr.Dotted (t : TypeExpr) : Prop :=
  ∀ r ∈ t.leaf, Name.Dotted r.name

/-- An interface whose methods mention names of word characters and dots only. -/
def Interface.Dotted (i : Interface) : Prop :=
  ∀ f ∈ i.methods, ∀ t ∈ f.types, t.Dotted

/-- A struct whose parent and fields mention names of word characters and dots only. -/
structure Struct.Dotted (s : Struct) : Prop where
  parent : Name.Dotted s.parent
  fields : ∀ f ∈ s.fields, f.type.Dotted

/-- A model that mentions names of word characters and dots only. -/
structure Model.Dotted (m : Model) : Prop where
  interfaces : ∀ i ∈ m.interfaces, i.Dotted
  structs : ∀ s ∈ m.structs, s.Dotted

/-- The names in a model: those of its declarations and members, and those that it mentions. -/
def Model.names (m : Model) : List String :=
  m.declaredNames ++ (Validation.memberNames m).map (·.1) ++ m.references.map (·.name) ++
    m.structs.map (·.parent)

/-! ## Trees -/

namespace Grammar

variable {source : SourceText}

theorem NameLeaf.dotted {n : NameLeaf} (h : DrawnFrom source n) : Name.Dotted n.name :=
  Name.dotted_of_isIdentifier
    (Lexer.isIdentifier_of_mem_tokens (h n.token List.mem_cons_self) n.kind_eq)

theorem DottedTree.dotted {d : DottedTree} (h : DrawnFrom source d) :
    Name.Dotted (DottedTree.ident d).name := by
  obtain ⟨first, more⟩ := d
  obtain ⟨hfirst, hmore⟩ := drawnFrom_pair.1 h
  rw [drawnFrom_list] at hmore
  refine Name.dotted_intercalate (List.forall_mem_cons.2 ⟨NameLeaf.dotted hfirst, ?_⟩)
  exact List.forall_mem_map.2 fun part hpart =>
    NameLeaf.dotted (drawnFrom_pair.1 (hmore part hpart)).2

/-- The names that a type mentions are dotted names. -/
theorem TypeTree.dotted {d : TypeTree} (h : DrawnFrom source d) : d.type.Dotted := by
  induction d with
  | builtIn b => simp [type, TypeExpr.Dotted, TypeExpr.leaf]
  | array brackets element ih => exact ih (List.forall_mem_append.1 h).2
  | mapOf key value ih => exact ih (List.forall_mem_append.1 h).2
  | named name =>
    rintro _ ⟨⟩
    exact DottedTree.dotted h

theorem ParamsTree.dotted {d : ParamsTree} (h : DrawnFrom source d) :
    ∀ p ∈ ParamsTree.decls d, p.type.Dotted := by
  match d with
  | none => simp [decls]
  | some (first, more) =>
    obtain ⟨hfirst, hmore⟩ := drawnFrom_pair.1 h
    rw [drawnFrom_list] at hmore
    refine List.forall_mem_cons.2 ⟨TypeTree.dotted (drawnFrom_pair.1 hfirst).2, ?_⟩
    refine List.forall_mem_map.2 fun part hpart => ?_
    exact TypeTree.dotted (drawnFrom_pair.1 (drawnFrom_pair.1 (hmore part hpart)).2).2

variable {lines : Model.Lines} {floor : Nat} {ns : String}

theorem MethodTree.dotted {d : MethodTree} (h : DrawnFrom source d) :
    ∀ t ∈ (Model.ofMethod lines floor (MethodTree.decl d)).types, t.Dotted := by
  obtain ⟨name, lparen, params, rparen, returns, mark⟩ := d
  simp only [drawnFrom_pair] at h
  obtain ⟨_, _, hparams, _, hreturns, _⟩ := h
  refine List.forall_mem_cons.2 ⟨TypeTree.dotted hreturns, ?_⟩
  show ∀ t ∈ ((ParamsTree.decls params).map Model.ofParam).map (·.type), t.Dotted
  simp only [List.map_map, List.forall_mem_map]
  exact ParamsTree.dotted hparams

theorem InterfaceTree.dotted {d : InterfaceTree} (h : DrawnFrom source d) :
    (Model.ofInterface lines ns (InterfaceTree.decl d)).Dotted := by
  obtain ⟨keyword, name, brace, methods, closing⟩ := d
  simp only [drawnFrom_pair, drawnFrom_list] at h
  obtain ⟨_, _, _, hmethods, _⟩ := h
  simp only [Interface.Dotted, Model.ofInterface, decl, List.map_map, List.forall_mem_map]
  exact fun f hf => MethodTree.dotted (hmethods f hf)

theorem StructTree.dotted {d : StructTree} (h : DrawnFrom source d) :
    (Model.ofStruct lines ns (StructTree.decl d)).Dotted := by
  obtain ⟨keyword, name, parent, brace, fields, closing⟩ := d
  simp only [drawnFrom_pair, drawnFrom_list] at h
  obtain ⟨_, _, hparent, _, hfields, _⟩ := h
  constructor
  · cases parent with
    | none => exact Name.dotted_empty
    | some p => exact DottedTree.dotted (drawnFrom_pair.1 hparent).2
  · simp only [Model.ofStruct, decl, List.map_map, List.forall_mem_map]
    exact fun f hf => TypeTree.dotted (drawnFrom_pair.1 (drawnFrom_pair.1 (hfields f hf)).2).1

end Grammar

/-- The model of one file mentions names of word characters and dots only. -/
theorem Model.dotted_toModel {source : SourceText} {f : SourceFile} {m : Model}
    (hparse : Parser.parse source = .ok f) (hmodel : f.toModel source.text = .ok m) : m.Dotted := by
  obtain ⟨_, items, hitems, helements⟩ := Parser.exists_items_of_parse hparse
  have hdrawn : ∀ e ∈ elementsOf items, DrawnFrom source e :=
    fun e he t ht => mem_tokens_of_mem_elementsOf hitems he ht
  unfold SourceFile.toModel at hmodel
  cases hdecl : f.namespaceDecl? source.text with
  | error e =>
    rw [hdecl] at hmodel
    cases hmodel
  | ok decl =>
    rw [hdecl, helements] at hmodel
    cases hmodel
    constructor
    all_goals
      simp only [List.mem_map, List.mem_filterMap, SourceTree.elements]
      rintro _ ⟨decl, ⟨_, ⟨e, he, rfl⟩, hd⟩, rfl⟩
    · cases e with
      | interfaceDecl d =>
        cases hd
        exact InterfaceTree.dotted (hdrawn _ he)
      | _ => cases hd
    · cases e with
      | structDecl d =>
        cases hd
        exact StructTree.dotted (hdrawn _ he)
      | _ => cases hd

/-! ## Declarations under a namespace -/

section Under

variable {names : List String} {ns : String}

/-- A reference is a dotted name also under a namespace. -/
theorem dotted_referenceUnder {name : String} (hns : Name.Dotted ns) (h : Name.Dotted name) :
    Name.Dotted (referenceUnder names ns name) := by
  unfold referenceUnder
  split
  · exact hns.under h
  · exact h

theorem TypeExpr.Dotted.under {t : TypeExpr} (hns : Name.Dotted ns) (h : t.Dotted) :
    (t.under names ns).Dotted := by
  intro r hr
  rw [TypeExpr.leaf_under] at hr
  obtain ⟨r', hr', rfl⟩ := Option.map_eq_some_iff.1 hr
  exact dotted_referenceUnder hns (h r' hr')

theorem Method.types_under (m : Method) :
    (m.under names ns).types = m.types.map (TypeExpr.under names ns) := by
  cases hreturns : m.returns <;>
    simp [types, Method.under, hreturns, Function.comp_def]

theorem Interface.Dotted.under {i : Interface} (hns : Name.Dotted ns) (h : i.Dotted) :
    (i.under names ns).Dotted := by
  refine List.forall_mem_map.2 fun f hf => ?_
  rw [Method.types_under]
  exact List.forall_mem_map.2 fun t ht => (h f hf t ht).under hns

theorem Struct.Dotted.under {s : Struct} (hns : Name.Dotted ns) (h : s.Dotted) :
    (s.under names ns).Dotted where
  parent := by
    rw [Struct.under]
    split
    · exact Name.dotted_empty
    · exact dotted_referenceUnder hns h.parent
  fields := List.forall_mem_map.2 fun f hf => (h.fields f hf).under hns

/-- As other files see it, a model still mentions such names only, if its namespace is one. -/
theorem Model.Dotted.exported {m : Model} (h : m.Dotted)
    (hroot : m.rootNs ≠ "" → Name.Dotted m.rootNs) : m.exported.Dotted := by
  unfold Model.exported
  split
  · exact h
  · next hns =>
    exact ⟨List.forall_mem_map.2 fun i hi => (h.interfaces i hi).under (hroot hns),
      List.forall_mem_map.2 fun s hs => (h.structs s hs).under (hroot hns)⟩

end Under

/-! ## Resolved models -/

namespace Imports

variable {g : Graph} {order : List Path} {m : Model} {p : Path}

/-- What a file contributes mentions dotted names only. -/
theorem Graph.dotted_contribution (h : g.lowered? p = some (g.own p)) :
    (g.contribution p).Dotted := by
  obtain ⟨u, f, _, hf, hm⟩ := lowered?_eq_some_iff.1 h
  have hown : (g.own p).Dotted := Model.dotted_toModel hf hm
  unfold contribution
  split
  · exact hown
  · exact hown.exported fun hns =>
      Name.dotted_of_isIdentifier ((plainNames_of_lowered? h).rootNs hns)

namespace Graph.Collects

/-- A resolved model mentions names of word characters and dots only. -/
theorem dotted (h : g.Collects order m) : m.Dotted where
  interfaces := by
    rw [h.interfaces, List.forall_mem_flatMap]
    exact fun p hp => (dotted_contribution (h.lowered p hp)).interfaces
  structs := by
    rw [h.structs, List.forall_mem_flatMap]
    exact fun p hp => (dotted_contribution (h.lowered p hp)).structs

end Graph.Collects

end Imports

namespace Model

variable {m : Model}

/-- The declared names of a well-named model are dotted names. -/
theorem WellNamed.dotted_declaredNames (h : m.WellNamed) :
    ∀ name ∈ m.declaredNames, Name.Dotted name := by
  rw [← map_snd_placements, List.forall_mem_map]
  intro d hd
  obtain ⟨hbase, hplain | ⟨hns, hunder⟩⟩ := h.declarations d hd
  · rw [hplain]
    exact Name.dotted_of_isIdentifier hbase
  · rw [hunder]
    exact (Name.dotted_of_isIdentifier hns).under (Name.dotted_of_isIdentifier hbase)

/-- All types of a model with dotted names mention dotted names. -/
theorem Dotted.types (h : m.Dotted) : ∀ t ∈ m.types, t.Dotted := by
  simp only [Model.types, List.forall_mem_append, List.forall_mem_flatMap, List.forall_mem_map]
  exact ⟨h.interfaces, fun s hs => (h.structs s hs).fields⟩

/-- A model that is well named, and mentions names of word characters and dots only, has no other
names at all. -/
theorem WellNamed.dotted_names (hnames : m.WellNamed) (hmentions : m.Dotted) :
    ∀ name ∈ m.names, Name.Dotted name := by
  simp only [names, references, List.forall_mem_append, List.forall_mem_map, List.mem_filterMap]
  refine ⟨⟨⟨hnames.dotted_declaredNames, fun d hd => ?_⟩, ?_⟩, fun s hs => ?_⟩
  · exact Name.dotted_of_isIdentifier (hnames.members d hd)
  · rintro r ⟨t, ht, hr⟩
    exact hmentions.types t ht r hr
  · exact (hmentions.structs s hs).parent

end Model

end InterfaceLang
