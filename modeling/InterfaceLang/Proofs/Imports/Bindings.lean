import InterfaceLang.Proofs.Imports.Invariant
import InterfaceLang.Proofs.Validation.Importing

/-!
# What names mean under a namespace

A name means the declarations that bear it. To tell whether a reference still means the same after
declarations have been put under a namespace, declarations are told apart by their places in the
model, which qualifying keeps.

A reference from a declaration of the namespace to another one follows it. Any other reference stays
as it is, and it comes to mean something new only if it meant nothing and is already spelled like a
declaration under the namespace.

Results:
* `Model.bindingsKept_qualify`: references of own declarations keep their meaning, and nothing else
  changes but the own names.
* `Imports.qualifiable_of_merge`: this applies to every model that a resolution qualifies.
-/

namespace InterfaceLang

/-- A declaration of any kind. -/
inductive Declaration where
  | struct (s : Struct)
  | enum (e : Enum)
  | interface (i : Interface)
  deriving DecidableEq

namespace Declaration

/-- The name of a declaration. -/
def name : Declaration → String
  | struct s => s.name
  | enum e => e.name
  | interface i => i.name

/-- The namespace that a declaration carries. -/
def ns : Declaration → String
  | struct s => s.ns
  | enum e => e.ns
  | interface i => i.ns

/-- The names that a declaration refers to: its parent, if it has one, and the leaves of the types
that it mentions. -/
def references : Declaration → List String
  | struct s => [s.parent].filter (· ≠ "") ++ s.fields.flatMap (·.type.names)
  | enum _ => []
  | interface i => i.methods.flatMap (·.types.flatMap TypeExpr.names)

/-- What a declaration is apart from its name and the names it refers to. -/
def blank : Declaration → Declaration
  | struct s => struct (s.rename fun _ => "")
  | enum e => enum (e.rename fun _ => "")
  | interface i => interface (i.rename fun _ => "")

/-- Puts a declaration of the namespace under it. -/
def qualify (own : List String) (ns : String) : Declaration → Declaration
  | struct s => struct (s.qualify own ns)
  | enum e => enum (e.qualify ns)
  | interface i => interface (i.qualify own ns)

end Declaration

namespace Model

/-- The declarations of a model, each at its place. -/
def declarations (m : Model) : List Declaration :=
  m.structs.map .struct ++ m.enums.map .enum ++ m.interfaces.map .interface

/-- The places of the declarations that satisfy `p`. -/
def places (m : Model) (p : Declaration → Bool) : List Nat :=
  (m.declarations.zipIdx.filter fun d => p d.1).map (·.2)

/-- The places of the declarations that a name means. -/
def meaning (m : Model) (name : String) : List Nat :=
  m.places fun d => d.name = name

/-- The places of the declarations of a namespace that a name means. -/
def ownMeaning (m : Model) (ns name : String) : List Nat :=
  m.places fun d => d.ns = ns ∧ d.name = name

/-- A model whose declarations can be put under a namespace: their names are bare, and no other
declaration looks as if it stood there already. -/
structure Qualifiable (m : Model) (ns : String) : Prop where
  ns_ne : ns ≠ ""
  own : ∀ d ∈ m.declarations, d.ns = ns → d.name ≠ "" ∧ '.' ∉ d.name.toList
  foreign : ∀ d ∈ m.declarations, d.ns ≠ ns → ¬(ns ++ ".").toList <+: d.name.toList

/-- The reference `name'` of `m'` means what the reference `name` means in `m`. -/
structure ReferenceKept (m m' : Model) (ns name name' : String) : Prop where
  own : m.ownMeaning ns name ≠ [] → m'.meaning name' = m.ownMeaning ns name
  foreign : m.ownMeaning ns name = [] → m.meaning name ≠ [] →
    name' = name ∧ m'.meaning name' = m.meaning name
  nothing : m.meaning name = [] →
    name' = name ∧ (m'.meaning name' ≠ [] → ∃ x ∈ m.ownNames ns, name = ns ++ "." ++ x)

/-- The declaration `d'` of `m'` is the declaration `d` of `m`, put under the namespace if it
belongs there. -/
structure DeclarationKept (m m' : Model) (ns : String) (d d' : Declaration) : Prop where
  foreign : d.ns ≠ ns → d' = d
  name : d.ns = ns → d'.name = ns ++ "." ++ d.name
  references : d.ns = ns → List.Forall₂ (ReferenceKept m m' ns) d.references d'.references
  rest : d.ns = ns → d'.blank = d.blank

/-- Place by place, `m'` has the declarations of `m`, those of the namespace under it. -/
structure BindingsKept (m m' : Model) (ns : String) : Prop where
  file : m'.file = m.file
  rootNs : m'.rootNs = m.rootNs
  declarations : List.Forall₂ (DeclarationKept m m' ns) m.declarations m'.declarations

end Model

/-! ## Qualified declarations -/

/-- Names under one namespace are told apart by what follows it. -/
theorem Name.qualify_inj {ns x y : String} (hns : ns ≠ "") :
    Name.qualify ns x = Name.qualify ns y ↔ x = y := by
  constructor
  · intro h
    have hlist := congrArg String.toList h
    rw [toList_qualify hns, toList_qualify hns] at hlist
    exact String.toList_inj.1 (by simpa using hlist)
  · rintro rfl
    rfl

section Declaration

variable {own : List String} {ns : String}

/-- The names that a type mentions are requalified one by one. -/
theorem TypeExpr.names_requalify (t : TypeExpr) :
    (t.requalify own ns).names = t.names.map (InterfaceLang.requalify own ns) := by
  unfold TypeExpr.names TypeExpr.requalify
  rw [leaf_mapRefs]
  cases t.leaf <;> rfl

/-- Renaming after requalifying is renaming with the composition. -/
theorem TypeExpr.rename_requalify (f : String → String) (t : TypeExpr) :
    (t.requalify own ns).rename f = t.rename (f ∘ InterfaceLang.requalify own ns) := by
  unfold TypeExpr.requalify TypeExpr.rename
  induction t with
  | builtIn b => rfl
  | array e ih => exact congrArg array ih
  | mapOf v ih => exact congrArg mapOf ih
  | named r => rfl

theorem Method.types_requalify (d : Method) :
    (d.requalify own ns).types = d.types.map (TypeExpr.requalify own ns) := by
  unfold Method.types Method.requalify
  cases d.returns <;> simp

/-- A name is not lost by requalifying it. -/
theorem requalify_ne_empty {name : String} (h : name ≠ "") : requalify own ns name ≠ "" := by
  unfold requalify Name.qualify
  split
  · split
    · exact h
    · simp
  · exact h

namespace Declaration

variable {d : Declaration}

/-- A declaration of another namespace stays as it is. -/
theorem qualify_of_foreign (h : d.ns ≠ ns) : d.qualify own ns = d := by
  cases d with
  | struct s => exact congrArg struct (if_neg h)
  | enum e => exact congrArg enum (if_neg h)
  | interface i => exact congrArg interface (if_neg h)

theorem name_qualify (h : d.ns = ns) : (d.qualify own ns).name = Name.qualify ns d.name := by
  cases d with
  | struct s => simp only [qualify, Struct.qualify, name, if_pos (show s.ns = ns from h)]
  | enum e => simp only [qualify, Enum.qualify, name, if_pos (show e.ns = ns from h)]
  | interface i => simp only [qualify, Interface.qualify, name, if_pos (show i.ns = ns from h)]

/-- The references of an own declaration follow the own names, each by itself. -/
theorem references_qualify (h : d.ns = ns) (hown : "" ∉ own) :
    (d.qualify own ns).references = d.references.map (requalify own ns) := by
  cases d with
  | struct s =>
    have hparent : [requalify own ns s.parent].filter (· ≠ "") =
        ([s.parent].filter (· ≠ "")).map (requalify own ns) := by
      by_cases hempty : s.parent = ""
      · simp [hempty, requalify_of_not_mem hown]
      · simp [hempty, requalify_ne_empty hempty]
    simp only [qualify, Struct.qualify, references, if_pos (show s.ns = ns from h), hparent,
      List.map_append, List.flatMap_map, List.map_flatMap, TypeExpr.names_requalify]
  | enum e => rfl
  | interface i =>
    simp only [qualify, Interface.qualify, references, if_pos (show i.ns = ns from h),
      List.flatMap_map, List.map_flatMap, Method.types_requalify, TypeExpr.names_requalify]

theorem blank_qualify (h : d.ns = ns) : (d.qualify own ns).blank = d.blank := by
  have htype : ∀ t : TypeExpr, (t.requalify own ns).rename (fun _ => "") =
      t.rename fun _ => "" := fun t => TypeExpr.rename_requalify _ t
  cases d with
  | struct s =>
    simp only [qualify, Struct.qualify, blank, if_pos (show s.ns = ns from h), Struct.rename,
      List.map_map, Function.comp_def, htype, ite_self]
  | enum e => simp only [qualify, Enum.qualify, blank, if_pos (show e.ns = ns from h), Enum.rename]
  | interface i =>
    have hmethod : ∀ f : Method, (f.requalify own ns).rename (fun _ => "") =
        f.rename fun _ => "" := by
      intro f
      simp only [Method.requalify, Method.rename, Option.map_map, List.map_map, Function.comp_def,
        htype]
    simp only [qualify, Interface.qualify, blank, if_pos (show i.ns = ns from h), Interface.rename,
      List.map_map, Function.comp_def, hmethod]

end Declaration

end Declaration

namespace Model

variable {m : Model} {ns name : String} {p q : Declaration → Bool}

/-- The declarations of a qualified model, one by one and in order. -/
theorem declarations_qualify (m : Model) (ns : String) :
    (m.qualify ns).declarations =
      m.declarations.map (Declaration.qualify (m.ownNames ns) ns) := by
  simp only [declarations, qualify, List.map_append, List.map_map]
  rfl

/-- The own names of a namespace are those of its declarations. -/
theorem mem_ownNames_iff_declaration :
    name ∈ m.ownNames ns ↔ ∃ d ∈ m.declarations, d.ns = ns ∧ d.name = name := by
  simp only [ownNames, declarations, List.mem_append, List.mem_map, List.mem_filter,
    decide_eq_true_eq]
  constructor
  · rintro ((⟨s, ⟨hs, hns⟩, hname⟩ | ⟨e, ⟨he, hns⟩, hname⟩) | ⟨i, ⟨hi, hns⟩, hname⟩)
    · exact ⟨.struct s, .inl (.inl ⟨s, hs, rfl⟩), hns, hname⟩
    · exact ⟨.enum e, .inl (.inr ⟨e, he, rfl⟩), hns, hname⟩
    · exact ⟨.interface i, .inr ⟨i, hi, rfl⟩, hns, hname⟩
  · rintro ⟨d, (⟨s, hs, rfl⟩ | ⟨e, he, rfl⟩) | ⟨i, hi, rfl⟩, hns, hname⟩
    · exact .inl (.inl ⟨s, ⟨hs, hns⟩, hname⟩)
    · exact .inl (.inr ⟨e, ⟨he, hns⟩, hname⟩)
    · exact .inr ⟨i, ⟨hi, hns⟩, hname⟩

/-! ## Places -/

/-- The places at which a property holds depend on the declarations only. -/
theorem places_congr (h : ∀ d ∈ m.declarations, p d = q d) : m.places p = m.places q := by
  unfold places
  congr 1
  exact List.filter_congr fun d hd => h d.1 (List.fst_mem_of_mem_zipIdx hd)

theorem places_eq_nil_iff : m.places p = [] ↔ ∀ d ∈ m.declarations, p d = false := by
  unfold places
  rw [List.map_eq_nil_iff, List.filter_eq_nil_iff]
  constructor
  · intro h d hd
    obtain ⟨k, hk⟩ := List.mem_iff_getElem?.1 hd
    simpa using h (d, k) (List.mem_zipIdx_iff_getElem?.2 hk)
  · intro h d hd
    simpa using h d.1 (List.fst_mem_of_mem_zipIdx hd)

theorem places_ne_nil_iff : m.places p ≠ [] ↔ ∃ d ∈ m.declarations, p d = true := by
  rw [ne_eq, places_eq_nil_iff]
  simp

/-- A place of the qualified model is a place of the model, with the property asked of the
qualified declaration. -/
theorem places_qualify (p : Declaration → Bool) :
    (m.qualify ns).places p = m.places fun d => p (d.qualify (m.ownNames ns) ns) := by
  unfold places
  rw [declarations_qualify, List.zipIdx_map, List.filter_map, List.map_map]
  rfl

/-! ## What references mean -/

/-- No declaration is mistaken for one that has been put under the namespace. -/
theorem Qualifiable.ne_of_foreign {d : Declaration} (h : m.Qualifiable ns)
    (hd : d ∈ m.declarations) (hforeign : d.ns ≠ ns) (x : String) : Name.qualify ns x ≠ d.name := by
  intro heq
  refine h.foreign d hd hforeign ⟨x.toList, ?_⟩
  rw [← heq, Name.toList_qualify h.ns_ne]
  simp

theorem Qualifiable.empty_not_mem (h : m.Qualifiable ns) : "" ∉ m.ownNames ns := by
  intro hmem
  obtain ⟨d, hd, hns, hname⟩ := mem_ownNames_iff_declaration.1 hmem
  exact (h.own d hd hns).1 hname

/-- A name means something of the namespace exactly if the namespace declares it. -/
theorem ownMeaning_ne_nil_iff : m.ownMeaning ns name ≠ [] ↔ name ∈ m.ownNames ns := by
  rw [ownMeaning, places_ne_nil_iff, mem_ownNames_iff_declaration]
  simp

/-- What a name means after qualifying, told in terms of the declarations before it. -/
theorem meaning_qualify (m : Model) (ns name : String) :
    (m.qualify ns).meaning name =
      m.places fun d => if d.ns = ns then Name.qualify ns d.name = name else d.name = name := by
  rw [meaning, places_qualify]
  refine places_congr fun d _ => ?_
  by_cases hns : d.ns = ns
  · rw [if_pos hns, Declaration.name_qualify hns]
  · rw [if_neg hns, Declaration.qualify_of_foreign hns]

/-- An own name means, under the namespace, the own declarations of that name. -/
theorem meaning_qualify_of_own (h : m.Qualifiable ns) (name : String) :
    (m.qualify ns).meaning (Name.qualify ns name) = m.ownMeaning ns name := by
  rw [meaning_qualify, ownMeaning]
  refine places_congr fun d hd => ?_
  by_cases hns : d.ns = ns
  · simp [hns, Name.qualify_inj h.ns_ne]
  · simp [hns, (h.ne_of_foreign hd hns name).symm]

/-- A name that no own declaration takes means what it meant. -/
theorem meaning_qualify_of_ne (hown : name ∉ m.ownNames ns)
    (hne : ∀ x ∈ m.ownNames ns, Name.qualify ns x ≠ name) :
    (m.qualify ns).meaning name = m.meaning name := by
  rw [meaning_qualify, meaning]
  refine places_congr fun d hd => ?_
  by_cases hns : d.ns = ns
  · have hmem : d.name ∈ m.ownNames ns := mem_ownNames_iff_declaration.2 ⟨d, hd, hns, rfl⟩
    have hname : d.name ≠ name := fun heq => hown (heq ▸ hmem)
    simp [hns, hne d.name hmem, hname]
  · simp [hns]

/-- A requalified reference means what it meant. -/
theorem referenceKept_requalify (h : m.Qualifiable ns) (name : String) :
    ReferenceKept m (m.qualify ns) ns name (requalify (m.ownNames ns) ns name) where
  own := by
    intro hown
    rw [requalify, if_pos (ownMeaning_ne_nil_iff.1 hown)]
    exact meaning_qualify_of_own h name
  foreign := by
    intro hown hmeaning
    have hnot : name ∉ m.ownNames ns := fun hmem => ownMeaning_ne_nil_iff.2 hmem hown
    rw [requalify_of_not_mem hnot]
    refine ⟨rfl, meaning_qualify_of_ne hnot fun x _ => ?_⟩
    -- the name is that of a foreign declaration
    obtain ⟨d, hd, hname⟩ := places_ne_nil_iff.1 hmeaning
    have hname : d.name = name := by simpa using hname
    rw [← hname] at hnot ⊢
    exact h.ne_of_foreign hd (fun hns => hnot (mem_ownNames_iff_declaration.2 ⟨d, hd, hns, rfl⟩)) x
  nothing := by
    intro hmeaning
    have hnot : name ∉ m.ownNames ns := by
      intro hmem
      obtain ⟨d, hd, _, hname⟩ := mem_ownNames_iff_declaration.1 hmem
      simpa [hname] using places_eq_nil_iff.1 hmeaning d hd
    rw [requalify_of_not_mem hnot]
    refine ⟨rfl, fun hnew => ?_⟩
    by_contra hnone
    refine hnew ?_
    rw [meaning_qualify_of_ne hnot, hmeaning]
    intro x hx heq
    exact hnone ⟨x, hx, heq.symm.trans (qualify_eq_append h.ns_ne x)⟩

/-- Putting declarations under a namespace keeps what the references of these declarations mean, and
changes nothing else but their names. -/
theorem bindingsKept_qualify (h : m.Qualifiable ns) : BindingsKept m (m.qualify ns) ns where
  file := rfl
  rootNs := rfl
  declarations := by
    rw [declarations_qualify, List.forall₂_map_right_iff]
    refine List.forall₂_same.2 fun d hd => ?_
    refine ⟨Declaration.qualify_of_foreign, fun hns => ?_, fun hns => ?_,
      Declaration.blank_qualify⟩
    · rw [Declaration.name_qualify hns, qualify_eq_append h.ns_ne]
    · rw [Declaration.references_qualify hns h.empty_not_mem, List.forall₂_map_right_iff]
      exact List.forall₂_same.2 fun name _ => referenceKept_requalify h name

/-! ## Models that are qualified -/

/-- The placements, read off the declarations. -/
theorem placements_eq_map (m : Model) :
    m.placements = m.declarations.map fun d => (d.ns, d.name) := by
  simp only [placements, declarations, List.map_append, List.map_map]
  rfl

/-- A name under one namespace does not look like a name under another one. -/
theorem not_prefix_of_isUnder {d : String × String} (hroot : '.' ∉ ns.toList) (hd : IsUnder d)
    (hdot : '.' ∉ d.1.toList) (hne : d.1 ≠ ns) : ¬(ns ++ ".").toList <+: d.2.toList := by
  rintro ⟨rest, hrest⟩
  obtain ⟨name, hid, hname⟩ := hd
  rw [String.toList_append, List.append_assoc] at hrest
  change ns.toList ++ '.' :: rest = d.2.toList at hrest
  have hbare := Name.dot_not_mem_of_isIdentifier hid
  by_cases hflat : d.1 = ""
  · rw [hname, hflat, Name.qualify_empty] at hrest
    exact hbare (hrest ▸ by simp)
  · rw [hname, Name.toList_qualify hflat] at hrest
    -- both namespaces are what stands before the first dot
    have hbefore : ∀ cs : List Char, '.' ∉ cs → ∀ c ∈ cs, decide (c ≠ '.') = true := by
      intro cs hcs c hc
      exact decide_eq_true fun heq => hcs (heq ▸ hc)
    have hfirst := congrArg (List.takeWhile (· ≠ '.')) hrest
    rw [List.takeWhile_append_of_pos (hbefore _ hroot),
      List.takeWhile_append_of_pos (hbefore _ hdot)] at hfirst
    exact hne (String.toList_inj.1 (by simpa using hfirst.symm))

/-- A model whose declarations stand where they should can be qualified. -/
theorem Placed.qualifiable (h : m.Placed) (hns : m.rootNs ≠ "") (hroot : '.' ∉ m.rootNs.toList)
    (hdot : ∀ d ∈ m.placements, '.' ∉ d.1.toList) : m.Qualifiable m.rootNs := by
  have hplaced : ∀ d ∈ m.declarations, (d.ns, d.name) ∈ m.placements := by
    intro d hd
    rw [placements_eq_map]
    exact List.mem_map_of_mem hd
  refine ⟨hns, fun d hd hown => ?_, fun d hd hforeign => ?_⟩
  · rcases h _ (hplaced d hd) with ⟨_, hid⟩ | ⟨hne, _⟩
    · refine ⟨fun hempty => ?_, Name.dot_not_mem_of_isIdentifier hid⟩
      simp only [hempty] at hid
      cases hid
    · exact absurd hown hne
  · rcases h _ (hplaced d hd) with ⟨hown, _⟩ | ⟨_, hunder⟩
    · exact absurd hown hforeign
    · exact not_prefix_of_isUnder hroot hunder (hdot _ (hplaced d hd)) hforeign

theorem Within.ns_of_mem {d : String × String} (h : m.Within ns) (hd : d ∈ m.placements) :
    d.1 = ns := by
  revert d
  simp only [placements, List.forall_mem_append, List.forall_mem_map]
  exact ⟨⟨h.structs, h.enums⟩, h.interfaces⟩

/-- What is declared in a gathered model is declared in one of the parts. -/
theorem Gathers.mem_placements {parts : List Model} {result : Model} {d : String × String}
    (h : m.Gathers parts result) (hd : d ∈ result.placements) :
    d ∈ m.placements ∨ ∃ part ∈ parts, d ∈ part.placements := by
  simp only [placements, h.structs, h.enums, h.interfaces, List.map_append, List.map_flatMap,
    List.mem_append, List.mem_flatMap] at hd ⊢
  grind

end Model

namespace Imports

variable {g : Graph} {chain : List Path} {r r' : Registry} {p : Path} {m : Model}

/-- A namespace that a file declares is an identifier. -/
theorem Graph.isIdentifier_of_declares {ns : String} (h : g.Declares p ns) :
    Name.isIdentifier ns = true := by
  obtain ⟨f, ⟨u, _, hf⟩, d, hd, rfl⟩ := h
  obtain ⟨e, he, hed⟩ := List.mem_filterMap.1 hd
  cases e with
  | namespaceDecl d' =>
    cases hed
    exact Parser.names_of_parse hf _ he
  | _ => cases hed

/-- The namespace of a file is an identifier and has no dot. -/
theorem Graph.dot_not_mem_rootNs (h : g.lowered? p = some m) : '.' ∉ m.rootNs.toList := by
  by_cases hns : m.rootNs = ""
  · rw [hns]
    simp
  · exact Name.dot_not_mem_of_isIdentifier (isIdentifier_of_declares ((declares_iff h hns).2 rfl))

/-- The declarations that a resolution has gathered carry namespaces without dots. -/
theorem FileDone.dot_not_mem {visited : List Path} (h : FileDone g chain r r' p m visited)
    (hr : Consistent g chain r) :
    '.' ∉ m.rootNs.toList ∧ ∀ d ∈ m.placements, '.' ∉ d.1.toList := by
  have hlowered : ∀ q ∈ p :: visited, (g.own q).OfOneFile ∧ '.' ∉ (g.own q).rootNs.toList := by
    intro q hq
    obtain ⟨mq, hmq⟩ := (h.settled hr hq).lowered
    rw [Graph.own_eq hmq]
    exact ⟨Graph.ofOneFile_of_lowered? hmq, Graph.dot_not_mem_rootNs hmq⟩
  refine ⟨h.gathers.rootNs ▸ (hlowered p List.mem_cons_self).2, fun d hd => ?_⟩
  rcases h.gathers.mem_placements hd with hd | ⟨part, hpart, hd⟩
  · obtain ⟨hone, hdot⟩ := hlowered p List.mem_cons_self
    rwa [hone.toWithin.ns_of_mem hd]
  · obtain ⟨q, hq, rfl⟩ := List.mem_map.1 hpart
    obtain ⟨hone, hdot⟩ := hlowered q (List.mem_cons_of_mem _ hq)
    rwa [hone.toWithin.exported.ns_of_mem hd]

/-- In a consistent registry the owners are included and off the chain. -/
theorem Consistent.ownersLeft (h : Consistent g chain r) : OwnersLeft chain r := by
  intro ns q hq
  obtain ⟨hinc, hoff, _⟩ := h.owners ns q hq
  have hnormal := h.normal q hinc
  exact ⟨(h.includes_iff hnormal).2 hinc, fun hmem => hoff ((h.onChain_iff hnormal).1 hmem)⟩

/-- A file that is resolved when it is ready has a model in which the declarations stand where they
should. -/
theorem FileReady.placed {depth : Nat} {u : SourceUnit} {st st' : Progress}
    (h : FileReady g depth chain u st) (hroot : g.root.path.IsNormalForm)
    (hfile : resolveFile g.disk chain u st = (.ok m, st')) : m.Placed := by
  have hnormal : u.path.IsNormalForm := (h.trail.reachable (by simp)).isNormalForm hroot
  refine ((resolve_keeps g.disk).1 chain u st m st' hfile ?_ ?_ h.consistent.ownersLeft).placed
  · exact fun hmem =>
      h.new (h.consistent.chain_subset ((h.consistent.onChain_iff hnormal).1 hmem))
  · exact fun hinc => h.new ((h.consistent.includes_iff hnormal).1 hinc)

/-- A model that is merged with a namespace can be put under it. -/
theorem qualifiable_of_merge {disk : Disk} {baseDir : Option Path} {name text : String}
    {mo : Moment} (hmo : mo ∈ (trace disk baseDir name text).1) (hmerge : mo.action = .merge m)
    (hns : m.rootNs ≠ "") : m.Qualifiable m.rootNs := by
  obtain ⟨path, hpath, hwithin⟩ := within_of_mem_trace hmo
  have hroot := isNormalForm_of_locate hpath
  cases hwithin with
  | merge hready hfile =>
    cases hmerge
    obtain ⟨visited, hdone⟩ := hready.done hroot hfile
    obtain ⟨hdot, hdots⟩ := hdone.dot_not_mem hready.consistent
    exact (hready.placed hroot hfile).qualifiable hns hdot hdots
  | _ => cases hmerge

/-- Putting the declarations of a namespace under it keeps what their references mean and changes
nothing else but their names, if the own names are bare and no other declaration looks as if it
stood there; and all models that are put under their namespace in a resolution are such. -/
theorem bindings_kept :
    (∀ (m : Model) (ns : String), m.Qualifiable ns → Model.BindingsKept m (m.qualify ns) ns) ∧
      ∀ (disk : Disk) (baseDir : Option Path) (name text : String),
        ∀ mo ∈ (trace disk baseDir name text).1, ∀ sub, mo.action = .merge sub →
          sub.rootNs ≠ "" → sub.Qualifiable sub.rootNs :=
  ⟨fun _ _ h => Model.bindingsKept_qualify h,
    fun _ _ _ _ _ hmo _ hmerge hns => qualifiable_of_merge hmo hmerge hns⟩

/-- A struct that refers to itself below two layers, to an enum beside it, and to two names that the
file does not declare, one of which it could have under its namespace. -/
theorem bindings_kept_of_struct :
    ∃ mo ∈ (trace (FileTree.toDisk ⟨[(["b"], .file
        "namespace b struct S { s []map[string]S e E x b.E y c.Y } enum E { }".toUTF8)],
          .present []⟩) none "/a" "import \"b\"").1,
      ∃ sub, mo.action = .merge sub ∧ sub.rootNs = "b" ∧
        sub.declarations.map (·.references) = [["S", "E", "b.E", "c.Y"], []] ∧
        (sub.qualify "b").declarations.map (·.references) = [["b.S", "b.E", "b.E", "c.Y"], []] ∧
        Model.BindingsKept sub (sub.qualify "b") "b" := by
  have hread : (FileTree.toDisk ⟨[(["b"], .file
      "namespace b struct S { s []map[string]S e E x b.E y c.Y } enum E { }".toUTF8)],
        .present []⟩).read ⟨"/b"⟩ =
      .ok "namespace b struct S { s []map[string]S e E x b.E y c.Y } enum E { }" := by
    decide +kernel
  have hload : (⟨⟨"/a"⟩, "/a", "import \"b\""⟩ : SourceUnit).load.1.toOption =
      some (⟨"/a", "", [], [], []⟩, [⟨"b", ⟨"/a", 1, 1, 0⟩, 10⟩]) := by
    decide +kernel
  have hsub : ∃ sub, (⟨⟨"/b"⟩, "/b",
      "namespace b struct S { s []map[string]S e E x b.E y c.Y } enum E { }"⟩ :
        SourceUnit).load.1.toOption = some (sub, []) ∧ sub.rootNs = "b" ∧
      sub.declarations.map (·.references) = [["S", "E", "b.E", "c.Y"], []] ∧
      (sub.qualify "b").declarations.map (·.references) = [["b.S", "b.E", "b.E", "c.Y"], []] := by
    refine ⟨⟨"/b", "b", [], [⟨"S", "b", "",
      [⟨"s", .array (.mapOf (.named ⟨"S", ⟨"/b", 1, 39, 38⟩⟩)), false, "", ⟨"/b", 1, 24, 23⟩⟩,
      ⟨"e", .named ⟨"E", ⟨"/b", 1, 43, 42⟩⟩, false, "", ⟨"/b", 1, 41, 40⟩⟩,
      ⟨"x", .named ⟨"b.E", ⟨"/b", 1, 47, 46⟩⟩, false, "", ⟨"/b", 1, 45, 44⟩⟩,
      ⟨"y", .named ⟨"c.Y", ⟨"/b", 1, 53, 52⟩⟩, false, "", ⟨"/b", 1, 51, 50⟩⟩], "",
      ⟨"/b", 1, 13, 12⟩⟩], [⟨"E", "b", [], "", ⟨"/b", 1, 59, 58⟩⟩]⟩, ?_⟩
    decide +kernel
  obtain ⟨sub, hsub, hns, hrefs, hrefs'⟩ := hsub
  have hne : sub.rootNs ≠ "" := by
    rw [hns]
    decide
  obtain ⟨es, hmoments⟩ := moments_of_first_import rfl hload (by decide +kernel)
    (by decide +kernel) hread hsub hne
  have hmem : ∃ mo ∈ (trace (FileTree.toDisk ⟨[(["b"], .file
      "namespace b struct S { s []map[string]S e E x b.E y c.Y } enum E { }".toUTF8)],
        .present []⟩) none "/a" "import \"b\"").1, mo.action = .merge sub := by
    rw [hmoments]
    exact ⟨⟨1, [⟨"/a"⟩], ⟨[(sub.rootNs, ⟨"/b"⟩)], [⟨"/a"⟩, ⟨"/b"⟩]⟩, .merge sub⟩, by simp, rfl⟩
  obtain ⟨mo, hmo, hmerge⟩ := hmem
  have hqualifiable := bindings_kept.2 _ none "/a" "import \"b\"" mo hmo sub hmerge hne
  rw [hns] at hqualifiable
  exact ⟨mo, hmo, sub, hmerge, hns, hrefs, hrefs', bindings_kept.1 sub "b" hqualifiable⟩

end Imports

end InterfaceLang
