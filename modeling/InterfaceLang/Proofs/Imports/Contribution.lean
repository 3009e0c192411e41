import InterfaceLang.Model.Lowering
import InterfaceLang.Model.Qualify
import InterfaceLang.Proofs.Grammar.Names

/-!
# What an imported file contributes

Seen from outside, the declarations of a file that has a namespace stand under it: the namespace
and a dot come before the name of each declaration and before each reference to a name that the
same file declares. All else is as in the file. A merged model gathers such contributions one after
another.

Results:
* `Model.placements_toModel`: the declarations of a file carry its namespace, and their names are
  identifiers.
* `Gathers.merge`: merging a model that has gathered contributions adds the contribution of its own
  file and then those it has gathered; qualifying touches none of these a second time.
-/

namespace InterfaceLang

/-- The names that a model declares. -/
def Model.declaredNames (m : Model) : List String :=
  m.structs.map (·.name) ++ m.enums.map (·.name) ++ m.interfaces.map (·.name)

/-- The namespace and the name of each declaration. -/
def Model.placements (m : Model) : List (String × String) :=
  m.structs.map (fun s => (s.ns, s.name)) ++ m.enums.map (fun e => (e.ns, e.name)) ++
    m.interfaces.map (fun i => (i.ns, i.name))

/-- The declared names, read off the placements. -/
theorem Model.map_snd_placements (m : Model) : m.placements.map (·.2) = m.declaredNames := by
  simp [placements, declaredNames, Function.comp_def]

/-! ## Declarations under a namespace -/

/-- A reference from a file that declares `names`, as it reads under the namespace of the file. -/
def referenceUnder (names : List String) (ns name : String) : String :=
  if name ∈ names then ns ++ "." ++ name else name

/-- A type that a file mentions, under the namespace of the file: the layers stay, and the reference
below them follows. -/
def TypeExpr.under (names : List String) (ns : String) : TypeExpr → TypeExpr
  | .builtIn b => .builtIn b
  | .array element => .array (element.under names ns)
  | .mapOf value => .mapOf (value.under names ns)
  | .named r => .named { r with name := referenceUnder names ns r.name }

/-- The leaf of a type follows the reference, whatever layers lie above it. -/
@[simp]
theorem TypeExpr.leaf_under (names : List String) (ns : String) (t : TypeExpr) :
    (t.under names ns).leaf =
      t.leaf.map fun r => { r with name := referenceUnder names ns r.name } := by
  induction t with
  | builtIn => rfl
  | array element ih => exact ih
  | mapOf value ih => exact ih
  | named => rfl

/-- A struct under the namespace of its file. A struct without a parent stays so. -/
def Struct.under (names : List String) (ns : String) (s : Struct) : Struct :=
  { s with
    name := ns ++ "." ++ s.name
    parent := if s.parent = "" then "" else referenceUnder names ns s.parent
    fields := s.fields.map fun f => { f with type := f.type.under names ns } }

/-- An enum under the namespace of its file. -/
def Enum.under (ns : String) (e : Enum) : Enum :=
  { e with name := ns ++ "." ++ e.name }

/-- A method, its types under the namespace of the file. -/
def Method.under (names : List String) (ns : String) (m : Method) : Method :=
  { m with
    returns := m.returns.map fun t => t.under names ns
    parameters := m.parameters.map fun p => { p with type := p.type.under names ns } }

/-- An interface under the namespace of its file. -/
def Interface.under (names : List String) (ns : String) (i : Interface) : Interface :=
  { i with
    name := ns ++ "." ++ i.name
    methods := i.methods.map fun m => m.under names ns }

namespace Model

/-- The declarations of a file as other files see them: unchanged if the file has no namespace. -/
def exported (m : Model) : Model :=
  if m.rootNs = "" then m
  else
    { m with
      structs := m.structs.map (Struct.under m.declaredNames m.rootNs)
      enums := m.enums.map (Enum.under m.rootNs)
      interfaces := m.interfaces.map (Interface.under m.declaredNames m.rootNs) }

/-- All declarations of a model carry the namespace `ns`. -/
structure Within (m : Model) (ns : String) : Prop where
  structs : ∀ s ∈ m.structs, s.ns = ns
  enums : ∀ e ∈ m.enums, e.ns = ns
  interfaces : ∀ i ∈ m.interfaces, i.ns = ns

/-- A model of one file alone: its declarations carry its namespace and have names. -/
structure OfOneFile (m : Model) : Prop extends Within m m.rootNs where
  named : "" ∉ m.declaredNames

/-- The declarations of `result` are those of `m`, then those of each part in turn. -/
structure Gathers (m : Model) (parts : List Model) (result : Model) : Prop where
  rootNs : result.rootNs = m.rootNs
  structs : result.structs = m.structs ++ parts.flatMap (·.structs)
  enums : result.enums = m.enums ++ parts.flatMap (·.enums)
  interfaces : result.interfaces = m.interfaces ++ parts.flatMap (·.interfaces)

/-! ## Models of one file -/

/-- The declarations of a file carry its namespace, and their names are identifiers. -/
theorem placements_toModel {f : SourceFile} {text : String} {m : Model}
    (hnames : ∀ e ∈ f.elements, e.NamesSatisfy fun name => Name.isIdentifier name = true)
    (h : f.toModel text = .ok m) :
    ∀ d ∈ m.placements, d.1 = m.rootNs ∧ Name.isIdentifier d.2 = true := by
  unfold SourceFile.toModel at h
  cases hd : f.namespaceDecl? text with
  | error e =>
    rw [hd] at h
    cases h
  | ok decl =>
    rw [hd] at h
    cases h
    -- each declared name is the name of an element
    simp only [placements, List.map_map, List.forall_mem_append, List.forall_mem_map,
      List.mem_filterMap, Function.comp_apply]
    refine ⟨⟨?_, ?_⟩, ?_⟩
    · rintro d ⟨e, he, hde⟩
      cases e with
      | structDecl d' =>
        cases hde
        exact ⟨rfl, (hnames _ he).1⟩
      | _ => cases hde
    · rintro d ⟨e, he, hde⟩
      cases e with
      | enumDecl d' =>
        cases hde
        exact ⟨rfl, (hnames _ he).1⟩
      | _ => cases hde
    · rintro d ⟨e, he, hde⟩
      cases e with
      | interfaceDecl d' =>
        cases hde
        exact ⟨rfl, (hnames _ he).1⟩
      | _ => cases hde

/-- What is lowered from names that are identifiers is the model of one file. -/
theorem ofOneFile_toModel {f : SourceFile} {text : String} {m : Model}
    (hnames : ∀ e ∈ f.elements, e.NamesSatisfy fun name => Name.isIdentifier name = true)
    (h : f.toModel text = .ok m) : m.OfOneFile := by
  have hplaced := placements_toModel hnames h
  have hnamed : "" ∉ m.declaredNames := by
    rw [← map_snd_placements]
    intro hmem
    obtain ⟨d, hd, hempty⟩ := List.mem_map.1 hmem
    have hid := (hplaced d hd).2
    rw [hempty] at hid
    cases hid
  simp only [placements, List.forall_mem_append, List.forall_mem_map] at hplaced
  obtain ⟨⟨hstructs, henums⟩, hinterfaces⟩ := hplaced
  exact ⟨⟨fun s hs => (hstructs s hs).1, fun e he => (henums e he).1,
    fun i hi => (hinterfaces i hi).1⟩, hnamed⟩

/-- Other files see the declarations in the same namespace. -/
theorem Within.exported {m : Model} {ns : String} (h : m.Within ns) : m.exported.Within ns := by
  unfold Model.exported
  split
  · exact h
  · refine ⟨?_, ?_, ?_⟩
    · intro s hs
      obtain ⟨s', hs', rfl⟩ := List.mem_map.1 hs
      exact h.structs s' hs'
    · intro e he
      obtain ⟨e', he', rfl⟩ := List.mem_map.1 he
      exact h.enums e' he'
    · intro i hi
      obtain ⟨i', hi', rfl⟩ := List.mem_map.1 hi
      exact h.interfaces i' hi'

end Model

/-! ## Qualifying own and foreign declarations -/

section Qualify

variable {names : List String} {ns : String}

theorem qualify_eq_append (hns : ns ≠ "") (name : String) :
    Name.qualify ns name = ns ++ "." ++ name :=
  if_neg hns

/-- A reference is requalified as it reads under the namespace. -/
theorem requalify_eq_referenceUnder (hns : ns ≠ "") :
    requalify names ns = referenceUnder names ns := by
  funext name
  unfold requalify referenceUnder
  rw [qualify_eq_append hns]

/-- Following the own names in a type puts its reference under the namespace. -/
theorem TypeExpr.requalify_eq_under (hns : ns ≠ "") (t : TypeExpr) :
    t.requalify names ns = t.under names ns := by
  rw [requalify, requalify_eq_referenceUnder hns]
  induction t with
  | builtIn => rfl
  | array element ih => exact congrArg array ih
  | mapOf value ih => exact congrArg mapOf ih
  | named => rfl

/-- A method is requalified to what it is under the namespace. -/
theorem Method.requalify_eq_under (hns : ns ≠ "") (m : Method) :
    m.requalify names ns = m.under names ns := by
  have htype : TypeExpr.requalify names ns = TypeExpr.under names ns :=
    funext (TypeExpr.requalify_eq_under hns)
  unfold Method.requalify Method.under
  rw [htype]

/-- Qualifying a struct of the namespace puts it under it. That no declared name is empty keeps an
absent parent absent. -/
theorem Struct.qualify_eq_under {s : Struct} (hns : ns ≠ "") (hs : s.ns = ns)
    (hnames : "" ∉ names) : s.qualify names ns = s.under names ns := by
  have hparent : InterfaceLang.requalify names ns s.parent =
      if s.parent = "" then "" else referenceUnder names ns s.parent := by
    rw [requalify_eq_referenceUnder hns]
    split
    · next hempty => rw [hempty, referenceUnder, if_neg hnames]
    · rfl
  have htype : TypeExpr.requalify names ns = TypeExpr.under names ns :=
    funext (TypeExpr.requalify_eq_under hns)
  unfold Struct.qualify Struct.under
  rw [if_pos hs, qualify_eq_append hns, hparent, htype]

theorem Enum.qualify_eq_under {e : Enum} (hns : ns ≠ "") (he : e.ns = ns) :
    e.qualify ns = e.under ns := by
  rw [Enum.qualify, if_pos he, qualify_eq_append hns, Enum.under]

theorem Interface.qualify_eq_under {i : Interface} (hns : ns ≠ "") (hi : i.ns = ns) :
    i.qualify names ns = i.under names ns := by
  have hmethod : Method.requalify names ns = Method.under names ns :=
    funext (Method.requalify_eq_under hns)
  rw [Interface.qualify, if_pos hi, qualify_eq_append hns, Interface.under, hmethod]

/-- A list of own items and then foreign ones: what qualifies the own ones and leaves the foreign
ones alone changes the first part only. -/
theorem map_append_of_foreign {α : Type} {own foreign : List α} {f h : α → α}
    (hown : ∀ a ∈ own, f a = h a) (hforeign : ∀ a ∈ foreign, f a = a) :
    (own ++ foreign).map f = own.map h ++ foreign := by
  rw [List.map_append, List.map_congr_left hown, List.map_congr_left hforeign, List.map_id']

/-- The items of a namespace among own items and then foreign ones are the own ones. -/
theorem filter_append_of_foreign {α : Type} {own foreign : List α} {nsOf : α → String}
    (hown : ∀ a ∈ own, nsOf a = ns) (hforeign : ∀ a ∈ foreign, nsOf a ≠ ns) :
    (own ++ foreign).filter (fun a => nsOf a = ns) = own := by
  rw [List.filter_append, List.filter_eq_self.2 (by simpa using hown),
    List.filter_eq_nil_iff.2 (by simpa using hforeign), List.append_nil]

end Qualify

namespace Model.Gathers

variable {m own sub result : Model} {parts more : List Model}

/-- A model gathers itself from no parts. -/
theorem refl (m : Model) : m.Gathers [] m :=
  ⟨rfl, by simp, by simp, by simp⟩

/-- What was gathered can be gathered further. -/
theorem trans (h : m.Gathers parts sub) (h' : sub.Gathers more result) :
    m.Gathers (parts ++ more) result where
  rootNs := h'.rootNs.trans h.rootNs
  structs := by rw [h'.structs, h.structs, List.flatMap_append, List.append_assoc]
  enums := by rw [h'.enums, h.enums, List.flatMap_append, List.append_assoc]
  interfaces := by rw [h'.interfaces, h.interfaces, List.flatMap_append, List.append_assoc]

/-- The items of contributions that lie in other namespaces carry other namespaces. -/
theorem ns_ne_of_mem_flatMap {α : Type} {items : Model → List α} {nsOf : α → String} {ns : String}
    (hitems : ∀ (c : Model) (ns' : String), c.Within ns' → ∀ a ∈ items c, nsOf a = ns')
    (hforeign : ∀ c ∈ parts, ∃ ns', c.Within ns' ∧ ns' ≠ ns) :
    ∀ a ∈ parts.flatMap items, nsOf a ≠ ns := by
  intro a ha
  obtain ⟨c, hc, hac⟩ := List.mem_flatMap.1 ha
  obtain ⟨ns', hwithin, hne⟩ := hforeign c hc
  rw [hitems c ns' hwithin a hac]
  exact hne

/-- Importing a model that has gathered foreign contributions qualifies the declarations of its own
file and no others. -/
theorem imported (h : own.Gathers parts sub) (hown : own.OfOneFile)
    (hforeign : own.rootNs ≠ "" → ∀ c ∈ parts, ∃ ns, c.Within ns ∧ ns ≠ own.rootNs) :
    own.exported.Gathers parts sub.imported := by
  unfold Model.imported Model.exported
  rw [h.rootNs]
  by_cases hns : own.rootNs = ""
  · rw [if_pos hns, if_pos hns]
    exact h
  · rw [if_neg hns, if_neg hns]
    have hs := ns_ne_of_mem_flatMap (fun _ _ hwithin => hwithin.structs) (hforeign hns)
    have he := ns_ne_of_mem_flatMap (fun _ _ hwithin => hwithin.enums) (hforeign hns)
    have hi := ns_ne_of_mem_flatMap (fun _ _ hwithin => hwithin.interfaces) (hforeign hns)
    have hnames : sub.ownNames own.rootNs = own.declaredNames := by
      unfold Model.ownNames Model.declaredNames
      rw [h.structs, h.enums, h.interfaces, filter_append_of_foreign hown.structs hs,
        filter_append_of_foreign hown.enums he, filter_append_of_foreign hown.interfaces hi]
    refine ⟨h.rootNs, ?_, ?_, ?_⟩
    · show sub.structs.map _ = _
      rw [hnames, h.structs]
      exact map_append_of_foreign
        (fun s hmem => Struct.qualify_eq_under hns (hown.structs s hmem) hown.named)
        fun s hmem => if_neg (hs s hmem)
    · show sub.enums.map _ = _
      rw [h.enums]
      exact map_append_of_foreign (fun e hmem => Enum.qualify_eq_under hns (hown.enums e hmem))
        fun e hmem => if_neg (he e hmem)
    · show sub.interfaces.map _ = _
      rw [hnames, h.interfaces]
      exact map_append_of_foreign
        (fun i hmem => Interface.qualify_eq_under hns (hown.interfaces i hmem))
        fun i hmem => if_neg (hi i hmem)

/-- Merging a model that has gathered contributions adds the contribution of its own file and then
those, none of which is qualified a second time. -/
theorem merge (h : own.Gathers parts sub) (hown : own.OfOneFile)
    (hforeign : own.rootNs ≠ "" → ∀ c ∈ parts, ∃ ns, c.Within ns ∧ ns ≠ own.rootNs) :
    m.Gathers (own.exported :: parts) (m.merge sub) := by
  have himp := h.imported hown hforeign
  refine ⟨rfl, ?_, ?_, ?_⟩
  · rw [List.flatMap_cons, ← himp.structs]
    rfl
  · rw [List.flatMap_cons, ← himp.enums]
    rfl
  · rw [List.flatMap_cons, ← himp.interfaces]
    rfl

end Model.Gathers

end InterfaceLang
