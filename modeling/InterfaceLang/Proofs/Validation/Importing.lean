import InterfaceLang.Proofs.Imports.Placement
import InterfaceLang.Proofs.Validation.Renaming

/-!
# Being imported

Importing a file puts its own declarations under its namespace and lets the references among them
follow, but it leaves the declarations alone that the file itself has imported. If one of these
refers to a bare name of the file, the reference is lost. If none does, putting the declarations
under the namespace renames them consistently, and the model stays accepted.

Results:
* `Model.qualify_eq_rename`: without such references, qualifying is renaming.
* `Imports.validate_imported_iff`: an accepted file stays accepted when it is imported exactly if
  what it imports does not refer to it.
-/

namespace InterfaceLang

theorem Name.isWordChar_of_isIdentifier {name : String} (h : Name.isIdentifier name = true) :
    ∀ c ∈ name.toList, isWordChar c = true := by
  unfold isIdentifier at h
  cases hcs : name.toList with
  | nil => simp
  | cons c cs =>
    rw [hcs, isWord, Bool.and_eq_true, List.all_eq_true] at h
    exact List.forall_mem_cons.2 ⟨isWordChar_iff.2 (.inl h.1), h.2⟩

theorem Name.dot_not_mem_of_isIdentifier {name : String} (h : Name.isIdentifier name = true) :
    '.' ∉ name.toList := by
  intro hmem
  exact absurd (isWordChar_of_isIdentifier h '.' hmem) (by decide)

/-- A name under a namespace is no identifier. -/
theorem Name.not_isIdentifier_qualify {ns : String} (hns : ns ≠ "") (name : String) :
    ¬Name.isIdentifier (Name.qualify ns name) = true := by
  intro h
  refine dot_not_mem_of_isIdentifier h ?_
  rw [toList_qualify hns]
  simp

theorem TypeExpr.mem_names_iff {t : TypeExpr} {name : String} :
    name ∈ t.names ↔ ∃ r, t.leaf = some r ∧ r.name = name := by
  simp [names]

namespace Model

/-- No declaration of another namespace refers to a name that is declared in `ns`. -/
structure NoReferenceInto (m : Model) (ns : String) : Prop where
  parents : ∀ s ∈ m.structs, s.ns ≠ ns → s.parent ∉ m.ownNames ns
  fields : ∀ s ∈ m.structs, s.ns ≠ ns → ∀ f ∈ s.fields, ∀ name ∈ f.type.names,
    name ∉ m.ownNames ns
  methods : ∀ i ∈ m.interfaces, i.ns ≠ ns → ∀ f ∈ i.methods, ∀ t ∈ f.types, ∀ name ∈ t.names,
    name ∉ m.ownNames ns

variable {m : Model} {ns name : String} {d : String × String}

/-! ## Own names -/

theorem exists_placement (h : name ∈ m.declaredNames) : ∃ d ∈ m.placements, d.2 = name := by
  rw [← map_snd_placements] at h
  exact List.mem_map.1 h

theorem mem_ownNames_iff : name ∈ m.ownNames ns ↔ (ns, name) ∈ m.placements := by
  simp [ownNames, placements, and_assoc]

/-- If no name is declared twice, the names of other namespaces are not own names. -/
theorem mem_ownNames_iff_of_mem (hdistinct : m.declaredNames.Nodup) (hd : d ∈ m.placements) :
    d.2 ∈ m.ownNames ns ↔ d.1 = ns := by
  rw [mem_ownNames_iff]
  constructor
  · intro hmem
    rw [← map_snd_placements] at hdistinct
    exact congrArg Prod.fst (List.inj_on_of_nodup_map hdistinct hd hmem rfl)
  · rintro rfl
    exact hd

theorem isIdentifier_of_mem_ownNames (hplaced : m.Placed) (h : name ∈ m.ownNames m.rootNs) :
    Name.isIdentifier name = true := by
  rcases hplaced _ (mem_ownNames_iff.1 h) with ⟨_, hid⟩ | ⟨hne, _⟩
  · exact hid
  · exact absurd rfl hne

theorem requalify_of_mem (hdistinct : m.declaredNames.Nodup) (hd : d ∈ m.placements) :
    requalify (m.ownNames ns) ns d.2 = if d.1 = ns then Name.qualify ns d.2 else d.2 := by
  simp only [requalify, mem_ownNames_iff_of_mem hdistinct hd]

/-- A name of another namespace is not an own name put under the namespace. -/
theorem ne_qualify_of_isUnder (hns : ns ≠ "") (hd : IsUnder d) (hne : d.1 ≠ ns)
    (hid : Name.isIdentifier name = true) : Name.qualify ns name ≠ d.2 := by
  intro heq
  obtain ⟨name', hid', hname⟩ := hd
  rw [hname] at heq
  by_cases hflat : d.1 = ""
  · rw [hflat, Name.qualify_empty] at heq
    exact Name.not_isIdentifier_qualify hns name (heq ▸ hid')
  · have hq := congrArg Name.qualifier heq
    rw [Name.qualifier_qualify hns (Name.dot_not_mem_of_isIdentifier hid),
      Name.qualifier_qualify hflat (Name.dot_not_mem_of_isIdentifier hid')] at hq
    exact hne hq.symm

/-- Putting the own names under the namespace makes no two declared names equal. -/
theorem injOn_requalify (hplaced : m.Placed) (hns : m.rootNs ≠ "")
    (hdistinct : m.declaredNames.Nodup) :
    Set.InjOn (requalify (m.ownNames m.rootNs) m.rootNs) {name | name ∈ m.declaredNames} := by
  intro a ha b hb heq
  obtain ⟨d, hd, rfl⟩ := exists_placement ha
  obtain ⟨e, he, rfl⟩ := exists_placement hb
  simp only [requalify_of_mem hdistinct hd, requalify_of_mem hdistinct he] at heq
  rcases hplaced d hd with ⟨hdns, hdid⟩ | ⟨hdns, hdunder⟩ <;>
    rcases hplaced e he with ⟨hens, heid⟩ | ⟨hens, heunder⟩
  · rw [if_pos hdns, if_pos hens] at heq
    have hbase := congrArg Name.base heq
    rwa [Name.base_qualify hns (Name.dot_not_mem_of_isIdentifier hdid),
      Name.base_qualify hns (Name.dot_not_mem_of_isIdentifier heid)] at hbase
  · rw [if_pos hdns, if_neg hens] at heq
    exact absurd heq (ne_qualify_of_isUnder hns heunder hens hdid)
  · rw [if_neg hdns, if_pos hens] at heq
    exact absurd heq.symm (ne_qualify_of_isUnder hns hdunder hdns heid)
  · rwa [if_neg hdns, if_neg hens] at heq

theorem isIdentifier_base_requalify (hplaced : m.Placed) (hns : m.rootNs ≠ "")
    (hdistinct : m.declaredNames.Nodup)
    (hformed : ∀ name ∈ m.declaredNames, Name.isIdentifier (Name.base name) = true) :
    ∀ name ∈ m.declaredNames,
      Name.isIdentifier (Name.base (requalify (m.ownNames m.rootNs) m.rootNs name)) = true := by
  intro name hname
  have hbase := hformed name hname
  obtain ⟨d, hd, rfl⟩ := exists_placement hname
  rw [requalify_of_mem hdistinct hd]
  rcases hplaced d hd with ⟨hdns, hdid⟩ | ⟨hdns, _⟩
  · rw [if_pos hdns, Name.base_qualify hns (Name.dot_not_mem_of_isIdentifier hdid)]
    exact hdid
  · rw [if_neg hdns]
    exact hbase

/-- An own name is no longer declared when the own declarations stand under the namespace. -/
theorem not_mem_declaredNames_qualify (hplaced : m.Placed) (hns : m.rootNs ≠ "")
    (hdistinct : m.declaredNames.Nodup) (h : name ∈ m.ownNames m.rootNs) :
    name ∉ (m.qualify m.rootNs).declaredNames := by
  intro hmem
  rw [← map_snd_placements, placements_qualify, List.map_map] at hmem
  obtain ⟨d, hd, rfl⟩ := List.mem_map.1 hmem
  have hid := isIdentifier_of_mem_ownNames hplaced h
  simp only [Function.comp_apply] at h hid
  by_cases hdns : d.1 = m.rootNs
  · rw [if_pos hdns] at hid
    exact Name.not_isIdentifier_qualify hns _ hid
  · rw [if_neg hdns] at h
    exact hdns ((mem_ownNames_iff_of_mem hdistinct hd).1 h)

end Model

/-! ## Qualifying as renaming -/

section Qualify

variable {own : List String} {ns : String}

theorem requalify_of_not_mem {name : String} (h : name ∉ own) : requalify own ns name = name :=
  if_neg h

theorem Struct.qualify_eq_rename {s : Struct} (hempty : "" ∉ own) (hown : s.name ∈ own ↔ s.ns = ns)
    (hparent : s.ns ≠ ns → s.parent ∉ own)
    (hfields : s.ns ≠ ns → ∀ f ∈ s.fields, ∀ name ∈ f.type.names, name ∉ own) :
    s.qualify own ns = s.rename (requalify own ns) := by
  by_cases hns : s.ns = ns
  · have hguard : requalify own ns s.parent =
        if s.parent = "" then "" else requalify own ns s.parent := by
      split
      · next h => rw [h, requalify_of_not_mem hempty]
      · rfl
    unfold Struct.qualify Struct.rename
    rw [if_pos hns, ← hguard, requalify, requalify, if_pos (hown.2 hns)]
    rfl
  · rw [Struct.qualify_eq_self_of_foreign hns]
    refine (Struct.rename_eq_self ?_ ?_ fun f hf r hr => ?_).symm
    · exact requalify_of_not_mem fun h => hns (hown.1 h)
    · exact requalify_of_not_mem (hparent hns)
    · exact requalify_of_not_mem (hfields hns f hf r.name (TypeExpr.mem_names_iff.2 ⟨r, hr, rfl⟩))

theorem Enum.qualify_eq_rename {e : Enum} (hown : e.name ∈ own ↔ e.ns = ns) :
    e.qualify ns = e.rename (requalify own ns) := by
  unfold Enum.qualify Enum.rename
  by_cases hns : e.ns = ns
  · rw [if_pos hns, requalify, if_pos (hown.2 hns)]
  · rw [if_neg hns, requalify_of_not_mem fun h => hns (hown.1 h)]

theorem Interface.qualify_eq_rename {i : Interface} (hown : i.name ∈ own ↔ i.ns = ns)
    (hmethods : i.ns ≠ ns → ∀ f ∈ i.methods, ∀ t ∈ f.types, ∀ name ∈ t.names, name ∉ own) :
    i.qualify own ns = i.rename (requalify own ns) := by
  by_cases hns : i.ns = ns
  · unfold Interface.qualify Interface.rename
    rw [if_pos hns, requalify, if_pos (hown.2 hns)]
    rfl
  · rw [Interface.qualify, if_neg hns]
    refine (Interface.rename_eq_self ?_ fun f hf t ht r hr => ?_).symm
    · exact requalify_of_not_mem fun h => hns (hown.1 h)
    · exact requalify_of_not_mem
        (hmethods hns f hf t ht r.name (TypeExpr.mem_names_iff.2 ⟨r, hr, rfl⟩))

end Qualify

namespace Model

variable {m : Model}

/-- Where nothing of another namespace refers into the own one, putting the own declarations under
the namespace is renaming them. -/
theorem qualify_eq_rename (hplaced : m.Placed) (hdistinct : m.declaredNames.Nodup)
    (h : m.NoReferenceInto m.rootNs) :
    m.qualify m.rootNs = m.rename (requalify (m.ownNames m.rootNs) m.rootNs) := by
  have hempty : "" ∉ m.ownNames m.rootNs := by
    intro hmem
    cases isIdentifier_of_mem_ownNames hplaced hmem
  have hown : ∀ d ∈ m.placements, d.2 ∈ m.ownNames m.rootNs ↔ d.1 = m.rootNs :=
    fun d hd => mem_ownNames_iff_of_mem hdistinct hd
  simp only [placements, List.forall_mem_append, List.forall_mem_map] at hown
  obtain ⟨⟨hstructs, henums⟩, hinterfaces⟩ := hown
  have hs : m.structs.map (Struct.qualify (m.ownNames m.rootNs) m.rootNs) =
      m.structs.map (Struct.rename (requalify (m.ownNames m.rootNs) m.rootNs)) :=
    List.map_congr_left fun s hs =>
      Struct.qualify_eq_rename hempty (hstructs s hs) (h.parents s hs) (h.fields s hs)
  have he : m.enums.map (Enum.qualify m.rootNs) =
      m.enums.map (Enum.rename (requalify (m.ownNames m.rootNs) m.rootNs)) :=
    List.map_congr_left fun e he => Enum.qualify_eq_rename (henums e he)
  have hi : m.interfaces.map (Interface.qualify (m.ownNames m.rootNs) m.rootNs) =
      m.interfaces.map (Interface.rename (requalify (m.ownNames m.rootNs) m.rootNs)) :=
    List.map_congr_left fun i hi =>
      Interface.qualify_eq_rename (hinterfaces i hi) (h.methods i hi)
  simp only [qualify, rename, hs, he, hi]

/-- If a model is still accepted with its own declarations under the namespace, then nothing of
another namespace refers to them. -/
theorem noReferenceInto_of_validate (hplaced : m.Placed) (hns : m.rootNs ≠ "")
    (hdistinct : m.declaredNames.Nodup) (h : validate (m.qualify m.rootNs) = .ok ()) :
    m.NoReferenceInto m.rootNs := by
  rw [validate_eq_ok_iff] at h
  simp only [Validation.violations, List.append_eq_nil_iff] at h
  obtain ⟨⟨⟨⟨_, hnames⟩, _⟩, hrefs⟩, _⟩ := h
  obtain ⟨htypes, hparents⟩ := (Validation.checkReferences_knows_eq_nil_iff hnames).1 hrefs
  have hlost : ∀ name ∈ m.ownNames m.rootNs, name ∉ (m.qualify m.rootNs).declaredNames :=
    fun name => not_mem_declaredNames_qualify hplaced hns hdistinct
  -- a declaration of another namespace is also one of the qualified model
  have hstruct : ∀ s ∈ m.structs, s.ns ≠ m.rootNs → s ∈ (m.qualify m.rootNs).structs :=
    fun s hs hne => List.mem_map.2 ⟨s, hs, Struct.qualify_eq_self_of_foreign hne⟩
  have hinterface : ∀ i ∈ m.interfaces, i.ns ≠ m.rootNs → i ∈ (m.qualify m.rootNs).interfaces :=
    fun i hi hne => List.mem_map.2 ⟨i, hi, if_neg hne⟩
  refine ⟨fun s hs hne hmem => ?_, fun s hs hne f hf name hname hmem => ?_,
    fun i hi hne f hf t ht name hname hmem => ?_⟩
  · have hparent : s.parent ≠ "" := by
      intro hempty
      rw [hempty] at hmem
      cases isIdentifier_of_mem_ownNames hplaced hmem
    exact hlost _ hmem (hparents s (hstruct s hs hne) hparent)
  · obtain ⟨r, hr, rfl⟩ := TypeExpr.mem_names_iff.1 hname
    exact hlost _ hmem (htypes _ (mem_types_of_field (hstruct s hs hne) hf) r hr)
  · obtain ⟨r, hr, rfl⟩ := TypeExpr.mem_names_iff.1 hname
    exact hlost _ hmem (htypes t (mem_types_of_method (hinterface i hi hne) hf ht) r hr)

/-- An accepted model stays accepted with its own declarations under the namespace exactly if
nothing of another namespace refers to them. -/
theorem validate_qualify_iff (hplaced : m.Placed) (hns : m.rootNs ≠ "") (h : validate m = .ok ()) :
    validate (m.qualify m.rootNs) = .ok () ↔ m.NoReferenceInto m.rootNs := by
  have hnames : (Validation.registration m).violations = [] := by
    rw [validate_eq_ok_iff] at h
    simp only [Validation.violations, List.append_eq_nil_iff] at h
    exact h.1.1.1.2
  obtain ⟨hformed, hdistinct⟩ := Validation.registration_eq_nil_iff.1 hnames
  constructor
  · exact noReferenceInto_of_validate hplaced hns hdistinct
  · intro hnone
    rw [qualify_eq_rename hplaced hdistinct hnone]
    exact validate_rename (injOn_requalify hplaced hns hdistinct)
      (isIdentifier_base_requalify hplaced hns hdistinct hformed) h

end Model

/-! ## Importing a resolved file -/

/-- Validation looks at the declarations, and asks of the namespace only that there is one. -/
theorem validate_congr {m m' : Model} (hstructs : m.structs = m'.structs)
    (henums : m.enums = m'.enums) (hinterfaces : m.interfaces = m'.interfaces)
    (hns : m.rootNs ≠ "") (hns' : m'.rootNs ≠ "") :
    validate m = .ok () ↔ validate m' = .ok () := by
  obtain ⟨file, rootNs, interfaces, structs, enums⟩ := m
  obtain ⟨file', rootNs', interfaces', structs', enums'⟩ := m'
  cases hstructs
  cases henums
  cases hinterfaces
  simp only [validate_eq_ok_iff, Validation.violations, List.append_eq_nil_iff,
    Validation.checkNamespace_eq_nil_iff, Validation.checkCycles_eq_nil_iff]
  refine and_congr (and_congr (and_congr (and_congr ?_ .rfl) .rfl) .rfl) .rfl
  exact iff_of_true (.inr hns) (.inr hns')

namespace Imports

/-- A file that is accepted as a root is still accepted with its declarations under its namespace,
and by a file that imports it and declares nothing, exactly if no declaration that it has imported
refers to one of its own. -/
theorem validate_imported_iff {disk : Disk} {u : SourceUnit} {m : Model} {st : Progress}
    (h : resolveFile disk [] u .start = (.ok m, st)) (hns : m.rootNs ≠ "")
    (hvalid : validate m = .ok ()) :
    (validate (m.qualify m.rootNs) = .ok () ↔ m.NoReferenceInto m.rootNs) ∧
      ∀ importer : Model, importer.isEmpty = true → importer.rootNs ≠ "" →
        (validate (importer.merge m) = .ok () ↔ m.NoReferenceInto m.rootNs) := by
  have hiff := Model.validate_qualify_iff (placed_of_resolveFile h) hns hvalid
  refine ⟨hiff, fun importer hempty himporter => ?_⟩
  rw [← hiff]
  have himported : m.imported = m.qualify m.rootNs := if_neg hns
  simp only [Model.isEmpty, Bool.and_eq_true, List.isEmpty_iff] at hempty
  obtain ⟨⟨hinterfaces, hstructs⟩, henums⟩ := hempty
  refine validate_congr ?_ ?_ ?_ himporter hns
  · rw [Model.merge, hstructs, himported, List.nil_append]
  · rw [Model.merge, henums, himported, List.nil_append]
  · rw [Model.merge, hinterfaces, himported, List.nil_append]

/-! ## Files that refer to the one that imports them -/

/-- A model without structs is accepted exactly if the passes before the last find no fault. -/
theorem validate_of_no_structs {m : Model} (h : m.structs = []) :
    validate m = .ok () ↔ Validation.checkNamespace m ++ (Validation.registration m).violations ++
      Validation.checkMembers m ++ Validation.checkReferences (Validation.registration m).knows m =
        [] := by
  rw [validate_eq_ok_iff, Validation.violations_of_no_structs h]

/-- The imported file refers to nothing but itself. -/
theorem validate_imported_of_apart :
    ∃ m st, resolveFile (FileTree.toDisk
        ⟨[(["c"], .file "namespace c enum E { } interface I { f() E }".toUTF8)], .present []⟩) []
        ⟨⟨"/b"⟩, "/b", "namespace b import \"c\" enum S { }"⟩ .start = (.ok m, st) ∧
      m.rootNs = "b" ∧ validate m = .ok () ∧ validate (m.qualify m.rootNs) = .ok () := by
  have hload : (⟨⟨"/b"⟩, "/b", "namespace b import \"c\" enum S { }"⟩ :
      SourceUnit).load.1.toOption =
      some (⟨"/b", "b", [], [], [⟨"S", "b", [], "", ⟨"/b", 1, 24, 23⟩⟩]⟩,
        [⟨"c", ⟨"/b", 1, 13, 12⟩, 22⟩]) := by
    decide +kernel
  have hread : (FileTree.toDisk
      ⟨[(["c"], .file "namespace c enum E { } interface I { f() E }".toUTF8)], .present []⟩).read
        ⟨"/c"⟩ = .ok "namespace c enum E { } interface I { f() E }" := by
    decide +kernel
  have hsub : (⟨⟨"/c"⟩, "/c", "namespace c enum E { } interface I { f() E }"⟩ :
      SourceUnit).load.1.toOption =
      some (⟨"/c", "c", [⟨"I", "c", [⟨"f", [], some (.named ⟨"E", ⟨"/c", 1, 42, 41⟩⟩), false, "",
        ⟨"/c", 1, 38, 37⟩⟩], "", ⟨"/c", 1, 24, 23⟩⟩], [],
        [⟨"E", "c", [], "", ⟨"/c", 1, 13, 12⟩⟩]⟩, []) := by
    decide +kernel
  obtain ⟨es, hfile⟩ := Follows.resolveFile [] .start hload (.visit (by decide +kernel)
    (by decide +kernel) (by decide +kernel) hread hsub .done (by decide) .done) (by decide)
  have himported := validate_imported_iff hfile (by decide)
  refine ⟨_, _, hfile, rfl, ?valid, (himported ?valid).1.2 ⟨by decide, by decide, by decide⟩⟩
  rw [validate_of_no_structs rfl]
  decide +kernel

/-- The imported file refers to a bare name of the file that imports it: accepted as a root, this
file is no longer accepted with its declarations under its namespace. -/
theorem validate_imported_of_reference_back :
    ∃ m st, resolveFile (FileTree.toDisk
        ⟨[(["c"], .file "namespace c interface I { f() S }".toUTF8)], .present []⟩) []
        ⟨⟨"/b"⟩, "/b", "namespace b import \"c\" enum S { }"⟩ .start = (.ok m, st) ∧
      m.rootNs = "b" ∧ validate m = .ok () ∧ validate (m.qualify m.rootNs) ≠ .ok () := by
  have hload : (⟨⟨"/b"⟩, "/b", "namespace b import \"c\" enum S { }"⟩ :
      SourceUnit).load.1.toOption =
      some (⟨"/b", "b", [], [], [⟨"S", "b", [], "", ⟨"/b", 1, 24, 23⟩⟩]⟩,
        [⟨"c", ⟨"/b", 1, 13, 12⟩, 22⟩]) := by
    decide +kernel
  have hread : (FileTree.toDisk
      ⟨[(["c"], .file "namespace c interface I { f() S }".toUTF8)], .present []⟩).read ⟨"/c"⟩ =
        .ok "namespace c interface I { f() S }" := by
    decide +kernel
  have hsub : (⟨⟨"/c"⟩, "/c", "namespace c interface I { f() S }"⟩ : SourceUnit).load.1.toOption =
      some (⟨"/c", "c", [⟨"I", "c", [⟨"f", [], some (.named ⟨"S", ⟨"/c", 1, 31, 30⟩⟩), false, "",
        ⟨"/c", 1, 27, 26⟩⟩], "", ⟨"/c", 1, 13, 12⟩⟩], [], []⟩, []) := by
    decide +kernel
  obtain ⟨es, hfile⟩ := Follows.resolveFile [] .start hload (.visit (by decide +kernel)
    (by decide +kernel) (by decide +kernel) hread hsub .done (by decide) .done) (by decide)
  refine ⟨_, _, hfile, rfl, (validate_of_no_structs rfl).2 (by decide +kernel), ?_⟩
  rw [ne_eq, validate_of_no_structs rfl]
  decide +kernel

end Imports

end InterfaceLang
