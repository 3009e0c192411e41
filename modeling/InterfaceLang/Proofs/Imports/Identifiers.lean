import InterfaceLang.Proofs.Imports.Grouping
import InterfaceLang.Proofs.Token.Words

/-!
# Names in a resolved model

Names come from the identifier tokens of the files. On the way into a resolved model the name of a
declaration may be put under the namespace of its file, once; the names of members are never
touched. So the last segment of a declared name is the name that its file gives, and validation,
which looks at the last segments only, has no fault to find with any name.

Results:
* `Validation.invalidIdentifier_mem_iff`: the names that validation calls invalid.
* `Imports.Graph.Collects.wellNamed`: the names of a resolved model are identifiers, those of
  declarations possibly under a namespace that is an identifier.
* `Imports.Graph.Collects.namesFrom`: their last segments are the names that the files give.
* `Imports.resolve_names_valid`: no name of a resolved model is invalid.
-/

namespace InterfaceLang

/-! ## Last segments -/

namespace Name

variable {ns name : String}

theorem base_of_isIdentifier (h : isIdentifier name = true) : base name = name := by
  have hdot := dot_not_mem_of_isIdentifier h
  have hall : ∀ c ∈ name.toList.reverse, decide (c ≠ '.') = true := by
    intro c hc
    exact decide_eq_true fun heq => hdot (heq ▸ List.mem_reverse.1 hc)
  rw [base, List.takeWhile_eq_self_iff.2 hall, List.reverse_reverse, String.ofList_toList]

/-- The base name of an identifier under a namespace is the identifier. -/
theorem base_append (hns : ns ≠ "") (h : isIdentifier name = true) :
    base (ns ++ "." ++ name) = name := by
  rw [← qualify_eq_append hns]
  exact base_qualify hns (dot_not_mem_of_isIdentifier h)

end Name

/-- The names of a model are identifiers, those of declarations alone or under the namespace that
the declaration carries. -/
structure Model.WellNamed (m : Model) : Prop where
  declarations : ∀ d ∈ m.placements, Name.isIdentifier (Name.base d.2) = true ∧
    (d.2 = Name.base d.2 ∨
      Name.isIdentifier d.1 = true ∧ d.2 = d.1 ++ "." ++ Name.base d.2)
  members : ∀ member ∈ Validation.memberNames m, Name.isIdentifier member.1 = true

/-- The names of a model of one file: identifiers all of them, and one namespace. -/
structure Model.PlainNames (m : Model) : Prop where
  rootNs : m.rootNs ≠ "" → Name.isIdentifier m.rootNs = true
  placements : ∀ d ∈ m.placements, d.1 = m.rootNs ∧ Name.isIdentifier d.2 = true
  members : ∀ member ∈ Validation.memberNames m, Name.isIdentifier member.1 = true

/-- The last segments of the declared names are the names that the parts declare, part by part. -/
structure Model.NamesFrom (m : Model) (parts : List Model) : Prop where
  structs : m.structs.map (fun s => Name.base s.name) = parts.flatMap (·.structs.map (·.name))
  enums : m.enums.map (fun e => Name.base e.name) = parts.flatMap (·.enums.map (·.name))
  interfaces :
    m.interfaces.map (fun i => Name.base i.name) = parts.flatMap (·.interfaces.map (·.name))

/-! ## Faults of names -/

namespace Validation

variable {m : Model} {name : String} {pos : Position}

/-- The pass over symbols reports the base names that are not identifiers. -/
theorem invalidIdentifier_mem_register_iff {table symbols : List Symbol} :
    .invalidIdentifier name pos ∈ (register table symbols).violations ↔
      ∃ s ∈ symbols, ¬s.isValid = true ∧ Name.base s.name = name ∧ s.pos = pos := by
  fun_induction register table symbols with
  | case1 => simp
  | case2 table s rest hvalid first _ r ih =>
    simp [r, ih, hvalid]
  | case3 table s rest hvalid _ r ih =>
    simp [r, ih, hvalid]
  | case4 table s rest hvalid r ih =>
    have hhead :
        Violation.invalidIdentifier name pos = .invalidIdentifier (Name.base s.name) s.pos ↔
        Name.base s.name = name ∧ s.pos = pos := by
      rw [Violation.invalidIdentifier.injEq]
      exact and_congr eq_comm eq_comm
    simp [r, ih, hvalid, hhead]

/-- The pass over members reports the names that are not identifiers. -/
theorem invalidIdentifier_mem_checkMembers_iff :
    .invalidIdentifier name pos ∈ checkMembers m ↔
      (name, pos) ∈ memberNames m ∧ ¬Name.isIdentifier name = true := by
  rw [checkMembers, List.mem_filterMap]
  constructor
  · rintro ⟨member, hmem, hfault⟩
    unfold checkMember at hfault
    split at hfault
    · cases hfault
    · next hinvalid =>
      cases hfault
      exact ⟨hmem, hinvalid⟩
  · rintro ⟨hmem, hinvalid⟩
    exact ⟨_, hmem, if_neg hinvalid⟩

theorem invalidIdentifier_not_mem_checkReferences (known : String → Bool) :
    .invalidIdentifier name pos ∉ checkReferences known m := by
  have hparent : ∀ s, .invalidIdentifier name pos ∉ checkParent known s := by
    intro s
    unfold checkParent
    split <;> simp
  simp [checkReferences, checkInterface, checkStruct, hparent, mem_checkType_iff]

/-- Validation calls invalid the last segments of declared names and the names of members that are
no identifiers, and nothing else. -/
theorem invalidIdentifier_mem_iff :
    .invalidIdentifier name pos ∈ violations m ↔
      (∃ s ∈ m.symbols, ¬s.isValid = true ∧ Name.base s.name = name ∧ s.pos = pos) ∨
        (name, pos) ∈ memberNames m ∧ ¬Name.isIdentifier name = true := by
  have hnamespace : .invalidIdentifier name pos ∉ checkNamespace m := by
    unfold checkNamespace
    split <;> simp
  have hcycles : .invalidIdentifier name pos ∉ checkCycles m := by
    simp [checkCycles, BackEdge.violation]
  simp only [violations, List.mem_append, hnamespace, hcycles,
    invalidIdentifier_not_mem_checkReferences, false_or, or_false]
  exact or_congr invalidIdentifier_mem_register_iff invalidIdentifier_mem_checkMembers_iff

theorem eq_violations_of_validate {vs : List Violation} (h : validate m = .error (.invalid vs)) :
    vs = violations m := by
  unfold validate at h
  split at h
  · cases h
  · cases h
    rfl

/-- A well-named model gives no cause to report a name. -/
theorem invalidIdentifier_not_mem_of_wellNamed (h : m.WellNamed) :
    .invalidIdentifier name pos ∉ violations m := by
  rw [invalidIdentifier_mem_iff]
  rintro (⟨s, hs, hinvalid, _⟩ | ⟨hmem, hinvalid⟩)
  · have hname := (names_symbols_perm m).mem_iff.1 (List.mem_map_of_mem hs)
    obtain ⟨d, hd, heq⟩ := Model.exists_placement hname
    have hbase := (h.declarations d hd).1
    rw [heq] at hbase
    exact hinvalid hbase
  · exact hinvalid (h.members _ hmem)

end Validation

/-! ## Names of one file -/

namespace Model

/-- The names of the members in a file are identifiers. -/
theorem memberNames_toModel {f : SourceFile} {text : String} {m : Model}
    (hnames : ∀ e ∈ f.elements, e.NamesSatisfy fun name => Name.isIdentifier name = true)
    (h : f.toModel text = .ok m) :
    ∀ member ∈ Validation.memberNames m, Name.isIdentifier member.1 = true := by
  unfold SourceFile.toModel at h
  cases hd : f.namespaceDecl? text with
  | error e =>
    rw [hd] at h
    cases h
  | ok decl =>
    rw [hd] at h
    cases h
    simp only [Validation.memberNames, Validation.methodNames, List.forall_mem_append,
      List.forall_mem_flatMap, List.forall_mem_map, List.forall_mem_cons, List.mem_filterMap]
    refine ⟨⟨?_, ?_⟩, ?_⟩
    · rintro d ⟨e, he, hde⟩
      cases e with
      | interfaceDecl d' =>
        cases hde
        intro f hf
        obtain ⟨f', hf', rfl⟩ := List.mem_map.1 hf
        obtain ⟨hname, hparams⟩ := (hnames _ he).2 f' hf'
        refine ⟨hname, fun p hp => ?_⟩
        obtain ⟨p', hp', rfl⟩ := List.mem_map.1 hp
        exact hparams p' hp'
      | _ => cases hde
    · rintro d ⟨e, he, hde⟩
      cases e with
      | structDecl d' =>
        cases hde
        intro f hf
        obtain ⟨f', hf', rfl⟩ := List.mem_map.1 hf
        exact (hnames _ he).2 f' hf'
      | _ => cases hde
    · rintro d ⟨e, he, hde⟩
      cases e with
      | enumDecl d' =>
        cases hde
        intro v hv
        obtain ⟨v', hv', rfl⟩ := List.mem_map.1 hv
        exact (hnames _ he).2 v' hv'
      | _ => cases hde

theorem methodNames_under (names : List String) (ns : String) (m : Method) :
    Validation.methodNames (m.under names ns) = Validation.methodNames m := by
  simp [Validation.methodNames, Method.under]

/-- Members keep their names when other files see them. -/
theorem memberNames_exported (m : Model) :
    Validation.memberNames m.exported = Validation.memberNames m := by
  unfold exported
  split
  · rfl
  · simp [Validation.memberNames, methodNames_under, Struct.under, Enum.under, Interface.under,
      List.flatMap_map, Function.comp_def]

theorem placements_exported {m : Model} (hns : m.rootNs ≠ "") :
    m.exported.placements = m.placements.map fun d => (d.1, m.rootNs ++ "." ++ d.2) := by
  rw [exported, if_neg hns]
  simp [placements, Struct.under, Enum.under, Interface.under, Function.comp_def]

namespace PlainNames

variable {m : Model}

theorem wellNamed (h : m.PlainNames) : m.WellNamed where
  declarations := by
    intro d hd
    have hid := (h.placements d hd).2
    rw [Name.base_of_isIdentifier hid]
    exact ⟨hid, .inl rfl⟩
  members := h.members

/-- A file with plain names is well-named also as other files see it. -/
theorem wellNamed_exported (h : m.PlainNames) : m.exported.WellNamed := by
  by_cases hns : m.rootNs = ""
  · rw [exported, if_pos hns]
    exact h.wellNamed
  · refine ⟨fun d hd => ?_, by rw [memberNames_exported]; exact h.members⟩
    rw [placements_exported hns] at hd
    obtain ⟨d', hd', rfl⟩ := List.mem_map.1 hd
    obtain ⟨hroot, hid⟩ := h.placements d' hd'
    rw [Name.base_append hns hid]
    exact ⟨hid, .inr ⟨hroot ▸ h.rootNs hns, by rw [hroot]⟩⟩

theorem namesFrom (h : m.PlainNames) : m.NamesFrom [m] := by
  have hid := fun d hd => Name.base_of_isIdentifier (h.placements d hd).2
  simp only [Model.placements, List.forall_mem_append, List.forall_mem_map] at hid
  obtain ⟨⟨hstructs, henums⟩, hinterfaces⟩ := hid
  refine ⟨?_, ?_, ?_⟩
  · rw [List.flatMap_singleton]
    exact List.map_congr_left hstructs
  · rw [List.flatMap_singleton]
    exact List.map_congr_left henums
  · rw [List.flatMap_singleton]
    exact List.map_congr_left hinterfaces

theorem namesFrom_exported (h : m.PlainNames) : m.exported.NamesFrom [m] := by
  by_cases hns : m.rootNs = ""
  · rw [exported, if_pos hns]
    exact h.namesFrom
  · have hid := fun d hd => Name.base_append hns (h.placements d hd).2
    simp only [Model.placements, List.forall_mem_append, List.forall_mem_map] at hid
    obtain ⟨⟨hstructs, henums⟩, hinterfaces⟩ := hid
    rw [exported, if_neg hns]
    refine ⟨?_, ?_, ?_⟩
    · rw [List.flatMap_singleton, List.map_map]
      exact List.map_congr_left hstructs
    · rw [List.flatMap_singleton, List.map_map]
      exact List.map_congr_left henums
    · rw [List.flatMap_singleton, List.map_map]
      exact List.map_congr_left hinterfaces

end PlainNames

end Model

/-! ## Names of a resolved model -/

namespace Imports

variable {g : Graph} {order : List Path} {m : Model} {p : Path}

theorem Graph.plainNames_of_lowered? (h : g.lowered? p = some m) : m.PlainNames := by
  obtain ⟨u, f, _, hf, hm⟩ := lowered?_eq_some_iff.1 h
  have hnames := Parser.names_of_parse hf
  refine ⟨fun hns => ?_, Model.placements_toModel hnames hm, Model.memberNames_toModel hnames hm⟩
  exact isIdentifier_of_declares ((declares_iff h hns).2 rfl)

theorem Graph.wellNamed_contribution (h : g.lowered? p = some (g.own p)) :
    (g.contribution p).WellNamed := by
  unfold contribution
  split
  · exact (plainNames_of_lowered? h).wellNamed
  · exact (plainNames_of_lowered? h).wellNamed_exported

theorem Graph.namesFrom_contribution (h : g.lowered? p = some (g.own p)) :
    (g.contribution p).NamesFrom [g.own p] := by
  unfold contribution
  split
  · exact (plainNames_of_lowered? h).namesFrom
  · exact (plainNames_of_lowered? h).namesFrom_exported

namespace Graph.Collects

/-- The members of a collected model are those of the contributions. -/
theorem mem_memberNames_iff (h : g.Collects order m) {member : String × Position} :
    member ∈ Validation.memberNames m ↔
      ∃ p ∈ order, member ∈ Validation.memberNames (g.contribution p) := by
  simp only [Validation.memberNames, h.structs, h.enums, h.interfaces, List.flatMap_assoc,
    List.mem_append, List.mem_flatMap]
  grind

/-- The names of a resolved model are well formed. -/
theorem wellNamed (h : g.Collects order m) : m.WellNamed where
  declarations := by
    intro d hd
    obtain ⟨p, hp, hdp⟩ := h.mem_placements_iff.1 hd
    exact (wellNamed_contribution (h.lowered p hp)).declarations d hdp
  members := by
    intro member hmem
    obtain ⟨p, hp, hmemp⟩ := h.mem_memberNames_iff.1 hmem
    exact (wellNamed_contribution (h.lowered p hp)).members member hmemp

/-- File by file, the last segments of the names are those that the files declare. -/
theorem namesFrom (h : g.Collects order m) : m.NamesFrom (order.map g.own) := by
  have hfile := fun p hp => namesFrom_contribution (h.lowered p hp)
  refine ⟨?_, ?_, ?_⟩
  · rw [h.structs, List.map_flatMap, List.flatMap_map]
    exact List.flatMap_congr fun p hp => (hfile p hp).structs.trans (List.flatMap_singleton _ _)
  · rw [h.enums, List.map_flatMap, List.flatMap_map]
    exact List.flatMap_congr fun p hp => (hfile p hp).enums.trans (List.flatMap_singleton _ _)
  · rw [h.interfaces, List.map_flatMap, List.flatMap_map]
    exact List.flatMap_congr fun p hp => (hfile p hp).interfaces.trans (List.flatMap_singleton _ _)

end Graph.Collects

/-- A text follows the identifier rule exactly if it is read as one word, and no name of a resolved
model breaks the rule: validation never complains about one, every declaration has an identifier for
a name, possibly under a namespace, and so has every member, without one. The last segments of the
declared names are the names in the files, which are taken in the order of the walk. -/
theorem resolve_names_valid :
    (∀ file text : String, Name.isIdentifier text = true ↔
      ∃ t, lex file text = [t, endMark file text] ∧ t.kind.word? = some text) ∧
    ∀ (disk : Disk) (baseDir : Option Path) (name text : String) (m : Model),
      (resolve disk baseDir name text).1 = .ok m →
        (∀ vs, validate m = .error (.invalid vs) →
          ∀ id pos, Violation.invalidIdentifier id pos ∉ vs) ∧
        m.WellNamed ∧
        ∃ path order, locate disk baseDir ⟨name⟩ = .ok path ∧
          (⟨disk, ⟨path, name, text⟩⟩ : Graph).Preorder [] [path] order ∧
          m.NamesFrom (order.map (⟨disk, ⟨path, name, text⟩⟩ : Graph).own) := by
  refine ⟨Lexer.isIdentifier_iff_lex, fun disk baseDir name text m h => ?_⟩
  obtain ⟨path, order, hpath, _, hcollects⟩ := collects_of_resolve h
  refine ⟨fun vs hvs id pos => ?_, hcollects.wellNamed, path, order, hpath, hcollects.walk,
    hcollects.namesFrom⟩
  rw [Validation.eq_violations_of_validate hvs]
  exact Validation.invalidIdentifier_not_mem_of_wellNamed hcollects.wellNamed

/-- A model that validation refuses for a type that nothing declares. -/
theorem resolve_names_valid_of_unknown_type :
    ∃ m, (resolve (FileTree.toDisk ⟨[(["b"], .file "namespace b enum E { }".toUTF8)],
        .present []⟩) none "/a" "namespace a import \"b\" interface I { f() T }").1 = .ok m ∧
      m.declaredNames = ["b.E", "I"] ∧
      (validate m = .error (.invalid (Validation.violations m)) ∧
        ∀ id pos, Violation.invalidIdentifier id pos ∉ Validation.violations m) ∧
      m.WellNamed := by
  have hload : (⟨⟨"/a"⟩, "/a", "namespace a import \"b\" interface I { f() T }"⟩ :
      SourceUnit).load.1.toOption =
      some (⟨"/a", "a", [⟨"I", "a", [⟨"f", [], some (.named ⟨"T", ⟨"/a", 1, 42, 41⟩⟩), false, "",
        ⟨"/a", 1, 38, 37⟩⟩], "", ⟨"/a", 1, 24, 23⟩⟩], [], []⟩, [⟨"b", ⟨"/a", 1, 13, 12⟩, 22⟩]) := by
    decide +kernel
  have hread : (FileTree.toDisk ⟨[(["b"], .file "namespace b enum E { }".toUTF8)],
      .present []⟩).read ⟨"/b"⟩ = .ok "namespace b enum E { }" := by
    decide +kernel
  have hsub : (⟨⟨"/b"⟩, "/b", "namespace b enum E { }"⟩ : SourceUnit).load.1.toOption =
      some (⟨"/b", "b", [], [], [⟨"E", "b", [], "", ⟨"/b", 1, 13, 12⟩⟩]⟩, []) := by
    decide +kernel
  have hlocate : locate (FileTree.toDisk ⟨[(["b"], .file "namespace b enum E { }".toUTF8)],
      .present []⟩) none ⟨"/a"⟩ = .ok ⟨"/a"⟩ := rfl
  have hresolve := Follows.resolve hlocate hload (.visit (by decide +kernel) (by decide +kernel)
    (by decide +kernel) hread hsub .done (by decide) .done) (by decide)
  obtain ⟨hnever, hnamed, _⟩ := resolve_names_valid.2 _ _ _ _ _ hresolve
  refine ⟨_, hresolve, by decide +kernel, (and_iff_left_of_imp (hnever _)).2 ?_, hnamed⟩
  refine Validation.validate_eq_error (List.mem_append_left _ (List.mem_append_right _
    (?_ : Violation.unknownType "T" ⟨"/a", 1, 42, 41⟩ ∈ _)))
  decide +kernel

end Imports

end InterfaceLang
