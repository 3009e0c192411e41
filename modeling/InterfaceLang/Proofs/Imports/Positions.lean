import InterfaceLang.Proofs.Comment.Documentation
import InterfaceLang.Proofs.Validation.Importing

/-!
# Positions in a resolved model

A position is fixed when a token is cut from its text, and nothing changes it afterwards. So every
node of a resolved model still points into the file that it was read from, at the token that it was
read from: a declaration at its keyword, a member at its name, and a reference at the first part of
the name that was written there, even if a namespace stands before the name by now.

The relations below compare a node as it was written with the same node as it is found in a merged
model; the names of references are those that were written.

Results:
* `marks_of_mem_tokens`: the position of a token marks the token.
* `Model.located_toModel`: the nodes of the model of one file are where their tokens are.
* `Model.Located.exported`: putting declarations under a namespace moves no node.
* `Imports.resolve_located`: every node of a resolved model is where its token is.
-/

namespace InterfaceLang

open Grammar Directive

/-- The part of a name before its first dot. -/
def Name.first (name : String) : String :=
  String.ofList (name.toList.takeWhile (· ≠ '.'))

/-- A position names a source, has the line and the column of its offset there, and the token at
this offset is of the given kind. -/
structure Position.Marks (pos : Position) (source : SourceText) (kind : TokenKind) : Prop where
  file : pos.file = source.name
  counted : ∃ before after, source.text.toList = before ++ after ∧ byteLength before = pos.offset ∧
    pos.line = 1 + before.count '\n' ∧
    pos.column = 1 + (before.reverse.takeWhile (· ≠ '\n')).length
  token : ((tokens source.name source.text).find? fun t => t.pos.offset = pos.offset).map (·.kind) =
    some kind

/-! ## Nodes as written and as found -/

section Located

variable (source : SourceText)

/-- A type that was written in a source: its reference marks the first part of what was written. -/
def TypeExpr.Located (written t : TypeExpr) : Prop :=
  Option.Rel (fun r r' => r'.pos.Marks source (.identifier (Name.first r.name))) written.leaf t.leaf

/-- A field that was written in a source marks its name. -/
structure Field.Located (written f : Field) : Prop where
  name : f.pos.Marks source (.identifier f.name)
  type : written.type.Located source f.type

/-- A parameter that was written in a source marks its name. -/
structure Parameter.Located (written p : Parameter) : Prop where
  name : p.pos.Marks source (.identifier p.name)
  type : written.type.Located source p.type

/-- A method that was written in a source marks its name. -/
structure Method.Located (written m : Method) : Prop where
  name : m.pos.Marks source (.identifier m.name)
  parameters : List.Forall₂ (Parameter.Located source) written.parameters m.parameters
  returns : Option.Rel (TypeExpr.Located source) written.returns m.returns

/-- A struct that was written in a source marks its keyword. -/
structure Struct.Located (written s : Struct) : Prop where
  keyword : s.pos.Marks source (.keyword .structKw)
  fields : List.Forall₂ (Field.Located source) written.fields s.fields

/-- An enum that was written in a source marks its keyword, and its values mark their names. -/
structure Enum.Located (e : Enum) : Prop where
  keyword : e.pos.Marks source (.keyword .enumKw)
  values : ∀ v ∈ e.values, v.pos.Marks source (.identifier v.name)

/-- An interface that was written in a source marks its keyword. -/
structure Interface.Located (written i : Interface) : Prop where
  keyword : i.pos.Marks source (.keyword .interfaceKw)
  methods : List.Forall₂ (Method.Located source) written.methods i.methods

/-- All nodes of a model that was written in a source are where their tokens are. -/
structure Model.Located (written m : Model) : Prop where
  structs : List.Forall₂ (Struct.Located source) written.structs m.structs
  enums : ∀ e ∈ m.enums, e.Located source
  interfaces : List.Forall₂ (Interface.Located source) written.interfaces m.interfaces

end Located

/-! ## Positions of tokens -/

/-- The position of a token marks the token. -/
theorem marks_of_mem_tokens {source : SourceText} {t : Token}
    (h : t ∈ tokens source.name source.text) : t.pos.Marks source t.kind := by
  obtain ⟨before, after, hcut, hpos⟩ :=
    Lexer.exists_cut_of_mem_lex (List.mem_append_left [endMark source.name source.text] h)
  refine ⟨?_, ⟨before, t.lexeme ++ after, ?_, ?_, ?_, ?_⟩, ?_⟩
  · rw [hpos, Position.file_after]
    rfl
  · rw [hcut, List.append_assoc]
  · exact (Lexer.offset_eq_byteLength hpos).symm
  · rw [hpos, Position.line_after]
    rfl
  · rw [hpos, Position.column_after_start]
  · -- no token before this one starts at the same byte
    have hsorted : (tokens source.name source.text).Pairwise fun t u =>
        t.pos.offset < u.pos.offset :=
      Lexer.pairwise_offset_tokensFrom (.start source.name) source.text.toList
    obtain ⟨front, back, hsplit⟩ := List.append_of_mem h
    rw [hsplit] at hsorted ⊢
    have hfind : (front ++ t :: back).find? (fun u => u.pos.offset = t.pos.offset) = some t := by
      refine List.find?_eq_some_iff_append.2 ⟨by simp, front, back, rfl, fun u hu => ?_⟩
      have hlt := (List.pairwise_append.1 hsorted).2.2 u hu t List.mem_cons_self
      simpa using Nat.ne_of_lt hlt
    rw [hfind, Option.map_some]

/-- The first name of a dotted name is the part before its first dot. -/
theorem Name.first_intercalate {name : String} (h : '.' ∉ name.toList) (more : List String) :
    Name.first (".".intercalate (name :: more)) = name := by
  have hword : ∀ c ∈ name.toList, decide (c ≠ '.') = true := by
    intro c hc
    simpa using fun heq : c = '.' => h (heq ▸ hc)
  rw [first, String.toList_intercalate, List.map_cons]
  cases more with
  | nil =>
    rw [List.map_nil, List.intercalate_singleton, List.takeWhile_eq_self_iff.2 hword,
      String.ofList_toList]
  | cons next more =>
    rw [List.map_cons, List.intercalate_cons_cons, List.append_assoc,
      List.takeWhile_append_of_pos hword]
    simp

/-! ## Trees -/

namespace Grammar

variable {source : SourceText} {δ ε : Type} [Phrase δ] [Phrase ε]

/-- All leaves of a tree are tokens of a source. -/
def DrawnFrom (source : SourceText) (d : δ) : Prop :=
  ∀ t ∈ leaves d, t ∈ tokens source.name source.text

theorem drawnFrom_pair {d : δ} {e : ε} :
    DrawnFrom source (d, e) ↔ DrawnFrom source d ∧ DrawnFrom source e :=
  List.forall_mem_append

theorem drawnFrom_list {ds : List δ} : DrawnFrom source ds ↔ ∀ d ∈ ds, DrawnFrom source d :=
  List.forall_mem_flatMap

/-- A leaf drawn from a source stands where its token does. -/
theorem Leaf.marks {kind : TokenKind} {l : Leaf kind} (h : DrawnFrom source l) :
    l.token.pos.Marks source kind := by
  have hmarks := marks_of_mem_tokens (h l.token List.mem_cons_self)
  rwa [l.kind_eq] at hmarks

theorem NameLeaf.marks {n : NameLeaf} (h : DrawnFrom source n) :
    n.ident.pos.Marks source (.identifier n.ident.name) := by
  have hmarks := marks_of_mem_tokens (h n.token List.mem_cons_self)
  rwa [n.kind_eq] at hmarks

/-- A dotted name stands where its first part does. -/
theorem DottedTree.marks {d : DottedTree} (h : DrawnFrom source d) :
    (DottedTree.ident d).pos.Marks source
      (.identifier (Name.first (DottedTree.ident d).name)) := by
  obtain ⟨first, more⟩ := d
  have hfirst := (drawnFrom_pair.1 h).1
  have hid : Name.isIdentifier first.name = true :=
    Lexer.isIdentifier_of_mem_tokens (hfirst first.token List.mem_cons_self) first.kind_eq
  rw [ident, Name.first_intercalate (Name.dot_not_mem_of_isIdentifier hid)]
  exact NameLeaf.marks hfirst

/-- A type is located at its tokens, its references included. -/
theorem TypeTree.located {d : TypeTree} (h : DrawnFrom source d) :
    d.type.Located source d.type := by
  induction d with
  | builtIn b => exact .none
  | array brackets element ih => exact ih (List.forall_mem_append.1 h).2
  | mapOf key value ih => exact ih (List.forall_mem_append.1 h).2
  | named name => exact .some (DottedTree.marks h)

theorem ParamTree.located {d : ParamTree} (h : DrawnFrom source d) :
    (Model.ofParam (ParamTree.decl d)).Located source (Model.ofParam (ParamTree.decl d)) := by
  obtain ⟨name, type⟩ := d
  obtain ⟨hname, htype⟩ := drawnFrom_pair.1 h
  exact ⟨NameLeaf.marks hname, TypeTree.located htype⟩

theorem ParamsTree.located {d : ParamsTree} (h : DrawnFrom source d) :
    ∀ p ∈ (ParamsTree.decls d).map Model.ofParam, p.Located source p := by
  match d with
  | none => simp [decls]
  | some (first, more) =>
    obtain ⟨hfirst, hmore⟩ := drawnFrom_pair.1 h
    rw [drawnFrom_list] at hmore
    simp only [decls, List.map_cons, List.map_map, List.forall_mem_cons, List.forall_mem_map]
    exact ⟨ParamTree.located hfirst, fun part hpart =>
      ParamTree.located (drawnFrom_pair.1 (hmore part hpart)).2⟩

variable {lines : Model.Lines} {floor : Nat} {ns : String}

/-- A method is located at its name, and so is everything it mentions. -/
theorem MethodTree.located {d : MethodTree} (h : DrawnFrom source d) :
    (Model.ofMethod lines floor (MethodTree.decl d)).Located source
      (Model.ofMethod lines floor (MethodTree.decl d)) := by
  obtain ⟨name, lparen, params, rparen, returns, mark⟩ := d
  simp only [drawnFrom_pair] at h
  obtain ⟨hname, _, hparams, _, hreturns, _⟩ := h
  exact ⟨NameLeaf.marks hname, List.forall₂_same.2 (ParamsTree.located hparams),
    .some (TypeTree.located hreturns)⟩

theorem FieldTree.located {d : FieldTree} (h : DrawnFrom source d) :
    (Model.ofField lines floor (FieldTree.decl d)).Located source
      (Model.ofField lines floor (FieldTree.decl d)) := by
  obtain ⟨name, type, mark⟩ := d
  simp only [drawnFrom_pair] at h
  exact ⟨NameLeaf.marks h.1, TypeTree.located h.2.1⟩

theorem InterfaceTree.located {d : InterfaceTree} (h : DrawnFrom source d) :
    (Model.ofInterface lines ns (InterfaceTree.decl d)).Located source
      (Model.ofInterface lines ns (InterfaceTree.decl d)) := by
  obtain ⟨keyword, name, brace, methods, closing⟩ := d
  simp only [drawnFrom_pair, drawnFrom_list] at h
  obtain ⟨hkeyword, _, _, hmethods, _⟩ := h
  refine ⟨Leaf.marks hkeyword, List.forall₂_same.2 ?_⟩
  simp only [Model.ofInterface, decl, List.map_map, List.forall_mem_map]
  exact fun m hm => MethodTree.located (hmethods m hm)

theorem StructTree.located {d : StructTree} (h : DrawnFrom source d) :
    (Model.ofStruct lines ns (StructTree.decl d)).Located source
      (Model.ofStruct lines ns (StructTree.decl d)) := by
  obtain ⟨keyword, name, parent, brace, fields, closing⟩ := d
  simp only [drawnFrom_pair, drawnFrom_list] at h
  obtain ⟨hkeyword, _, _, _, hfields, _⟩ := h
  refine ⟨Leaf.marks hkeyword, List.forall₂_same.2 ?_⟩
  simp only [Model.ofStruct, decl, List.map_map, List.forall_mem_map]
  exact fun f hf => FieldTree.located (hfields f hf)

theorem EnumTree.located {d : EnumTree} (h : DrawnFrom source d) :
    (Model.ofEnum lines ns (EnumTree.decl d)).Located source := by
  obtain ⟨keyword, name, brace, values, closing⟩ := d
  simp only [drawnFrom_pair, drawnFrom_list] at h
  obtain ⟨hkeyword, _, _, hvalues, _⟩ := h
  refine ⟨Leaf.marks hkeyword, ?_⟩
  simp only [Model.ofEnum, decl, List.map_map, List.forall_mem_map]
  exact fun v hv => NameLeaf.marks (hvalues v hv)

end Grammar

/-! ## The model of one file -/

/-- The nodes of the model of one file are where their tokens are. -/
theorem Model.located_toModel {source : SourceText} {f : SourceFile} {m : Model}
    (hparse : Parser.parse source = .ok f) (hmodel : f.toModel source.text = .ok m) :
    m.Located source m := by
  obtain ⟨_, items, hitems, helements⟩ := Parser.exists_items_of_parse hparse
  have hdrawn : ∀ e ∈ elementsOf items, DrawnFrom source e :=
    fun e he t ht => mem_tokens_of_mem_elementsOf hitems he ht
  unfold SourceFile.toModel at hmodel
  cases hdecl : f.namespaceDecl? source.text with
  | error e =>
    rw [hdecl] at hmodel
    cases hmodel
  | ok decl =>
    rw [hdecl, helements] at hmodel
    cases hmodel
    refine ⟨List.forall₂_same.2 ?_, ?_, List.forall₂_same.2 ?_⟩
    all_goals
      simp only [List.mem_filterMap, SourceTree.elements, List.mem_map]
      rintro _ ⟨decl, ⟨_, ⟨e, he, rfl⟩, hd⟩, rfl⟩
    · cases e with
      | structDecl d =>
        cases hd
        exact StructTree.located (hdrawn _ he)
      | _ => cases hd
    · cases e with
      | enumDecl d =>
        cases hd
        exact EnumTree.located (hdrawn _ he)
      | _ => cases hd
    · cases e with
      | interfaceDecl d =>
        cases hd
        exact InterfaceTree.located (hdrawn _ he)
      | _ => cases hd

/-! ## Declarations under a namespace -/

section Under

variable {source : SourceText} {names : List String} {ns : String}

theorem optionRel_map_right {α β : Type} {R : α → β → Prop} {f : β → β} {x : Option α}
    {y : Option β} (hf : ∀ a b, R a b → R a (f b)) (h : Option.Rel R x y) :
    Option.Rel R x (y.map f) := by
  cases h with
  | none => exact .none
  | some hab => exact .some (hf _ _ hab)

/-- Putting a type under a namespace keeps its positions. -/
theorem TypeExpr.Located.under {written t : TypeExpr} (h : written.Located source t) :
    written.Located source (t.under names ns) := by
  unfold TypeExpr.Located
  rw [leaf_under]
  exact optionRel_map_right (fun _ _ hmarks => hmarks) h

theorem Method.Located.under {written m : Method} (h : written.Located source m) :
    written.Located source (m.under names ns) where
  name := h.name
  parameters := by
    refine List.forall₂_map_right_iff.2 (h.parameters.imp fun p p' hp => ?_)
    exact ⟨hp.name, hp.type.under⟩
  returns := optionRel_map_right (fun _ _ htype => htype.under) h.returns

theorem Struct.Located.under {written s : Struct} (h : written.Located source s) :
    written.Located source (s.under names ns) where
  keyword := h.keyword
  fields := by
    refine List.forall₂_map_right_iff.2 (h.fields.imp fun f f' hf => ?_)
    exact ⟨hf.name, hf.type.under⟩

theorem Interface.Located.under {written i : Interface} (h : written.Located source i) :
    written.Located source (i.under names ns) where
  keyword := h.keyword
  methods := List.forall₂_map_right_iff.2 (h.methods.imp fun _ _ hm => hm.under)

/-- Putting declarations under a namespace moves no node. -/
theorem Model.Located.exported {written m : Model} (h : written.Located source m) :
    written.Located source m.exported := by
  unfold Model.exported
  split
  · exact h
  · refine ⟨?_, ?_, ?_⟩
    · exact List.forall₂_map_right_iff.2 (h.structs.imp fun _ _ hs => hs.under)
    · exact List.forall_mem_map.2 fun e he => ⟨(h.enums e he).keyword, (h.enums e he).values⟩
    · exact List.forall₂_map_right_iff.2 (h.interfaces.imp fun _ _ hi => hi.under)

end Under

/-! ## Resolved models -/

namespace Imports

/-- What a file contributes is where it was written in the file. -/
theorem Graph.located_contribution {g : Graph} {p : Path} (h : g.lowered? p = some (g.own p)) :
    ∃ u, g.unitAt p = .ok u ∧ (g.own p).Located u.source (g.contribution p) := by
  obtain ⟨u, f, hu, hf, hm⟩ := lowered?_eq_some_iff.1 h
  have hown : (g.own p).Located u.source (g.own p) := Model.located_toModel hf hm
  refine ⟨u, hu, ?_⟩
  unfold contribution
  split
  · exact hown
  · exact hown.exported

/-- The root goes by the name it was given, every other file by its path. -/
theorem Graph.name_of_unitAt {g : Graph} {p : Path} {u : SourceUnit} (h : g.unitAt p = .ok u) :
    u.name = if p = g.root.path then g.root.name else p.text := by
  rcases unitAt_cases h with ⟨hp, rfl⟩ | ⟨hp, text, _, rfl⟩
  · rw [if_pos hp]
  · rw [if_neg hp]

/-- A resolved model consists of what the files that can be reached contribute, and every node that
a file contributes marks the token of that file that it was read from. -/
theorem resolve_located {disk : Disk} {baseDir : Option Path} {name text : String} {m : Model}
    (h : (resolve disk baseDir name text).1 = .ok m) :
    ∃ path order, locate disk baseDir ⟨name⟩ = .ok path ∧
      (⟨disk, ⟨path, name, text⟩⟩ : Graph).Collects order m ∧
      (∀ p, p ∈ order ↔ (⟨disk, ⟨path, name, text⟩⟩ : Graph).Reachable p) ∧
      ∀ p ∈ order, ∃ u, (⟨disk, ⟨path, name, text⟩⟩ : Graph).unitAt p = .ok u ∧
        u.name = (if p = path then name else p.text) ∧
        ((⟨disk, ⟨path, name, text⟩⟩ : Graph).own p).Located u.source
          ((⟨disk, ⟨path, name, text⟩⟩ : Graph).contribution p) := by
  obtain ⟨path, order, hpath, _, hcollects⟩ := collects_of_resolve h
  refine ⟨path, order, hpath, hcollects, fun p => hcollects.walk.mem_iff, fun p hp => ?_⟩
  obtain ⟨u, hu, hlocated⟩ := Graph.located_contribution (hcollects.lowered p hp)
  exact ⟨u, hu, Graph.name_of_unitAt hu, hlocated⟩

/-- A struct that refers to itself, imported under a namespace, and a root that refers to it. -/
theorem resolve_located_of_import :
    ∃ (g : Graph) (m : Model) (order : List Path),
      g = ⟨FileTree.toDisk ⟨[(["b"], .file "namespace b struct T { t []T }".toUTF8)], .present []⟩,
        ⟨⟨"/a"⟩, "/a", "import \"b\" struct S { x b.T }"⟩⟩ ∧
      (resolve g.disk none g.root.name g.root.text).1 = .ok m ∧
      m.structs.map (fun s => (s.name, s.pos, s.fields.map (·.type.leaf))) =
        [("S", ⟨"/a", 1, 12, 11⟩, [some ⟨"b.T", ⟨"/a", 1, 25, 24⟩⟩]),
          ("b.T", ⟨"/b", 1, 13, 12⟩, [some ⟨"b.T", ⟨"/b", 1, 28, 27⟩⟩])] ∧
      g.Collects order m ∧
      ∀ p ∈ order, ∃ u, g.unitAt p = .ok u ∧ (g.own p).Located u.source (g.contribution p) := by
  obtain ⟨disk, hdisk⟩ : ∃ disk, disk = FileTree.toDisk
    ⟨[(["b"], .file "namespace b struct T { t []T }".toUTF8)], .present []⟩ := ⟨_, rfl⟩
  have hlocate : locate disk none ⟨"/a"⟩ = .ok ⟨"/a"⟩ := rfl
  have hload : (⟨⟨"/a"⟩, "/a", "import \"b\" struct S { x b.T }"⟩ : SourceUnit).load.1.toOption =
      some (⟨"/a", "", [], [⟨"S", "", "", [⟨"x", .named ⟨"b.T", ⟨"/a", 1, 25, 24⟩⟩, false, "",
        ⟨"/a", 1, 23, 22⟩⟩], "", ⟨"/a", 1, 12, 11⟩⟩], []⟩, [⟨"b", ⟨"/a", 1, 1, 0⟩, 10⟩]) := by
    decide +kernel
  have hread : disk.read ⟨"/b"⟩ = .ok "namespace b struct T { t []T }" := by
    rw [hdisk]
    decide +kernel
  have hsub : (⟨⟨"/b"⟩, "/b", "namespace b struct T { t []T }"⟩ : SourceUnit).load.1.toOption =
      some (⟨"/b", "b", [], [⟨"T", "b", "", [⟨"t", .array (.named ⟨"T", ⟨"/b", 1, 28, 27⟩⟩), false,
        "", ⟨"/b", 1, 24, 23⟩⟩], "", ⟨"/b", 1, 13, 12⟩⟩], []⟩, []) := by
    decide +kernel
  have hresolve := Follows.resolve hlocate hload (.visit (by decide +kernel) (by decide +kernel)
    (by decide +kernel) hread hsub .done (by decide) .done) (by decide)
  obtain ⟨path, order, hpath, hcollects, _, hlocated⟩ := resolve_located hresolve
  rw [hlocate] at hpath
  cases hpath
  refine ⟨⟨disk, _⟩, _, order, by rw [hdisk], hresolve, by decide +kernel, hcollects,
    fun p hp => ?_⟩
  obtain ⟨u, hu, _, hfound⟩ := hlocated p hp
  exact ⟨u, hu, hfound⟩

end Imports

end InterfaceLang
