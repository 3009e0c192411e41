import InterfaceLang.Model.Lowering
import InterfaceLang.Proofs.Comment.Agreement
import InterfaceLang.Proofs.Grammar.Acceptance

/-!
# Comments of declarations

Lowering reads comments off the lines of a text. Said by tokens alone, the comment of a declaration
is made of the comments that begin the lines directly above its keyword. For a member these lines
end below the brace that opens the body, the first one after the keyword. The two agree on every
file that parses, unless a quoted text goes on with two slashes on a later line: then what is quoted
counts as a comment.

Results:
* `isCommentAbove_above`: the comment above a line is made of the comment tokens there.
* `openingBrace?_of_mem_elementsOf`: the body of an element opens at the first brace after its
  keyword.
* `Model.documented_of_plainQuotes`: every declaration and every member of a file has the comment
  that the tokens give it.
-/

namespace InterfaceLang

open Grammar Directive

/-! ## Comments by tokens -/

/-- The texts of the comments that begin the lines of the longest run above `line` and below
`floor`, joined by line feeds. -/
def IsCommentAbove (ts : List Token) (floor line : Nat) (comment : String) : Prop :=
  ∃ texts top, Comment.IsRun (commentOn? ts) floor line texts top ∧
    comment = "\n".intercalate texts

/-- The first opening brace at or after a position. -/
def openingBrace? (ts : List Token) (pos : Position) : Option Token :=
  ts.find? fun t => t.kind = .punct .lbrace ∧ pos.offset ≤ t.pos.offset

/-- The declaration whose keyword is at `pos` and its members, each with its position, have the
comments that the tokens give them. -/
structure HasComments (ts : List Token) (pos : Position) (comment : String)
    (members : List (Position × String)) : Prop where
  own : IsCommentAbove ts 0 pos.line comment
  body : ∃ brace, openingBrace? ts pos = some brace ∧
    ∀ x ∈ members, IsCommentAbove ts brace.pos.line x.1.line x.2

theorem IsCommentAbove.unique {ts : List Token} {floor line : Nat} {comment comment' : String}
    (h : IsCommentAbove ts floor line comment) (h' : IsCommentAbove ts floor line comment') :
    comment = comment' := by
  obtain ⟨texts, top, hrun, rfl⟩ := h
  obtain ⟨texts', top', hrun', rfl⟩ := h'
  rw [hrun.unique hrun']

/-- The comment above a line is made of the comment tokens there. -/
theorem isCommentAbove_above {file source : String}
    (hknown : ∀ t ∈ tokens file source, t.kind ≠ .unknown)
    (hplain : PlainQuotes (tokens file source)) (floor line : Nat) :
    IsCommentAbove (tokens file source) floor line
      (Comment.above (Text.lines source.toList) floor line) := by
  obtain ⟨top, hrun⟩ := Comment.isRun_block (Text.lines source.toList) floor line
  refine ⟨_, top, (hrun.map String.ofList).congr fun n hn => ?_, rfl⟩
  exact (commentOn?_tokens hknown hplain (by omega)).symm

/-! ## The brace of a body -/

namespace Lexer

/-- Each token stands before those that follow it. -/
theorem pairwise_offset_tokensFrom (pos : Position) (cs : List Char) :
    (tokensFrom pos cs).Pairwise fun t u => t.pos.offset < u.pos.offset := by
  fun_induction tokensFrom pos cs with
  | case1 => exact .nil
  | case2 pos c cs ih =>
    refine List.pairwise_cons.2 ⟨fun u hu => ?_, ih⟩
    obtain ⟨before, _, _, hpos⟩ := exists_cut_of_mem_lexFrom (List.mem_append_left _ hu)
    have hlexeme : 0 < byteLength (c :: (scan c cs).tail) := byteLength_pos (by simp)
    rw [hpos, Position.offset_after, Position.offset_after]
    show pos.offset < _
    omega

end Lexer

section Brace

variable {source : SourceText} {items : List ItemTree}

theorem openingBrace?_of_append {before header rest : List Token} {keyword brace : Token}
    (hsorted : (before ++ keyword :: header ++ brace :: rest).Pairwise fun t u =>
      t.pos.offset < u.pos.offset)
    (hheader : ∀ t ∈ keyword :: header, t.kind ≠ .punct .lbrace)
    (hbrace : brace.kind = .punct .lbrace) :
    openingBrace? (before ++ keyword :: header ++ brace :: rest) keyword.pos = some brace := by
  obtain ⟨hfront, _, hcross⟩ := List.pairwise_append.1 hsorted
  have hlater : keyword.pos.offset < brace.pos.offset := hcross _ (by simp) _ (by simp)
  refine List.find?_eq_some_iff_append.2 ⟨?_, _, _, rfl, fun t ht => ?_⟩
  · simp only [decide_eq_true_eq]
    exact ⟨hbrace, Nat.le_of_lt hlater⟩
  · simp only [Bool.not_eq_true', decide_eq_false_iff_not, not_and]
    intro hkind
    rcases List.mem_append.1 ht with ht | ht
    · -- what comes before the keyword stands before it
      exact Nat.not_le_of_lt ((List.pairwise_append.1 hfront).2.2 t ht _ List.mem_cons_self)
    · exact absurd hkind (hheader t ht)

/-- Blanks and comments are no braces. -/
theorem openingBrace?_significant (source : SourceText) (pos : Position) :
    openingBrace? (Parser.significant source) pos =
      openingBrace? (tokens source.name source.text) pos := by
  unfold openingBrace? Parser.significant
  rw [List.find?_filter]
  congr 1
  funext t
  rw [decide_eq_decide]
  simp only [Bool.not_eq_true', decide_eq_true_eq, and_iff_right_iff_imp]
  rintro ⟨hkind, _⟩
  rw [Token.isTrivia, hkind]
  rfl

theorem exists_cut_of_mem_elementsOf {e : ElementTree} (h : e ∈ elementsOf items) :
    ∃ before after : List ItemTree,
      leaves items = leaves before ++ (leaves e ++ leaves after) := by
  obtain ⟨item, hitem, hleft⟩ := List.mem_filterMap.1 h
  obtain ⟨before, after, rfl⟩ := List.append_of_mem hitem
  have hitem : item = .inl e := Sum.getLeft?_eq_some_iff.1 hleft
  refine ⟨before, after, ?_⟩
  rw [hitem]
  exact List.flatMap_append

/-- The tokens of an element are tokens of the source. -/
theorem mem_tokens_of_mem_elementsOf {e : ElementTree} {t : Token}
    (hitems : leaves items = Parser.significant source) (he : e ∈ elementsOf items)
    (ht : t ∈ leaves e) : t ∈ tokens source.name source.text := by
  obtain ⟨before, after, hcut⟩ := exists_cut_of_mem_elementsOf he
  have hmem : t ∈ Parser.significant source := by
    rw [← hitems, hcut]
    exact List.mem_append_right _ (List.mem_append_left _ ht)
  exact (List.mem_filter.1 hmem).1

/-- The body of an element opens at the first brace after its keyword. -/
theorem openingBrace?_of_mem_elementsOf {δ ε : Type} [Phrase δ] [Phrase ε] {k : Keyword}
    {e : ElementTree} {keyword : Leaf (.keyword k)} (header : δ) {body : BodyTree ε}
    (hitems : leaves items = Parser.significant source) (he : e ∈ elementsOf items)
    (hquiet : QuietTrees δ)
    (hleaves : leaves e = keyword.token :: (leaves header ++ leaves body)) :
    openingBrace? (tokens source.name source.text) keyword.token.pos = some body.1.token := by
  obtain ⟨brace, members, closing⟩ := body
  obtain ⟨before, after, hcut⟩ := exists_cut_of_mem_elementsOf he
  have hsplit : Parser.significant source = leaves before ++ keyword.token :: leaves header ++
      brace.token :: (leaves members ++ closing.token :: leaves after) := by
    rw [← hitems, hcut, hleaves]
    simp
  have hsorted : (Parser.significant source).Pairwise fun t u => t.pos.offset < u.pos.offset :=
    (Lexer.pairwise_offset_tokensFrom (.start source.name) source.text.toList).filter _
  have hheader : ∀ t ∈ keyword.token :: leaves header, t.kind ≠ .punct .lbrace := by
    refine List.forall_mem_cons.2 ⟨?_, fun t ht => (hquiet header t ht).1⟩
    rw [keyword.kind_eq]
    simp
  rw [hsplit] at hsorted
  rw [← openingBrace?_significant, hsplit]
  exact openingBrace?_of_append hsorted hheader brace.kind_eq

end Brace

/-! ## Declarations of a file -/

/-- The tokens of a file that parses are known, and they are those of its elements and its
directives. -/
theorem Parser.exists_items_of_parse {source : SourceText} {f : SourceFile}
    (h : parse source = .ok f) :
    (∀ t ∈ tokens source.name source.text, t.kind ≠ .unknown) ∧
      ∃ items : List ItemTree, leaves items = significant source ∧
        f.elements = (elementsOf items).elements := by
  have hknown : ∀ t ∈ tokens source.name source.text, t.kind ≠ .unknown := by
    cases hfind : (tokens source.name source.text).find? (·.kind = .unknown) with
    | none => simpa using hfind
    | some t =>
      unfold parse ofSource at h
      rw [hfind] at h
      cases h
  refine ⟨hknown, ?_⟩
  rw [parse_eq_readRest hknown] at h
  obtain ⟨d, hd⟩ := exists_leaves_of_readRest h
  obtain ⟨items, hitems⟩ := exists_items_of_kept hd.symm
  refine ⟨items, hitems, ?_⟩
  have hkept : leaves (elementsOf items) = (ofTokens source (significant source)).pending := by
    rw [← hitems]
    exact (congrArg Lifted.kept (lift_leaves items)).symm
  rw [readRest_of_leaves hkept] at h
  cases h
  rfl

/-- An interface and its methods have the comments that the tokens give them. -/
def Interface.Documented (i : Interface) (ts : List Token) : Prop :=
  HasComments ts i.pos i.comment (i.methods.map fun m => (m.pos, m.comment))

/-- A struct and its fields have the comments that the tokens give them. -/
def Struct.Documented (s : Struct) (ts : List Token) : Prop :=
  HasComments ts s.pos s.comment (s.fields.map fun f => (f.pos, f.comment))

/-- An enum and its values have the comments that the tokens give them. -/
def Enum.Documented (e : Enum) (ts : List Token) : Prop :=
  HasComments ts e.pos e.comment (e.values.map fun v => (v.pos, v.comment))

namespace Model

/-- All declarations of a model and all their members have the comments that the tokens of its file
give them. -/
structure Documented (m : Model) (ts : List Token) : Prop where
  interfaces : ∀ i ∈ m.interfaces, i.Documented ts
  structs : ∀ s ∈ m.structs, s.Documented ts
  enums : ∀ e ∈ m.enums, e.Documented ts

/-- The model of a source text, if it has one. -/
def ofSource? (source : SourceText) : Option Model := do
  let f ← (Parser.parse source).toOption
  (f.toModel source.text).toOption

theorem ofSource?_eq_some_iff {source : SourceText} {m : Model} :
    ofSource? source = some m ↔
      ∃ f, Parser.parse source = .ok f ∧ f.toModel source.text = .ok m := by
  cases hparse : Parser.parse source with
  | error e => simp [ofSource?, hparse, Except.toOption]
  | ok f => cases hm : f.toModel source.text <;> simp [ofSource?, hparse, hm, Except.toOption]

section Declarations

variable {source : SourceText} {items : List ItemTree}
  (hknown : ∀ t ∈ tokens source.name source.text, t.kind ≠ .unknown)
  (hplain : PlainQuotes (tokens source.name source.text))
  (hitems : leaves items = Parser.significant source)

include hknown hplain

/-- A declaration and its members, if their comments were taken from the lines. -/
theorem hasComments_of_lines {pos : Position} {comment : String} {brace : Token}
    {members : List (Position × String)}
    (hbrace : openingBrace? (tokens source.name source.text) pos = some brace)
    (hcomment : comment = Comment.above (Text.lines source.text.toList) 0 pos.line)
    (hmembers : ∀ x ∈ members,
      x.2 = Comment.above (Text.lines source.text.toList) brace.pos.line x.1.line) :
    HasComments (tokens source.name source.text) pos comment members where
  own := by
    rw [hcomment]
    exact isCommentAbove_above hknown hplain 0 pos.line
  body := by
    refine ⟨brace, hbrace, fun x hx => ?_⟩
    rw [hmembers x hx]
    exact isCommentAbove_above hknown hplain _ _

include hitems

theorem documented_ofInterface {d : InterfaceTree} (hd : .interfaceDecl d ∈ elementsOf items)
    (ns : String) :
    (ofInterface (Text.lines source.text.toList) ns (InterfaceTree.decl d)).Documented
      (tokens source.name source.text) := by
  obtain ⟨keyword, name, body⟩ := d
  refine hasComments_of_lines hknown hplain
    (openingBrace?_of_mem_elementsOf name hitems hd QuietTrees.name rfl) rfl ?_
  simp only [List.forall_mem_map, ofInterface]
  exact fun _ _ => rfl

theorem documented_ofStruct {d : StructTree} (hd : .structDecl d ∈ elementsOf items)
    (ns : String) :
    (ofStruct (Text.lines source.text.toList) ns (StructTree.decl d)).Documented
      (tokens source.name source.text) := by
  obtain ⟨keyword, name, parent, body⟩ := d
  refine hasComments_of_lines hknown hplain
    (openingBrace?_of_mem_elementsOf (name, parent) hitems hd
      (QuietTrees.name.pair QuietTrees.parent) rfl) rfl ?_
  simp only [List.forall_mem_map, ofStruct]
  exact fun _ _ => rfl

theorem documented_ofEnum {d : EnumTree} (hd : .enumDecl d ∈ elementsOf items) (ns : String) :
    (ofEnum (Text.lines source.text.toList) ns (EnumTree.decl d)).Documented
      (tokens source.name source.text) := by
  obtain ⟨keyword, name, body⟩ := d
  refine hasComments_of_lines hknown hplain
    (openingBrace?_of_mem_elementsOf name hitems hd QuietTrees.name rfl) rfl ?_
  simp only [List.forall_mem_map, ofEnum]
  exact fun _ _ => rfl

end Declarations

/-- In a file that parses and has a model, every declaration and every member has the comment that
the tokens give it, if no quoted text goes on with two slashes on a later line. -/
theorem documented_of_plainQuotes {source : SourceText} {f : SourceFile} {m : Model}
    (hparse : Parser.parse source = .ok f) (hmodel : f.toModel source.text = .ok m)
    (hplain : PlainQuotes (tokens source.name source.text)) :
    m.Documented (tokens source.name source.text) := by
  obtain ⟨hknown, items, hitems, helements⟩ := Parser.exists_items_of_parse hparse
  unfold SourceFile.toModel at hmodel
  cases hdecl : f.namespaceDecl? source.text with
  | error e =>
    rw [hdecl] at hmodel
    cases hmodel
  | ok decl =>
    rw [hdecl, helements] at hmodel
    cases hmodel
    constructor
    all_goals
      simp only [List.mem_filterMap, SourceTree.elements, List.mem_map]
      rintro _ ⟨decl, ⟨_, ⟨e, he, rfl⟩, hd⟩, rfl⟩
    case interfaces =>
      cases e with
      | interfaceDecl d =>
        cases hd
        exact documented_ofInterface hknown hplain hitems he _
      | _ => cases hd
    case structs =>
      cases e with
      | structDecl d =>
        cases hd
        exact documented_ofStruct hknown hplain hitems he _
      | _ => cases hd
    case enums =>
      cases e with
      | enumDecl d =>
        cases hd
        exact documented_ofEnum hknown hplain hitems he _
      | _ => cases hd

/-- A quoted path with a line break, and comments above a struct and above its field. -/
theorem documented_of_quoted_break :
    ∃ (source : SourceText) (f : SourceFile) (m : Model),
      source.text = "import \"a\nb\" // c\n// doc\nstruct S \x7b\n  // of f\n  f int \x7d" ∧
      Parser.parse source = .ok f ∧ f.toModel source.text = .ok m ∧
      PlainQuotes (tokens source.name source.text) ∧
      m.structs.map (fun s => (s.comment, s.fields.map (·.comment))) = [("doc", ["of f"])] ∧
      m.Documented (tokens source.name source.text) := by
  obtain ⟨source, hsource⟩ : ∃ source : SourceText, source =
    ⟨"", "import \"a\nb\" // c\n// doc\nstruct S \x7b\n  // of f\n  f int \x7d"⟩ := ⟨_, rfl⟩
  have hplain : PlainQuotes (tokens source.name source.text) := by
    rw [hsource]
    decide +kernel
  have hrun : (ofSource? source).map (fun m =>
      m.structs.map fun s => (s.comment, s.fields.map (·.comment))) = some [("doc", ["of f"])] := by
    rw [hsource]
    decide +kernel
  obtain ⟨m, hm, hcomments⟩ := Option.map_eq_some_iff.1 hrun
  obtain ⟨f, hparse, hmodel⟩ := ofSource?_eq_some_iff.1 hm
  exact ⟨source, f, m, congrArg SourceText.text hsource, hparse, hmodel, hplain, hcomments,
    documented_of_plainQuotes hparse hmodel hplain⟩

/-- A path that goes on with two slashes on a later line: the rest of the path and the comment
behind it count as the comment of the struct below, though the tokens give it none. -/
theorem not_documented_of_quoted_slashes :
    ∃ (source : SourceText) (f : SourceFile) (m : Model),
      source.text = "import \"a\n// b\" // c\nstruct S \x7b \x7d" ∧
      Parser.parse source = .ok f ∧ f.toModel source.text = .ok m ∧
      m.structs.map (fun s => (s.pos.line, s.comment)) = [(3, "b\" // c")] ∧
      IsCommentAbove (tokens source.name source.text) 0 3 "" ∧
      ¬m.Documented (tokens source.name source.text) := by
  obtain ⟨source, hsource⟩ : ∃ source : SourceText, source =
    ⟨"", "import \"a\n// b\" // c\nstruct S \x7b \x7d"⟩ := ⟨_, rfl⟩
  have hrun : (ofSource? source).map (fun m =>
      m.structs.map fun s => (s.pos.line, s.comment)) = some [(3, "b\" // c")] := by
    rw [hsource]
    decide +kernel
  have hnone : commentOn? (tokens source.name source.text) 2 = none := by
    rw [hsource]
    decide +kernel
  obtain ⟨m, hm, hcomments⟩ := Option.map_eq_some_iff.1 hrun
  obtain ⟨f, hparse, hmodel⟩ := ofSource?_eq_some_iff.1 hm
  have hempty : IsCommentAbove (tokens source.name source.text) 0 3 "" :=
    ⟨[], 3, .nil fun _ => hnone, rfl⟩
  refine ⟨source, f, m, congrArg SourceText.text hsource, hparse, hmodel, hcomments, hempty,
    fun hdoc => ?_⟩
  obtain ⟨s, hs, heq⟩ := List.mem_map.1 (hcomments ▸ List.mem_singleton_self _)
  obtain ⟨hline, hcomment⟩ := Prod.mk.inj heq
  have hown := (hdoc.structs s hs).own
  rw [hline, hcomment] at hown
  exact absurd (hown.unique hempty) (by decide)

end Model

end InterfaceLang
