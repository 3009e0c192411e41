import InterfaceLang.Parser
import InterfaceLang.Proofs.Grammar.Lifting

/-!
# What a parser accepts

A parser lifts the directives out of a stream and reads what is left as a file. So it accepts the
streams that the grammar derives when files may hold directives between their elements, and for a
stream without directives these are the streams that the grammar derives as it stands. A stream has
at most one derivation, and the parser gives what it means. Streams stand without their end mark.

Results:
* `Parser.readRest_derives`: a stream without directives is accepted exactly if it is derivable.
* `Parser.readRest_derives_items`: any stream is accepted exactly if it is derivable with
  directives, and the imports are its directives, each path once.
* `Parser.parse_eq_readRest`: parsing a source text is reading its tokens, if all are known.
-/

namespace InterfaceLang

open Grammar

namespace Grammar

theorem file_leaves (d : SourceTree) : file (leaves d) = .ok (d.elements, []) := by
  have h := recognises_file.complete d rfl
  rwa [List.append_nil] at h

theorem file_unique {d d' : SourceTree} (h : leaves d = leaves d') : d = d' :=
  recognises_file.unique rfl rfl (by rw [h])

theorem exists_leaves_of_file {ts rest : List Token} {es : List Element}
    (h : file ts = .ok (es, rest)) : ∃ d : SourceTree, leaves d = ts := by
  obtain ⟨d, hd, _⟩ := recognises_file.sound h
  rw [rest_eq_nil_of_file h, List.append_nil] at hd
  exact ⟨d, hd⟩

end Grammar

namespace Parser

/-- A parser at the beginning of a stream without trivia. -/
def ofTokens (source : SourceText) (ts : List Token) : Parser :=
  let e := Directive.extract ts
  ⟨source, e.kept, e.imports, e.repetitions⟩

/-- The parser of a source text whose characters all begin tokens is the parser of its tokens. -/
theorem ofSource_of_known {source : SourceText}
    (h : ∀ t ∈ tokens source.name source.text, t.kind ≠ .unknown) :
    ofSource source = .ok (ofTokens source (significant source)) := by
  have hnone : (tokens source.name source.text).find? (·.kind = .unknown) = none := by
    simpa using h
  unfold ofSource
  rw [hnone]
  rfl

theorem parse_eq_readRest {source : SourceText}
    (h : ∀ t ∈ tokens source.name source.text, t.kind ≠ .unknown) :
    parse source = (ofTokens source (significant source)).readRest.1 := by
  rw [parse, ofSource_of_known h]
  rfl

theorem readRest_of_leaves {p : Parser} {d : SourceTree} (h : leaves d = p.pending) :
    p.readRest.1 = .ok ⟨p.source.name, p.imports, d.elements⟩ := by
  unfold readRest
  rw [← h, file_leaves]

theorem exists_leaves_of_readRest {p : Parser} {f : SourceFile} (h : p.readRest.1 = .ok f) :
    ∃ d : SourceTree, leaves d = p.pending := by
  unfold readRest at h
  split at h
  · next hfile => exact exists_leaves_of_file hfile
  · cases h

theorem file_of_readRest {p : Parser} {f : SourceFile} (h : p.readRest.1 = .ok f) :
    f.file = p.source.name := by
  obtain ⟨d, hd⟩ := exists_leaves_of_readRest h
  rw [readRest_of_leaves hd] at h
  cases h
  rfl

/-- A stream in which no directive is recognised is accepted exactly if it is derivable. Then it has
one derivation, and the file is what that derivation means. -/
theorem readRest_derives (source : SourceText) (ts : List Token)
    (h : (Directive.extract ts).imports = []) :
    ((∃ f, (ofTokens source ts).readRest.1 = .ok f) ↔ ∃ d : SourceTree, leaves d = ts) ∧
      ∀ d : SourceTree, leaves d = ts →
        (∀ d' : SourceTree, leaves d' = ts → d' = d) ∧
        (ofTokens source ts).readRest.1 = .ok ⟨source.name, [], d.elements⟩ := by
  have hkept := Directive.kept_extract_of_imports_eq_nil h
  have hread : ∀ d : SourceTree, leaves d = ts →
      (ofTokens source ts).readRest.1 = .ok ⟨source.name, [], d.elements⟩ := by
    intro d hd
    rw [readRest_of_leaves (hd.trans hkept.symm)]
    show Except.ok (SourceFile.mk source.name (Directive.extract ts).imports d.elements) = _
    rw [h]
  refine ⟨⟨?_, ?_⟩, ?_⟩
  · rintro ⟨f, hf⟩
    obtain ⟨d, hd⟩ := exists_leaves_of_readRest hf
    exact ⟨d, hd.trans hkept⟩
  · rintro ⟨d, hd⟩
    exact ⟨_, hread d hd⟩
  · intro d hd
    exact ⟨fun d' hd' => file_unique (hd'.trans hd.symm), hread d hd⟩

/-- A struct and a field of it that are named like the word of a directive. -/
theorem readRest_derives_of_names :
    ∃ source : SourceText, source.text = "struct import { import []a.b }" ∧
      (Directive.extract (significant source)).imports = [] ∧
      ∃ d : SourceTree, leaves d = significant source ∧
        (ofTokens source (significant source)).readRest.1 = .ok ⟨source.name, [], d.elements⟩ := by
  obtain ⟨source, hsource⟩ : ∃ source : SourceText,
    source = ⟨"", "struct import { import []a.b }"⟩ := ⟨_, rfl⟩
  have himports : (Directive.extract (significant source)).imports = [] := by
    rw [hsource]
    decide +kernel
  have hisOk : (ofTokens source (significant source)).readRest.1.isOk = true := by
    rw [hsource]
    decide +kernel
  obtain ⟨hiff, hmeans⟩ := readRest_derives source _ himports
  have hok : ∃ f, (ofTokens source (significant source)).readRest.1 = .ok f := by
    cases hread : (ofTokens source (significant source)).readRest.1 with
    | ok f => exact ⟨f, rfl⟩
    | error e =>
      rw [hread] at hisOk
      cases hisOk
  obtain ⟨d, hd⟩ := hiff.1 hok
  exact ⟨source, congrArg SourceText.text hsource, himports, d, hd, (hmeans d hd).2⟩

/-- Any stream is accepted exactly if it is derivable from elements and directives. Then it has one
such derivation: the elements are those of the derivation, the imports are its directives without
those that name a path again, and what lifting keeps are the tokens of its elements. Of any stream,
lifting takes out pairs of the word `import` and a path, and it keeps all else, an end mark too. -/
theorem readRest_derives_items (source : SourceText) (ts : List Token) :
    ((∃ f, (ofTokens source ts).readRest.1 = .ok f) ↔ ∃ items : List ItemTree, leaves items = ts) ∧
    (∀ items : List ItemTree, leaves items = ts →
      (∀ items' : List ItemTree, leaves items' = ts → items' = items) ∧
      (ofTokens source ts).readRest.1 = .ok ⟨source.name,
        (directivesOf items).eraseDupsBy fun d d' => d.path == d'.path,
        (elementsOf items).elements⟩ ∧
      (Directive.extract ts).kept = leaves (elementsOf items)) ∧
    (∃ pieces : List (Token ⊕ DirectiveTree), leaves pieces = ts ∧
      (Directive.extract ts).kept = pieces.filterMap Sum.getLeft? ∧
      (Directive.extract ts).imports =
        ((pieces.filterMap Sum.getRight?).map DirectiveTree.directive).eraseDupsBy
          fun d d' => d.path == d'.path) ∧
    ∀ e : Token, e.kind = .eof →
      (Directive.extract (ts ++ [e])).kept = (Directive.extract ts).kept ++ [e] ∧
      (Directive.extract (ts ++ [e])).imports = (Directive.extract ts).imports := by
  have hread : ∀ items : List ItemTree, leaves items = ts →
      (ofTokens source ts).readRest.1 = .ok ⟨source.name,
        (directivesOf items).eraseDupsBy fun d d' => d.path == d'.path,
        (elementsOf items).elements⟩ ∧
      (Directive.extract ts).kept = leaves (elementsOf items) := by
    rintro items rfl
    have hlift := Directive.lift_leaves items
    have hkept : (Directive.extract (leaves items)).kept = leaves (elementsOf items) :=
      congrArg Directive.Lifted.kept hlift
    refine ⟨?_, hkept⟩
    rw [readRest_of_leaves hkept.symm, ← Directive.distinct_eq_eraseDupsBy]
    show Except.ok (SourceFile.mk source.name
      (Directive.distinct [] (Directive.lift .start (leaves items)).directives) _) = _
    rw [hlift]
  refine ⟨⟨?_, ?_⟩, ?_, ?_, ?_⟩
  · rintro ⟨f, hf⟩
    obtain ⟨d, hd⟩ := exists_leaves_of_readRest hf
    exact Directive.exists_items_of_kept hd.symm
  · rintro ⟨items, hitems⟩
    exact ⟨_, (hread items hitems).1⟩
  · intro items hitems
    exact ⟨fun items' hitems' => Directive.items_unique (hitems'.trans hitems.symm),
      hread items hitems⟩
  · obtain ⟨pieces, hpieces, hkept, hdirectives⟩ := Directive.exists_pieces .start ts
    refine ⟨pieces, hpieces, hkept, ?_⟩
    rw [← hdirectives, ← Directive.distinct_eq_eraseDupsBy]
    rfl
  · intro e he
    have hlift := Directive.lift_concat_of_eof he .start ts
    unfold Directive.extract
    rw [hlift]
    exact ⟨rfl, rfl⟩

end Parser

end InterfaceLang
