import InterfaceLang.Proofs.Comment.Documentation
import InterfaceLang.Proofs.Grammar.Attempts
import InterfaceLang.Proofs.Token.Writing

/-!
# What a spot covers

A spot is a range of bytes of a source text. It is good for a diagnostic if the range lies in the
text and does not cut a character in two, and the question is then which characters it covers. The
tokens of a text tile it, so the range of a token covers the characters of the token, and the range
from one token to another covers theirs and those of all tokens between.

A syntax error is about one token. If its characters begin no token it is the first such token, else
it is the first token that makes the tokens to be read impossible. At the end of a text the end mark
plays this part, and its range is empty.

Results:
* `Spot.Covers.of_cut`: a range that is measured in characters lies in the text and cuts none.
* `Spot.covers_of_mem`, `Spot.covers_of_run`: the ranges of a token and of a run of tokens.
* `Spot.coversDirective`: the span of a directive covers the word, the path and what is between.
* `Spot.covers_namespaceName`: the span of the name of a namespace covers the name.
* `SyntaxError.labelled_of_attempt`: what the syntax errors of a parser point at.
-/

namespace InterfaceLang

open Grammar

/-- A spot covers a run of characters of its text: its span lies in the text, begins and ends
between two characters, and these are the characters in it. -/
structure Spot.Covers (s : Spot) (covered : List Char) : Prop where
  inside : s.span.offset + s.span.length ≤ s.source.text.utf8ByteSize
  begins : String.Pos.Raw.IsValid s.source.text ⟨s.span.offset⟩
  ends : String.Pos.Raw.IsValid s.source.text ⟨s.span.offset + s.span.length⟩
  cut : ∃ before after, s.source.text.toList = before ++ covered ++ after ∧
    s.span = ⟨byteLength before, byteLength covered⟩

/-- A spot covers a directive of its text, at the place where the directive stands: its span is that
of the directive, begins behind the tokens in front of the word `import`, and covers the word, the
gap and the path in quotes. -/
def Spot.CoversDirective (s : Spot) (d : Directive) : Prop :=
  s.span = d.span ∧ ∃ front word gap quoted back,
    tokens s.source.name s.source.text = front ++ (word :: gap ++ [quoted]) ++ back ∧
    word.kind = .identifier Directive.word ∧ word.pos = d.pos ∧ (∀ t ∈ gap, t.isTrivia = true) ∧
    quoted.kind = .stringLiteral d.path ∧
    s.span.offset = byteLength (front.flatMap (·.lexeme)) ∧
    s.Covers (Directive.word.toList ++ gap.flatMap (·.lexeme) ++
      ('"' :: d.path.toList ++ ['"']))

/-! ## Spots of tokens -/

namespace Spot

variable {s : Spot} {before covered after : List Char}

theorem Covers.of_cut (htext : s.source.text.toList = before ++ covered ++ after)
    (hspan : s.span = ⟨byteLength before, byteLength covered⟩) : s.Covers covered where
  inside := by
    have hsize : s.source.text.utf8ByteSize =
        byteLength before + byteLength covered + byteLength after := by
      rw [← byteLength_append, ← byteLength_append, ← htext, byteLength_eq_utf8ByteSize,
        String.ofList_toList]
    rw [hspan, hsize]
    exact Nat.le_add_right _ _
  begins := by
    rw [hspan]
    rw [List.append_assoc] at htext
    exact isValid_byteLength htext
  ends := by
    have hvalid := isValid_byteLength htext
    rw [byteLength_append] at hvalid
    rwa [hspan]
  cut := ⟨before, after, htext, hspan⟩

theorem covers_start (hspan : s.span = ⟨0, 0⟩) : s.Covers [] :=
  @Covers.of_cut s [] [] s.source.text.toList rfl hspan

/-- The span of a token covers its characters. -/
theorem covers_of_mem {t : Token} (h : t ∈ lex s.source.name s.source.text)
    (hspan : s.span = t.span) : s.Covers t.lexeme := by
  obtain ⟨before, after, hcut, hpos⟩ := Lexer.exists_cut_of_mem_lex h
  refine .of_cut hcut ?_
  rw [hspan, ← Lexer.offset_eq_byteLength hpos]
  rfl

end Spot

namespace Lexer

/-- A token begins where the tokens before it end. -/
theorem pos_of_tokensFrom {pos : Position} {cs : List Char} {t : Token} {front back : List Token}
    (h : tokensFrom pos cs = front ++ t :: back) :
    t.pos = pos.after (front.flatMap (·.lexeme)) := by
  induction front generalizing pos cs with
  | nil =>
    cases cs with
    | nil =>
      rw [tokensFrom] at h
      cases h
    | cons c cs =>
      rw [tokensFrom] at h
      cases h
      rfl
  | cons u front ih =>
    cases cs with
    | nil =>
      rw [tokensFrom] at h
      cases h
    | cons c cs =>
      rw [tokensFrom] at h
      obtain ⟨rfl, htail⟩ := List.cons.inj h
      rw [ih htail, List.flatMap_cons, Position.after_append]

theorem offset_of_tokens {file source : String} {t : Token} {front back : List Token}
    (h : tokens file source = front ++ t :: back) :
    t.pos.offset = byteLength (front.flatMap (·.lexeme)) :=
  offset_eq_byteLength (pos_of_tokensFrom h)

end Lexer

/-- The span of a run of tokens covers their characters. -/
theorem Spot.covers_of_run {s : Spot} {front run back : List Token}
    (h : tokens s.source.name s.source.text = front ++ run ++ back)
    (hspan : s.span =
      ⟨byteLength (front.flatMap (·.lexeme)), byteLength (run.flatMap (·.lexeme))⟩) :
    s.Covers (run.flatMap (·.lexeme)) := by
  have htext := Lexer.flatMap_lexeme_tokens s.source.name s.source.text
  rw [h, List.flatMap_append, List.flatMap_append] at htext
  exact .of_cut htext.symm hspan

/-! ## Spots of directives and namespaces -/

/-- Two tokens that the grammar sees side by side have only trivia between them. -/
theorem Parser.exists_gap_of_significant {source : SourceText} {before after : List Token}
    {t u : Token} (h : significant source = before ++ [t, u] ++ after) :
    ∃ front gap back, tokens source.name source.text = front ++ (t :: gap ++ [u]) ++ back ∧
      ∀ v ∈ gap, v.isTrivia = true := by
  rw [significant, List.append_assoc] at h
  obtain ⟨front, rest, hsplit, _, hrest⟩ := List.filter_eq_append_iff.1 h
  obtain ⟨skipped, rest', hsplit', _, _, hrest'⟩ := List.filter_eq_cons_iff.1 hrest
  obtain ⟨gap, back, hsplit'', hgap, _, _⟩ := List.filter_eq_cons_iff.1 hrest'
  refine ⟨front ++ skipped, gap, back, ?_, fun v hv => by simpa using hgap v hv⟩
  rw [hsplit, hsplit', hsplit'']
  simp

namespace Directive

theorem mem_of_mem_distinct {d : Directive} {seen : List String} {ds : List Directive}
    (h : d ∈ distinct seen ds) : d ∈ ds := by
  fun_induction distinct seen ds with
  | case1 => cases h
  | case2 seen e ds he ih => exact List.mem_cons_of_mem _ (ih h)
  | case3 seen e ds he ih =>
    rcases List.mem_cons.1 h with rfl | h
    · exact List.mem_cons_self
    · exact List.mem_cons_of_mem _ (ih h)

/-- A directive that is lifted is written by a word and a path that stand side by side. -/
theorem exists_tree_of_mem_imports {ts : List Token} {d : Directive}
    (h : d ∈ (extract ts).imports) :
    ∃ before after, ∃ tree : DirectiveTree, ts = before ++ leaves tree ++ after ∧
      tree.directive = d := by
  obtain ⟨pieces, hpieces, _, hdirectives⟩ := exists_pieces .start ts
  have hmem : d ∈ (lift .start ts).directives := mem_of_mem_distinct h
  rw [hdirectives] at hmem
  obtain ⟨tree, htree, rfl⟩ := List.mem_map.1 hmem
  obtain ⟨piece, hpiece, hright⟩ := List.mem_filterMap.1 htree
  obtain ⟨before, after, rfl⟩ := List.append_of_mem hpiece
  have hpiece : piece = .inr tree := Sum.getRight?_eq_some_iff.1 hright
  refine ⟨leaves before, leaves after, tree, ?_, rfl⟩
  rw [← hpieces, hpiece, List.append_assoc]
  exact List.flatMap_append

end Directive

section Source

variable {source : SourceText} {s : Spot}

/-- The span of a directive covers it. -/
theorem Spot.coversDirective {d : Directive}
    (h : d ∈ (Directive.extract (Parser.significant source)).imports) (hsource : s.source = source)
    (hspan : s.span = d.span) : s.CoversDirective d := by
  obtain ⟨before, after, ⟨word, path⟩, hsplit, rfl⟩ := Directive.exists_tree_of_mem_imports h
  obtain ⟨front, gap, back, htokens, hgap⟩ := Parser.exists_gap_of_significant hsplit
  have hmem : ∀ t ∈ word.token :: gap ++ [path.token], t ∈ tokens source.name source.text := by
    intro t ht
    rw [htokens]
    exact List.mem_append_left _ (List.mem_append_right _ ht)
  have hword : word.token.lexeme = Directive.word.toList :=
    Lexer.lexeme_eq_of_spelling? (hmem _ List.mem_cons_self) (by rw [word.kind_eq]; rfl)
  have hpath : path.token.lexeme = '"' :: path.path.toList ++ ['"'] :=
    Lexer.lexeme_of_stringLiteral (hmem _ (by simp)) path.kind_eq
  have hfirst : tokens source.name source.text =
      front ++ word.token :: (gap ++ [path.token] ++ back) := by
    rw [htokens]
    simp
  have hlast : tokens source.name source.text =
      (front ++ word.token :: gap) ++ path.token :: back := by
    rw [htokens]
    simp
  have hrun : (word.token :: gap ++ [path.token]).flatMap (·.lexeme) =
      Directive.word.toList ++ gap.flatMap (·.lexeme) ++ ('"' :: path.path.toList ++ ['"']) := by
    rw [← hword, ← hpath]
    simp
  -- the path begins where the word and the gap end, so the difference is the length of all three
  have hlength : path.token.stop - word.token.pos.offset =
      byteLength ((word.token :: gap ++ [path.token]).flatMap (·.lexeme)) := by
    rw [Token.stop, Token.size, Lexer.offset_of_tokens hfirst, Lexer.offset_of_tokens hlast]
    simp only [List.flatMap_append, List.flatMap_cons, List.flatMap_nil, List.append_nil,
      byteLength_append]
    omega
  rw [← hsource] at htokens
  have hplace : s.span = ⟨byteLength (front.flatMap (·.lexeme)),
      byteLength ((word.token :: gap ++ [path.token]).flatMap (·.lexeme))⟩ := by
    rw [hspan, ← hlength, ← Lexer.offset_of_tokens hfirst]
    rfl
  refine ⟨hspan, front, word.token, gap, path.token, back, htokens, word.kind_eq, rfl, hgap,
    path.kind_eq, by rw [hplace], ?_⟩
  have hcovers := Spot.covers_of_run htokens hplace
  rw [hrun] at hcovers
  exact hcovers

/-- The span of the name of a namespace covers the name. -/
theorem Spot.covers_namespaceName {f : SourceFile} {d : NamespaceDecl}
    (h : Parser.parse source = .ok f) (hd : d ∈ f.namespaces) (hsource : s.source = source)
    (hspan : s.span = d.name.span) : s.Covers d.name.name.toList := by
  obtain ⟨_, items, hitems, helements⟩ := Parser.exists_items_of_parse h
  rw [SourceFile.namespaces, helements] at hd
  obtain ⟨element, helement, hnamespace⟩ := List.mem_filterMap.1 hd
  obtain ⟨e, he, rfl⟩ := List.mem_map.1 helement
  cases e with
  | namespaceDecl tree =>
    obtain ⟨keyword, name⟩ := tree
    cases hnamespace
    have hname : name.token ∈ tokens source.name source.text :=
      mem_tokens_of_mem_elementsOf hitems he (List.mem_cons_of_mem _ List.mem_cons_self)
    have hlexeme : name.token.lexeme = name.name.toList :=
      Lexer.lexeme_eq_of_spelling? hname (by rw [name.kind_eq]; rfl)
    have hsize : s.span = name.token.span := by
      rw [hspan, Token.span, Token.size, hlexeme, byteLength_eq_utf8ByteSize, String.ofList_toList]
      rfl
    rw [← hsource] at hname
    have hcovers := Spot.covers_of_mem (List.mem_append_left _ hname) hsize
    rwa [hlexeme] at hcovers
  | _ => cases hnamespace

end Source

/-! ## Spots of syntax errors -/

/-- What a syntax error of a source text points at, in the given attempt of its parser: at the first
token that begins no token of the language, or at the first token that is impossible where the
attempt begins. -/
inductive SyntaxError.Labelled (source : SourceText) (n : Nat) : SyntaxError → Prop
  | invalidToken {t : Token} {s : Spot} :
      (tokens source.name source.text).find? (·.kind = .unknown) = some t → s.source = source →
      s.span = t.span → s.Covers t.lexeme →
      Labelled source n (.invalidToken (String.ofList t.lexeme) s)
  | unexpectedToken {p : Parser} {before : List Token} {t : Token} {expected : Expected}
      {s : Spot} : Parser.ofSource source = .ok p →
      FirstImpossible ((p.after n).pending ++ [endMark source.name source.text]) before t →
      t ∈ tokens source.name source.text → s.source = source → s.span = t.span →
      s.Covers t.lexeme → Labelled source n (.unexpectedToken t.kind expected s)
  | unexpectedEnd {p : Parser} {before : List Token} {expected : Expected} {s : Spot} :
      Parser.ofSource source = .ok p →
      FirstImpossible ((p.after n).pending ++ [endMark source.name source.text]) before
        (endMark source.name source.text) →
      s.source = source → s.span = ⟨source.text.utf8ByteSize, 0⟩ → s.Covers [] →
      Labelled source n (.unexpectedEnd expected s)

namespace SyntaxError

variable {source : SourceText} {e : SyntaxError}

theorem labelled_of_ofSource (h : Parser.ofSource source = .error e) (n : Nat) :
    e.Labelled source n := by
  unfold Parser.ofSource at h
  split at h
  · next t hfind =>
    cases h
    have hmem : t ∈ tokens source.name source.text := List.mem_of_find?_eq_some hfind
    exact .invalidToken hfind rfl rfl (Spot.covers_of_mem (List.mem_append_left _ hmem) rfl)
  · cases h

theorem span_endMark (source : SourceText) :
    (endMark source.name source.text).span = ⟨source.text.utf8ByteSize, 0⟩ := by
  have hoffset : (endMark source.name source.text).pos.offset = source.text.utf8ByteSize := by
    rw [Lexer.offset_eq_byteLength rfl, byteLength_eq_utf8ByteSize, String.ofList_toList]
  rw [Token.span, hoffset]
  rfl

/-- A failed attempt complains of the first token that is impossible. -/
theorem labelled_of_attempt {p : Parser} {n : Nat} (h : Parser.ofSource source = .ok p)
    (herror : (p.after n).readRest.1 = .error e) : e.Labelled source n := by
  obtain ⟨hsource, hstands, _⟩ := Parser.stands_of_ofSource h
  obtain ⟨hsame, hstands⟩ := hstands.after n
  rw [hsource] at hsame
  have hpending : ∀ t ∈ (p.after n).pending, t ∈ tokens source.name source.text := by
    intro t ht
    have hkept := hstands.suffix.subset ht
    rw [hsame] at hkept
    exact (List.mem_filter.1 ((Directive.kept_sublist _ _).subset hkept)).1
  unfold Parser.readRest at herror
  split at herror
  · cases herror
  · next stuck hstuck =>
    cases herror
    rw [hsame]
    obtain ⟨before, t, after, hnext, hfirst⟩ :=
      firstImpossible_of_file hstuck (fun t ht => Lexer.kind_ne_eof (hpending t ht))
        (rfl : (endMark source.name source.text).kind = .eof)
    have hsuffix := reads_file.suffix_of_error hstuck
    unfold Parser.complaint
    cases hrest : stuck.rest with
    | nil =>
      rw [hrest] at hnext
      cases hnext
      refine .unexpectedEnd h hfirst rfl (span_endMark source) ?_
      exact Spot.covers_of_mem (List.mem_append_right _ (List.mem_singleton.2 rfl)) rfl
    | cons u us =>
      rw [hrest] at hnext hsuffix
      cases hnext
      have hmem := hpending _ (hsuffix.subset List.mem_cons_self)
      exact .unexpectedToken h hfirst hmem rfl rfl
        (Spot.covers_of_mem (List.mem_append_left _ hmem) rfl)

end SyntaxError

end InterfaceLang
