import InterfaceLang.Proofs.Grammar.Acceptance
import InterfaceLang.Proofs.Grammar.Spelling
import InterfaceLang.Proofs.Validation.Reordering

/-!
# Types and their text

A type is shown as it is written in a source, without blanks. Its text can be read back: each piece
of it is read as the tokens that it stands for, since brackets, words and dots keep each other
apart, and these tokens are the leaves of a tree of the type. The other way round, a tree of a type
holds words and marks only, and their characters one after another are the text of the type.

Results:
* `exists_typeTree`: the tokens of the text of a type are the leaves of a tree of it.
* `text_type`: the leaves of a tree spell the text of its type.
* `typeExpr_text`: reading the text of a type gives the type, and what is read as a type spells its
  text.
-/

namespace InterfaceLang

/-- A reference by identifiers that are joined by dots and not reserved. -/
def TypeRef.Writable (r : TypeRef) : Prop :=
  ∃ parts : List String, parts ≠ [] ∧ r.name = ".".intercalate parts ∧
    ∀ part ∈ parts, Name.isIdentifier part = true ∧ part ∉ reservedWords

/-- A type whose reference, if it has one, can be written. -/
def TypeExpr.Writable (t : TypeExpr) : Prop :=
  ∀ r ∈ t.leaf, r.Writable

namespace Grammar

open Lexer

/-! ## From the text to a tree -/

/-- The parts of a dotted name after the first, as they are written. -/
def dotText (parts : List String) : List Char :=
  parts.flatMap fun part => '.' :: part.toList

theorem toList_intercalate_dot (first : String) (more : List String) :
    (".".intercalate (first :: more)).toList = first.toList ++ dotText more := by
  induction more generalizing first with
  | nil => simp [dotText]
  | cons part more ih =>
    rw [String.intercalate_cons_cons, String.toList_append, String.toList_append, ih]
    simp [dotText]

theorem head?_dotText (parts : List String) :
    ∀ c ∈ (dotText parts).head?, Name.isWordChar c = false := by
  cases parts with
  | nil => simp [dotText]
  | cons part parts =>
    rintro _ ⟨⟩
    rfl

/-- A name leaf for an identifier. -/
def nameLeaf {name : String} (h : name ∉ reservedWords) (pos : Position) : NameLeaf where
  token := ⟨wordKind name, name.toList, pos⟩
  name := name
  kind_eq := wordKind_of_not_mem_reservedWords h

theorem tokensFrom_name {name : String} (hname : Name.isIdentifier name = true)
    (h : name ∉ reservedWords) {cs : List Char} (hcs : ∀ c ∈ cs.head?, Name.isWordChar c = false)
    (pos : Position) :
    tokensFrom pos (name.toList ++ cs) =
      leaves (nameLeaf h pos) ++ tokensFrom (pos.after name.toList) cs := by
  rw [tokensFrom_word hname hcs, String.ofList_toList]
  rfl

theorem exists_dotTrees {parts : List String}
    (h : ∀ part ∈ parts, Name.isIdentifier part = true ∧ part ∉ reservedWords) (pos : Position) :
    ∃ ds : List (Leaf (.punct .dot) × NameLeaf),
      leaves ds = tokensFrom pos (dotText parts) ∧ ds.map (fun d => d.2.name) = parts := by
  induction parts generalizing pos with
  | nil =>
    refine ⟨[], ?_, rfl⟩
    rw [dotText, List.flatMap_nil, tokensFrom]
    rfl
  | cons part parts ih =>
    obtain ⟨⟨hword, hfree⟩, hparts⟩ := List.forall_mem_cons.1 h
    obtain ⟨ds, hds, hnames⟩ := ih hparts ((pos.after ['.']).after part.toList)
    refine ⟨(⟨⟨.punct .dot, ['.'], pos⟩, rfl⟩, nameLeaf hfree (pos.after ['.'])) :: ds, ?_, ?_⟩
    · have htext : dotText (part :: parts) =
          Punct.dot.char :: (part.toList ++ dotText parts) := rfl
      rw [htext, tokensFrom_punct (by simp), tokensFrom_name hword hfree (head?_dotText parts)]
      rw [leaves_cons, hds]
      rfl
    · rw [List.map_cons, hnames]
      rfl

theorem exists_dottedTree {r : TypeRef} (h : r.Writable) (pos : Position) :
    ∃ d : DottedTree, leaves d = tokensFrom pos r.name.toList ∧
      (DottedTree.ident d).name = r.name := by
  obtain ⟨parts, hne, hname, hparts⟩ := h
  obtain ⟨first, more, rfl⟩ := List.exists_cons_of_ne_nil hne
  obtain ⟨⟨hword, hfree⟩, hmore⟩ := List.forall_mem_cons.1 hparts
  obtain ⟨ds, hds, hnames⟩ := exists_dotTrees hmore (pos.after first.toList)
  refine ⟨(nameLeaf hfree pos, ds), ?_, ?_⟩
  · rw [hname, toList_intercalate_dot, tokensFrom_name hword hfree (head?_dotText more), ← hds]
    rfl
  · rw [hname, DottedTree.ident, hnames]
    rfl

/-- The brackets of an array are not taken for an optional mark. -/
theorem exists_bracketsTree (pos : Position) (cs : List Char) :
    ∃ (d : BracketsTree) (pos' : Position),
      tokensFrom pos ("[]".toList ++ cs) = leaves d ++ tokensFrom pos' cs := by
  have htext : "[]".toList = [Punct.lbracket.char, Punct.rbracket.char] := by simp [Punct.char]
  have hmark : ¬optionalTail <+: Punct.rbracket.char :: cs :=
    not_optionalTail_of_ne (by decide) cs
  rw [htext, List.cons_append, List.singleton_append, tokensFrom_punct fun _ => hmark,
    tokensFrom_punct (by simp)]
  exact ⟨(⟨_, rfl⟩, ⟨_, rfl⟩), _, rfl⟩

/-- What stands before the values of a map is read as a keyword, a built-in type and brackets. -/
theorem exists_keyTree (pos : Position) (cs : List Char) :
    ∃ (d : KeyTree) (pos' : Position),
      tokensFrom pos ("map[string]".toList ++ cs) = leaves d ++ tokensFrom pos' cs := by
  have htext : "map[string]".toList ++ cs =
      Keyword.mapKw.text.toList ++ Punct.lbracket.char ::
        (BuiltIn.string.text.toList ++ Punct.rbracket.char :: cs) := by
    simp [Punct.char, BuiltIn.text, Keyword.text]
  have hmark : ¬optionalTail <+: BuiltIn.string.text.toList ++ Punct.rbracket.char :: cs :=
    not_optionalTail_of_ne (c := 's') (by decide) _
  rw [htext, tokensFrom_keyword .mapKw (by rintro _ ⟨⟩; rfl), tokensFrom_punct fun _ => hmark,
    tokensFrom_builtIn .string (by rintro _ ⟨⟩; rfl), tokensFrom_punct (by simp)]
  exact ⟨(⟨_, rfl⟩, ⟨_, rfl⟩, ⟨_, rfl⟩, ⟨_, rfl⟩), _, rfl⟩

/-- The tokens of the text of a type are the leaves of a tree of the type. -/
theorem exists_typeTree {t : TypeExpr} (h : t.Writable) (pos : Position) :
    ∃ d : TypeTree, leaves d = tokensFrom pos t.text.toList ∧ d.type.bare = t.bare := by
  induction t generalizing pos with
  | builtIn b =>
    have hend : ∀ c ∈ ([] : List Char).head?, Name.isWordChar c = false := by simp
    have htokens := tokensFrom_builtIn b hend pos
    rw [List.append_nil, tokensFrom] at htokens
    exact ⟨.builtIn ⟨_, b, rfl⟩, htokens.symm, rfl⟩
  | array e ih =>
    obtain ⟨brackets, pos', hbrackets⟩ := exists_bracketsTree pos e.text.toList
    obtain ⟨d, hd, htype⟩ := ih h pos'
    refine ⟨.array brackets d, ?_, congrArg TypeExpr.array htype⟩
    rw [TypeExpr.text, String.toList_append, hbrackets, leaves_array, hd]
  | mapOf v ih =>
    obtain ⟨key, pos', hkey⟩ := exists_keyTree pos v.text.toList
    obtain ⟨d, hd, htype⟩ := ih h pos'
    refine ⟨.mapOf key d, ?_, congrArg TypeExpr.mapOf htype⟩
    rw [TypeExpr.text, String.toList_append, hkey, leaves_mapOf, hd]
  | named r =>
    obtain ⟨d, hd, hname⟩ := exists_dottedTree (h r rfl) pos
    exact ⟨.named d, hd, congrArg (fun name => TypeExpr.named ⟨name, default⟩) hname⟩

/-! ## From a tree to the text -/

/-- The characters of tokens, one after another. -/
def textOf (ts : List Token) : List Char :=
  ts.flatMap (·.lexeme)

theorem textOf_append (ts us : List Token) : textOf (ts ++ us) = textOf ts ++ textOf us :=
  List.flatMap_append

/-- A token that is written as its kind says. -/
def IsSpelled (t : Token) : Prop :=
  t.kind.spelling? = some t.lexeme

theorem textOf_leaf {kind : TokenKind} {w : List Char} (l : Leaf kind)
    (hw : kind.spelling? = some w) (h : ∀ t ∈ leaves l, IsSpelled t) : textOf (leaves l) = w := by
  have hlexeme := h l.token List.mem_cons_self
  rw [IsSpelled, l.kind_eq, hw] at hlexeme
  rw [leaves_leaf, textOf, List.flatMap_singleton]
  exact (Option.some.inj hlexeme).symm

theorem textOf_nameLeaf {n : NameLeaf} (h : ∀ t ∈ leaves n, IsSpelled t) :
    textOf (leaves n) = n.name.toList :=
  textOf_leaf (⟨n.token, n.kind_eq⟩ : Leaf (.identifier n.name)) rfl h

theorem textOf_builtInLeaf {b : BuiltInLeaf} (h : ∀ t ∈ leaves b, IsSpelled t) :
    textOf (leaves b) = b.builtIn.text.toList :=
  textOf_leaf (⟨b.token, b.kind_eq⟩ : Leaf (.builtIn b.builtIn)) rfl h

theorem textOf_pair {δ ε : Type} [Phrase δ] [Phrase ε] {d : δ} {e : ε} {w w' : List Char}
    (hd : (∀ t ∈ leaves d, IsSpelled t) → textOf (leaves d) = w)
    (he : (∀ t ∈ leaves e, IsSpelled t) → textOf (leaves e) = w')
    (h : ∀ t ∈ leaves (d, e), IsSpelled t) : textOf (leaves (d, e)) = w ++ w' := by
  obtain ⟨h₁, h₂⟩ := List.forall_mem_append.1 h
  rw [leaves_pair, textOf_append, hd h₁, he h₂]

theorem textOf_dotTrees {ds : List (Leaf (.punct .dot) × NameLeaf)}
    (h : ∀ t ∈ leaves ds, IsSpelled t) :
    textOf (leaves ds) = dotText (ds.map fun d => d.2.name) := by
  induction ds with
  | nil => rfl
  | cons d ds ih =>
    obtain ⟨hd, hds⟩ := List.forall_mem_append.1 h
    rw [leaves_cons, textOf_append, ih hds, textOf_pair (textOf_leaf _ rfl) textOf_nameLeaf hd]
    rfl

theorem textOf_dottedTree {d : DottedTree} (h : ∀ t ∈ leaves d, IsSpelled t) :
    textOf (leaves d) = (DottedTree.ident d).name.toList := by
  obtain ⟨first, more⟩ := d
  rw [DottedTree.ident, toList_intercalate_dot]
  exact textOf_pair textOf_nameLeaf textOf_dotTrees h

/-- The leaves of a tree spell the text of its type. -/
theorem text_type {d : TypeTree} (h : ∀ t ∈ leaves d, IsSpelled t) :
    d.type.text.toList = textOf (leaves d) := by
  induction d with
  | builtIn b => exact (textOf_builtInLeaf h).symm
  | array brackets element ih =>
    obtain ⟨hbrackets, helement⟩ := List.forall_mem_append.1 h
    have htext : textOf (leaves brackets) = "[]".toList :=
      textOf_pair (textOf_leaf _ rfl) (textOf_leaf _ rfl) hbrackets
    rw [leaves_array, textOf_append, htext, ← ih helement, ← String.toList_append]
    rfl
  | mapOf key value ih =>
    obtain ⟨hkey, hvalue⟩ := List.forall_mem_append.1 h
    have htext : textOf (leaves key) = "map[string]".toList :=
      textOf_pair (textOf_leaf _ rfl) (textOf_pair (textOf_leaf _ rfl)
        (textOf_pair (textOf_leaf _ rfl) (textOf_leaf _ rfl))) hkey
    rw [leaves_mapOf, textOf_append, htext, ← ih hvalue, ← String.toList_append]
    rfl
  | named name => exact (textOf_dottedTree h).symm

end Grammar

/-! ## Sources -/

/-- Without a quoted text there is no directive. -/
theorem Directive.lift_of_no_path {ts : List Token}
    (h : ∀ t ∈ ts, ∀ path, t.kind ≠ .stringLiteral path) (c : Context) : lift c ts = ⟨[], ts⟩ := by
  fun_induction lift c ts with
  | case1 => rfl
  | case2 => rfl
  | case3 c t u ts d hd ih =>
    obtain ⟨_, ⟨word, path⟩, hleaves, _⟩ := directive?_eq_some_iff.1 hd
    cases hleaves
    exact absurd path.kind_eq (h path.token (by simp) path.path)
  | case4 c t u ts hd ih => rw [ih fun v hv => h v (List.mem_cons_of_mem _ hv)]

namespace Parser

open Grammar

/-- A source whose tokens are the leaves of a tree is parsed from all of them. -/
theorem ofSource_of_leaves {δ : Type} [Phrase δ] [Spelled δ] (source : SourceText) {d : δ}
    (h : leaves d = tokens source.name source.text) :
    ∃ p, ofSource source = .ok p ∧ p.pending = tokens source.name source.text := by
  have hunknown : (tokens source.name source.text).find? (·.kind = .unknown) = none := by
    rw [← h]
    refine List.find?_eq_none.2 fun t ht => ?_
    simpa using Spelled.kind_ne rfl d ht
  have hsignificant : significant source = tokens source.name source.text := by
    rw [significant, ← h]
    refine List.filter_eq_self.2 fun t ht => ?_
    rw [Token.isTrivia, TokenKind.not_isTrivia_of_spelling? (Spelled.spelling d t ht)]
    rfl
  have hkept : (Directive.extract (significant source)).kept =
      tokens source.name source.text := by
    rw [hsignificant, ← h]
    exact congrArg Directive.Lifted.kept
      (Directive.lift_of_no_path (fun t ht path => Spelled.kind_ne rfl d ht) .start)
  refine ⟨ofTokens source (significant source), ?_, hkept⟩
  rw [ofSource, hunknown]
  rfl

end Parser

namespace Grammar

/-- Tokens of a source with a spelling are written as their kinds say. -/
theorem isSpelled_of_mem_tokens {source : SourceText} {t : Token}
    (h : t ∈ tokens source.name source.text) (hw : t.kind.spelling?.isSome) : IsSpelled t := by
  obtain ⟨w, hw⟩ := Option.isSome_iff_exists.1 hw
  rw [IsSpelled, Lexer.lexeme_eq_of_spelling? h hw, hw]

/-- Reading the text of a type takes all of it and gives the type, up to positions. What is read as
a type from tokens of a source is the type whose text is made of the characters that stand in the
source at these tokens. -/
theorem typeExpr_text :
    (∀ (file : String) (t : TypeExpr), t.Writable →
      ∃ p t', Parser.ofSource ⟨file, t.text⟩ = .ok p ∧ p.pending = tokens file t.text ∧
        typeExpr p.pending = .ok (t', []) ∧ t'.bare = t.bare) ∧
    ∀ (source : SourceText) (ts rest : List Token) (t : TypeExpr),
      ts ⊆ tokens source.name source.text → typeExpr ts = .ok (t, rest) →
      ∃ consumed, ts = consumed ++ rest ∧ t.text.toList = consumed.flatMap (·.lexeme) ∧
        ∀ u ∈ consumed, u.isTrivia = false ∧
          ∃ before after, source.text.toList = before ++ u.lexeme ++ after ∧
            byteLength before = u.pos.offset := by
  refine ⟨fun file t ht => ?_, fun source ts rest t hts hread => ?_⟩
  · obtain ⟨d, hd, htype⟩ := exists_typeTree ht (.start file)
    obtain ⟨p, hp, hpending⟩ := Parser.ofSource_of_leaves ⟨file, t.text⟩ hd
    refine ⟨p, d.type, hp, hpending, ?_, htype⟩
    have hread := recognises_typeExpr.complete d (nextNot_nil _)
    rwa [List.append_nil, hd, ← tokens, ← hpending] at hread
  · obtain ⟨d, hd, rfl⟩ := recognises_typeExpr.sound hread
    have hmem : ∀ u ∈ leaves d, u ∈ tokens source.name source.text :=
      fun u hu => hts (hd ▸ List.mem_append_left rest hu)
    have hspelling := Spelled.spelling d
    refine ⟨leaves d, hd.symm, ?_, fun u hu => ⟨?_, ?_⟩⟩
    · exact text_type fun u hu => isSpelled_of_mem_tokens (hmem u hu) (hspelling u hu)
    · exact TokenKind.not_isTrivia_of_spelling? (hspelling u hu)
    · obtain ⟨before, after, hcut, hpos⟩ :=
        Lexer.exists_cut_of_mem_lex (List.mem_append_left _ (hmem u hu))
      exact ⟨before, after, hcut, (Lexer.offset_eq_byteLength hpos).symm⟩

/-- An array of maps that is written with blanks and a comment inside. -/
theorem typeExpr_text_of_spaced :
    ∃ (source : SourceText) (t : TypeExpr), source.text = "[] map [string] // values\n a . B" ∧
      t.text = "[]map[string]a.B" ∧ t.Writable ∧
      typeExpr (Parser.significant source) = .ok (t, []) ∧
      t.text.toList = (Parser.significant source).flatMap (·.lexeme) ∧
      ∃ p t', Parser.ofSource ⟨"", t.text⟩ = .ok p ∧ typeExpr p.pending = .ok (t', []) ∧
        t'.bare = t.bare := by
  have hread : typeExpr (Parser.significant ⟨"", "[] map [string] // values\n a . B"⟩) =
      .ok (.array (.mapOf (.named ⟨"a.B", ⟨"", 2, 2, 27⟩⟩)), []) := by
    decide +kernel
  have hwritable : (TypeExpr.array (.mapOf (.named ⟨"a.B", ⟨"", 2, 2, 27⟩⟩))).Writable := by
    rintro _ ⟨⟩
    exact ⟨["a", "B"], by simp, rfl, by decide⟩
  obtain ⟨consumed, hsplit, htext, _⟩ :=
    typeExpr_text.2 ⟨"", "[] map [string] // values\n a . B"⟩ _ _ _ (List.filter_subset_self _)
      hread
  obtain ⟨p, t', hp, _, hread', hbare⟩ := typeExpr_text.1 "" _ hwritable
  rw [List.append_nil] at hsplit
  rw [← hsplit] at htext
  exact ⟨_, _, rfl, by decide, hwritable, hread, htext, p, t', hp, hread', hbare⟩

end Grammar

end InterfaceLang
