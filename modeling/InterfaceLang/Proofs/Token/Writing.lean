import InterfaceLang.Proofs.Grammar.Spelling

/-!
# Writing tokens out

A list of tokens is written out by writing each of them as its kind is spelled, with a gap between
any two: blanks, or comments that end their lines. Reading what is written gives the tokens back. A
gap keeps neighbours apart whatever they are: a word ends before it, a quoted text has ended
already, and no optional mark goes on across it.

The other way round, a token depends on nothing but its own characters. Each scanner decides where a
token stops by what stands there, but it would have stopped at the end of the text as well, so that
the characters of a token, read by themselves, are the same token again.

Results:
* `Lexer.tokensFrom_written`: what is written before a gap is read as one token.
* `Lexer.significantKinds_gap`: a gap is not seen in what is read.
* `Lexer.lexeme_of_stringLiteral`: a quoted text is written as its value between quotes.
* `Lexer.scan_tail`: scanning the characters of a token gives the token and leaves nothing.
* `Lexer.lex_inverts_writing`: reading inverts writing out, and reading a token again gives it.
-/

namespace InterfaceLang

/-- How a token of a kind is written: a word, a mark, or a quoted text without a quote in it. -/
inductive TokenKind.Written : TokenKind → List Char → Prop
  | identifier {name : String} : Name.isIdentifier name = true → name ∉ reservedWords →
      Written (.identifier name) name.toList
  | keyword (k : Keyword) : Written (.keyword k) k.text.toList
  | builtIn (b : BuiltIn) : Written (.builtIn b) b.text.toList
  | optionalMark : Written .optionalMark "[optional]".toList
  | punct (p : Punct) : Written (.punct p) [p.char]
  | stringLiteral {value : String} : '"' ∉ value.toList →
      Written (.stringLiteral value) ('"' :: value.toList ++ ['"'])

/-- What stands between two tokens: blanks, or a comment that ends its line, or several of these. -/
inductive Gap : List Char → Prop
  | blanks {cs : List Char} : cs ≠ [] → (∀ c ∈ cs, c ∈ [' ', '\t', '\r', '\n']) → Gap cs
  | comment {text : List Char} : '\n' ∉ text → Gap ('/' :: '/' :: text ++ ['\n'])
  | append {cs ds : List Char} : Gap cs → Gap ds → Gap (cs ++ ds)

/-- A text that writes tokens of the given kinds out, with a gap between any two. -/
inductive WrittenOut : List TokenKind → List Char → Prop
  | nil : WrittenOut [] []
  | single {k : TokenKind} {w : List Char} : k.Written w → WrittenOut [k] w
  | cons {k k' : TokenKind} {ks : List TokenKind} {w gap cs : List Char} : k.Written w → Gap gap →
      WrittenOut (k' :: ks) cs → WrittenOut (k :: k' :: ks) (w ++ gap ++ cs)

theorem TokenKind.Written.not_isTrivia {k : TokenKind} {w : List Char} (h : k.Written w) :
    k.isTrivia = false := by
  cases h <;> rfl

namespace Lexer

/-! ## One token -/

/-- What may stand after a token that is written out: the end of the text, or a gap. -/
def Apart (cs : List Char) : Prop :=
  ∀ c ∈ cs.head?, isSpace c = true ∨ c = '/'

theorem isSpace_iff {c : Char} : isSpace c = true ↔ c ∈ [' ', '\t', '\r', '\n'] := by
  simp [isSpace, or_assoc]

theorem isSpace_cases {c : Char} (h : isSpace c = true) :
    c = ' ' ∨ c = '\t' ∨ c = '\r' ∨ c = '\n' := by
  simpa using isSpace_iff.1 h

theorem apart_gap {gap : List Char} (h : Gap gap) (cs : List Char) : Apart (gap ++ cs) := by
  induction h generalizing cs with
  | blanks hne hblanks =>
    obtain ⟨d, ds, rfl⟩ := List.exists_cons_of_ne_nil hne
    rintro c ⟨⟩
    exact .inl (isSpace_iff.2 (hblanks d List.mem_cons_self))
  | comment _ =>
    rintro c ⟨⟩
    exact .inr rfl
  | append _ _ ih _ =>
    rw [List.append_assoc]
    exact ih _

theorem Apart.not_isWordChar {cs : List Char} (h : Apart cs) :
    ∀ c ∈ cs.head?, Name.isWordChar c = false := by
  intro c hc
  rcases h c hc with hspace | rfl
  · rcases isSpace_cases hspace with rfl | rfl | rfl | rfl <;> decide
  · decide

/-- No optional mark goes on across a gap. -/
theorem Apart.not_optionalTail {cs : List Char} (h : Apart cs) : ¬optionalTail <+: cs := by
  cases cs with
  | nil =>
    rw [List.prefix_nil]
    decide
  | cons c cs =>
    refine not_optionalTail_of_ne ?_ cs
    rintro rfl
    rcases h 'o' rfl with hspace | hslash
    · cases hspace
    · cases hslash

theorem tokensFrom_optionalMark (cs : List Char) (pos : Position) :
    tokensFrom pos ('[' :: optionalTail ++ cs) =
      ⟨.optionalMark, '[' :: optionalTail, pos⟩ ::
        tokensFrom (pos.after ('[' :: optionalTail)) cs := by
  have hmark : optionalTail.isPrefixOf (optionalTail ++ cs) = true :=
    List.isPrefixOf_iff_prefix.2 (List.prefix_append _ _)
  have hscan : scan '[' (optionalTail ++ cs) = ⟨.optionalMark, optionalTail, cs⟩ := by
    rw [scan, if_pos rfl, scanBracket, if_pos hmark, List.drop_left]
  rw [List.cons_append, tokensFrom, hscan]

/-- A quoted text ends at the next quote, whatever follows it. -/
theorem scanQuote_closed {value : List Char} (h : '"' ∉ value) (cs : List Char) :
    scanQuote (value ++ '"' :: cs) =
      ⟨.stringLiteral (String.ofList value), value ++ ['"'], cs⟩ := by
  have hvalue : ∀ c ∈ value, decide (c ≠ '"') = true := by
    intro c hc
    simpa using fun heq : c = '"' => h (heq ▸ hc)
  have htake : (value ++ '"' :: cs).takeWhile (· ≠ '"') = value := by
    rw [List.takeWhile_append_of_pos hvalue]
    simp
  have hdrop : (value ++ '"' :: cs).dropWhile (· ≠ '"') = '"' :: cs := by
    rw [List.dropWhile_append_of_pos hvalue]
    simp
  rw [scanQuote, hdrop, htake]

/-- Without a closing quote the whole text is spoilt. -/
theorem scanQuote_open {cs : List Char} (h : '"' ∉ cs) : scanQuote cs = ⟨.unknown, cs, []⟩ := by
  have hdrop : cs.dropWhile (· ≠ '"') = [] := by
    refine List.dropWhile_eq_nil_iff.2 fun c hc => ?_
    simpa using fun heq : c = '"' => h (heq ▸ hc)
  rw [scanQuote, hdrop]

theorem tokensFrom_quoted {value : List Char} (h : '"' ∉ value) (cs : List Char)
    (pos : Position) :
    tokensFrom pos ('"' :: value ++ ['"'] ++ cs) =
      ⟨.stringLiteral (String.ofList value), '"' :: value ++ ['"'], pos⟩ ::
        tokensFrom (pos.after ('"' :: value ++ ['"'])) cs := by
  have hscan : scan '"' (value ++ '"' :: cs) =
      ⟨.stringLiteral (String.ofList value), value ++ ['"'], cs⟩ := scanQuote_closed h cs
  rw [List.append_assoc, List.cons_append, List.singleton_append, tokensFrom, hscan]
  rfl

/-- What is written before a gap, or at the end of a text, is read as one token. -/
theorem tokensFrom_written {k : TokenKind} {w cs : List Char} (h : k.Written w) (hcs : Apart cs)
    (pos : Position) : tokensFrom pos (w ++ cs) = ⟨k, w, pos⟩ :: tokensFrom (pos.after w) cs := by
  cases h with
  | @identifier name hname hfree =>
    rw [tokensFrom_word hname hcs.not_isWordChar, String.ofList_toList,
      wordKind_of_not_mem_reservedWords hfree]
  | keyword k => exact tokensFrom_keyword k hcs.not_isWordChar pos
  | builtIn b => exact tokensFrom_builtIn b hcs.not_isWordChar pos
  | optionalMark => exact tokensFrom_optionalMark cs pos
  | punct p => exact tokensFrom_punct (fun _ => hcs.not_optionalTail) pos
  | @stringLiteral value hvalue =>
    rw [tokensFrom_quoted hvalue, String.ofList_toList]

/-! ## A whole text -/

/-- The kinds of the tokens of a text that are not trivia. -/
def significantKinds (cs : List Char) : List TokenKind :=
  ((tokensFrom (.start "") cs).map (·.kind)).filter (!·.isTrivia)

/-- Kinds do not depend on where a text begins. -/
theorem map_kind_tokensFrom (pos pos' : Position) (cs : List Char) :
    (tokensFrom pos cs).map (·.kind) = (tokensFrom pos' cs).map (·.kind) := by
  fun_induction tokensFrom pos cs generalizing pos' with
  | case1 => rw [tokensFrom]
  | case2 pos c cs ih =>
    rw [tokensFrom, List.map_cons, List.map_cons, ih]

theorem significantKinds_eq (pos : Position) (cs : List Char) :
    significantKinds cs = ((tokensFrom pos cs).map (·.kind)).filter (!·.isTrivia) := by
  rw [significantKinds, map_kind_tokensFrom]

theorem significantKinds_written {k : TokenKind} {w cs : List Char} (h : k.Written w)
    (hcs : Apart cs) : significantKinds (w ++ cs) = k :: significantKinds cs := by
  rw [significantKinds, tokensFrom_written h hcs, List.map_cons, List.filter_cons_of_pos,
    ← significantKinds_eq]
  simpa using TokenKind.Written.not_isTrivia h

theorem significantKinds_trivia {c : Char} {cs : List Char}
    (h : (scan c cs).kind.isTrivia = true) :
    significantKinds (c :: cs) = significantKinds (scan c cs).rest := by
  rw [significantKinds, tokensFrom, List.map_cons, List.filter_cons_of_neg, ← significantKinds_eq]
  simpa using h

/-- A blank is not seen, whether or not the run of blanks goes on after it. -/
theorem significantKinds_blank {c : Char} (h : isSpace c = true) (cs : List Char) :
    significantKinds (c :: cs) = significantKinds cs := by
  have hblank : ∀ {c : Char}, isSpace c = true → ∀ cs : List Char,
      significantKinds (c :: cs) = significantKinds (cs.dropWhile isSpace) := by
    intro c hc cs
    have hscan : scan c cs = ⟨.whitespace, cs.takeWhile isSpace, cs.dropWhile isSpace⟩ := by
      rcases isSpace_cases hc with rfl | rfl | rfl | rfl <;> rfl
    rw [significantKinds_trivia (by rw [hscan]; rfl), hscan]
  rw [hblank h]
  cases cs with
  | nil => rfl
  | cons d ds =>
    cases hd : isSpace d with
    | true => rw [List.dropWhile_cons_of_pos hd, hblank hd]
    | false => rw [List.dropWhile_cons_of_neg (by simp [hd])]

theorem significantKinds_blanks {gap : List Char} (h : ∀ c ∈ gap, isSpace c = true)
    (cs : List Char) : significantKinds (gap ++ cs) = significantKinds cs := by
  induction gap with
  | nil => rfl
  | cons c gap ih =>
    obtain ⟨hc, hgap⟩ := List.forall_mem_cons.1 h
    rw [List.cons_append, significantKinds_blank hc, ih hgap]

theorem significantKinds_comment {text : List Char} (h : '\n' ∉ text) (cs : List Char) :
    significantKinds ('/' :: '/' :: text ++ '\n' :: cs) = significantKinds ('\n' :: cs) := by
  have htext : ∀ c ∈ text, decide (c ≠ '\n') = true := by
    intro c hc
    simpa using fun heq : c = '\n' => h (heq ▸ hc)
  have hrest : (scan '/' ('/' :: (text ++ '\n' :: cs))).rest = '\n' :: cs := by
    show (text ++ '\n' :: cs).dropWhile (· ≠ '\n') = '\n' :: cs
    rw [List.dropWhile_append_of_pos htext]
    simp
  rw [List.cons_append, List.cons_append, significantKinds_trivia rfl, hrest]

/-- A gap is not seen in what is read. -/
theorem significantKinds_gap {gap : List Char} (h : Gap gap) (cs : List Char) :
    significantKinds (gap ++ cs) = significantKinds cs := by
  induction h generalizing cs with
  | blanks _ hblanks =>
    exact significantKinds_blanks (fun c hc => isSpace_iff.2 (hblanks c hc)) cs
  | comment htext =>
    rw [List.append_assoc, List.singleton_append, significantKinds_comment htext,
      significantKinds_blank rfl]
  | append _ _ ih ih' => rw [List.append_assoc, ih, ih']

/-- What is written out is read as the tokens that were written. -/
theorem significantKinds_writtenOut {ks : List TokenKind} {cs : List Char} (h : WrittenOut ks cs) :
    significantKinds cs = ks := by
  induction h with
  | nil =>
    rw [significantKinds, tokensFrom]
    rfl
  | @single k w hw =>
    have hempty : significantKinds [] = [] := by
      rw [significantKinds, tokensFrom]
      rfl
    have hread : significantKinds (w ++ []) = k :: significantKinds [] :=
      significantKinds_written hw (by simp [Apart])
    rwa [List.append_nil, hempty] at hread
  | cons hw hgap _ ih =>
    rw [List.append_assoc, significantKinds_written hw (apart_gap hgap _),
      significantKinds_gap hgap, ih]

/-! ## Quoted texts -/

theorem scan_kind_ne_stringLiteral {c : Char} (h : c ≠ '"') (cs : List Char) (value : String) :
    (scan c cs).kind ≠ .stringLiteral value := by
  unfold scan scanBracket scanSlash scanWord wordKind
  grind

/-- A quoted text is written as its value between quotes. -/
theorem lexeme_of_stringLiteral {pos : Position} {cs : List Char} {t : Token} {value : String}
    (h : t ∈ tokensFrom pos cs) (hkind : t.kind = .stringLiteral value) :
    t.lexeme = '"' :: value.toList ++ ['"'] := by
  fun_induction tokensFrom pos cs with
  | case1 => cases h
  | case2 pos c cs ih =>
    rcases List.mem_cons.1 h with rfl | h
    · by_cases hc : c = '"'
      · subst hc
        have hscan : scan '"' cs = scanQuote cs := rfl
        rw [hscan] at hkind ⊢
        by_cases hquote : '"' ∈ cs
        · obtain ⟨text, rest, rfl, htext⟩ := List.eq_append_cons_of_mem hquote
          rw [scanQuote_closed htext] at hkind ⊢
          cases hkind
          rw [String.toList_ofList, List.cons_append]
        · rw [scanQuote_open hquote] at hkind
          cases hkind
      · exact absurd hkind (scan_kind_ne_stringLiteral hc cs value)
    · exact ih h

/-! ## A token by itself -/

theorem takeWhile_takeWhile (p : Char → Bool) (cs : List Char) :
    (cs.takeWhile p).takeWhile p = cs.takeWhile p ∧ (cs.takeWhile p).dropWhile p = [] := by
  have hall : ∀ c ∈ cs.takeWhile p, p c = true := fun c hc => List.mem_takeWhile_imp hc
  exact ⟨List.takeWhile_eq_self_iff.2 hall, List.dropWhile_eq_nil_iff.2 hall⟩

theorem scanBracket_tail (cs : List Char) :
    scanBracket (scanBracket cs).tail = ⟨(scanBracket cs).kind, (scanBracket cs).tail, []⟩ := by
  unfold scanBracket
  split
  · rfl
  · rfl

theorem scanSlash_tail (cs : List Char) :
    scanSlash (scanSlash cs).tail = ⟨(scanSlash cs).kind, (scanSlash cs).tail, []⟩ := by
  cases cs with
  | nil => rfl
  | cons d ds =>
    by_cases hd : d = '/'
    · obtain ⟨htake, hdrop⟩ := takeWhile_takeWhile (fun c => decide (c ≠ '\n')) ds
      simp only [scanSlash, if_pos hd, htake, hdrop]
    · simp only [scanSlash, if_neg hd]

theorem scanQuote_tail (cs : List Char) :
    scanQuote (scanQuote cs).tail = ⟨(scanQuote cs).kind, (scanQuote cs).tail, []⟩ := by
  by_cases h : '"' ∈ cs
  · obtain ⟨value, rest, rfl, hvalue⟩ := List.eq_append_cons_of_mem h
    rw [scanQuote_closed hvalue]
    exact scanQuote_closed hvalue []
  · rw [scanQuote_open h]
    exact scanQuote_open h

/-- The characters of a token, scanned by themselves, are the token and nothing else. -/
theorem scan_tail (c : Char) (cs : List Char) :
    scan c (scan c cs).tail = ⟨(scan c cs).kind, (scan c cs).tail, []⟩ := by
  -- the cases are those of `scan`: the first character picks the scanner both times
  by_cases hbracket : c = '['
  · simp only [scan, if_pos hbracket, scanBracket_tail]
  by_cases hslash : c = '/'
  · simp only [scan, if_neg hbracket, if_pos hslash, scanSlash_tail]
  by_cases hquote : c = '"'
  · simp only [scan, if_neg hbracket, if_neg hslash, if_pos hquote, scanQuote_tail]
  by_cases hspace : isSpace c = true
  · obtain ⟨htake, hdrop⟩ := takeWhile_takeWhile isSpace cs
    simp only [scan, if_neg hbracket, if_neg hslash, if_neg hquote, if_pos hspace, htake, hdrop]
  by_cases hletter : Name.isLetter c = true
  · obtain ⟨htake, hdrop⟩ := takeWhile_takeWhile Name.isWordChar cs
    simp only [scan_of_isLetter hletter, scanWord, htake, hdrop]
  · simp only [scan, if_neg hbracket, if_neg hslash, if_neg hquote, if_neg hspace, if_neg hletter]
    cases Punct.ofChar? c <;> rfl

/-- A token of a text, read by itself, is the same token, wherever it stands. -/
theorem tokensFrom_lexeme {pos : Position} {cs : List Char} {t : Token}
    (h : t ∈ tokensFrom pos cs) (pos' : Position) :
    tokensFrom pos' t.lexeme = [⟨t.kind, t.lexeme, pos'⟩] := by
  fun_induction tokensFrom pos cs with
  | case1 => cases h
  | case2 pos c cs ih =>
    rcases List.mem_cons.1 h with rfl | h
    · rw [tokensFrom, scan_tail, tokensFrom]
    · exact ih h

/-! ## Reading and writing -/

/-- Reading a text in which tokens are written out gives these tokens and the end mark, apart from
trivia. And the characters that a token of any text has there, read by themselves, are a token of
the same kind with the same payload, and the end mark. -/
theorem lex_inverts_writing :
    (∀ (file source : String) (ks : List TokenKind), WrittenOut ks source.toList →
      ((lex file source).filter (!·.isTrivia)).map (·.kind) = ks ++ [.eof]) ∧
    ∀ (file source : String) (t : Token), t ∈ lex file source → t.kind ≠ .eof →
      (∃ before after, source.toList = before ++ t.lexeme ++ after ∧
        byteLength before = t.pos.offset) ∧
      ∀ file', lex file' (String.ofList t.lexeme) =
        [⟨t.kind, t.lexeme, .start file'⟩, endMark file' (String.ofList t.lexeme)] := by
  refine ⟨fun file source ks h => ?_, fun file source t ht hkind => ⟨?_, fun file' => ?_⟩⟩
  · have hkinds : ((tokens file source).filter (!·.isTrivia)).map (·.kind) = ks := by
      rw [← significantKinds_writtenOut h, significantKinds_eq (.start file), List.filter_map]
      rfl
    rw [lex, List.filter_append, List.map_append, hkinds]
    rfl
  · obtain ⟨before, after, hcut, hpos⟩ := exists_cut_of_mem_lex ht
    exact ⟨before, after, hcut, (offset_eq_byteLength hpos).symm⟩
  · have hmem : t ∈ tokens file source := by
      rcases List.mem_append.1 ht with hmem | hmem
      · exact hmem
      · rw [List.mem_singleton.1 hmem] at hkind
        exact absurd rfl hkind
    rw [lex, tokens, String.toList_ofList, tokensFrom_lexeme hmem]
    rfl

/-- A bracket, the name `optional` and a bracket, kept apart so that they are no optional mark, and
a quoted text with a line break and two slashes in it; and the quoted text read by itself. -/
theorem lex_inverts_writing_of_brackets :
    ∃ source : String, source = "[ optional//]\n] \"a\n// b\"" ∧
      WrittenOut [.punct .lbracket, .identifier "optional", .punct .rbracket,
        .stringLiteral "a\n// b"] source.toList ∧
      ((lex "" source).filter (!·.isTrivia)).map (·.kind) = [.punct .lbracket,
        .identifier "optional", .punct .rbracket, .stringLiteral "a\n// b", .eof] ∧
      ∃ t ∈ lex "" source, t.kind = .stringLiteral "a\n// b" ∧
        lex "" (String.ofList t.lexeme) =
          [⟨t.kind, t.lexeme, .start ""⟩, endMark "" (String.ofList t.lexeme)] := by
  have hblank : Gap [' '] := .blanks (by simp) (by simp)
  have hcomment : Gap ('/' :: '/' :: [']'] ++ ['\n']) := .comment (by simp)
  have hname : (TokenKind.identifier "optional").Written "optional".toList :=
    .identifier (by decide) (by decide)
  have hquoted : (TokenKind.stringLiteral "a\n// b").Written
      ('"' :: "a\n// b".toList ++ ['"']) := .stringLiteral (by decide)
  have htext : "[ optional//]\n] \"a\n// b\"".toList =
      [Punct.lbracket.char] ++ [' '] ++ ("optional".toList ++ ('/' :: '/' :: [']'] ++ ['\n']) ++
        ([Punct.rbracket.char] ++ [' '] ++ ('"' :: "a\n// b".toList ++ ['"']))) := by
    decide
  have hwritten : WrittenOut [.punct .lbracket, .identifier "optional", .punct .rbracket,
      .stringLiteral "a\n// b"] "[ optional//]\n] \"a\n// b\"".toList := by
    rw [htext]
    exact .cons (.punct .lbracket) hblank (.cons hname hcomment
      (.cons (.punct .rbracket) hblank (.single hquoted)))
  have hmem : Token.mk (.stringLiteral "a\n// b") ('"' :: "a\n// b".toList ++ ['"'])
      ⟨"", 2, 3, 16⟩ ∈ lex "" "[ optional//]\n] \"a\n// b\"" := by
    decide +kernel
  exact ⟨_, rfl, hwritten, lex_inverts_writing.1 "" _ _ hwritten, _, hmem, rfl,
    (lex_inverts_writing.2 "" _ _ hmem (by simp)).2 ""⟩

end Lexer

end InterfaceLang
