import InterfaceLang.Token.Lexer
import Mathlib.Data.List.Chain
import Mathlib.Data.List.Induction

/-!
# Tokens tile the source

The tokens of a source, one after another, cover it from its first byte to its last, and each of
them knows its own place: the offset in bytes, the line, and the column in characters. Everything
follows from one fact about a token: it cuts the source into the characters before it, its own and
those after it, and its position is the one reached over the characters before it.

Results:
* `Position.line_after`, `Position.column_after_start`: line and column by counting.
* `Lexer.exists_cut_of_mem_lex`: a token cuts the source, and stands where the cut is.
* `Lexer.take_length_lex`: reading token after token from the beginning gives the tokens of the
  source, the end mark last.
* `Lexer.lex_tiles`: the tokens of a source tile it.
-/

namespace InterfaceLang

/-! ## Lines and columns by counting -/

namespace Position

/-- The line grows by the number of line breaks. -/
theorem line_after (p : Position) (cs : List Char) :
    (p.after cs).line = p.line + cs.count '\n' := by
  induction cs generalizing p with
  | nil => rfl
  | cons c cs ih =>
    rw [after_cons, ih, List.count_cons, next]
    by_cases hc : c = '\n'
    · rw [if_pos hc, hc]
      simp only [beq_self_eq_true, if_true]
      omega
    · simp [hc]

/-- The column is one more than the number of characters since the last line break. -/
theorem column_after_start (file : String) (cs : List Char) :
    ((start file).after cs).column = 1 + (cs.reverse.takeWhile (· ≠ '\n')).length := by
  -- the last character decides, so the induction takes the run apart at its end
  induction cs using List.reverseRecOn with
  | nil => rfl
  | append_singleton cs c ih =>
    rw [after_append, after_cons, after_nil, next, List.reverse_concat]
    by_cases hc : c = '\n'
    · rw [if_pos hc, List.takeWhile_cons_of_neg (by simpa using hc)]
      rfl
    · rw [if_neg hc, List.takeWhile_cons_of_pos (by simpa using hc), List.length_cons]
      show ((start file).after cs).column + 1 = _
      rw [ih, Nat.add_assoc]

end Position

/-! ## Byte offsets -/

theorem byteLength_eq_utf8ByteSize (cs : List Char) :
    byteLength cs = (String.ofList cs).utf8ByteSize := by
  induction cs with
  | nil => rfl
  | cons c cs ih =>
    rw [byteLength_cons, ih, String.ofList_cons, String.utf8ByteSize_append,
      String.utf8ByteSize_singleton]

theorem byteLength_pos {cs : List Char} (h : cs ≠ []) : 0 < byteLength cs := by
  cases cs with
  | nil => exact absurd rfl h
  | cons c cs =>
    rw [byteLength_cons]
    exact Nat.add_pos_left c.utf8Size_pos _

/-- A text can be cut after any run of characters with which it begins. -/
theorem isValid_byteLength {s : String} {cs ds : List Char} (h : s.toList = cs ++ ds) :
    String.Pos.Raw.IsValid s ⟨byteLength cs⟩ := by
  refine String.Pos.Raw.isValid_iff_exists_append.2
    ⟨String.ofList cs, String.ofList ds, ?_, ?_⟩
  · rw [← String.ofList_append, ← h, String.ofList_toList]
  · rw [byteLength_eq_utf8ByteSize]
    rfl

/-! ## The tokens of a text -/

namespace Lexer

theorem scan_kind_ne_eof (c : Char) (cs : List Char) : (scan c cs).kind ≠ .eof := by
  unfold scan scanBracket scanSlash scanQuote scanWord wordKind
  grind

theorem after_scan (pos : Position) (c : Char) (cs : List Char) :
    (pos.after (c :: (scan c cs).tail)).after (scan c cs).rest = pos.after (c :: cs) := by
  rw [← Position.after_append, List.cons_append, scan_append]

/-- The tokens of a text that begins at `pos`, the end mark last. -/
def lexFrom (pos : Position) (cs : List Char) : List Token :=
  tokensFrom pos cs ++ [⟨.eof, [], pos.after cs⟩]

theorem lexFrom_nil (pos : Position) : lexFrom pos [] = [⟨.eof, [], pos⟩] := by
  rw [lexFrom, tokensFrom]
  rfl

theorem lexFrom_cons (pos : Position) (c : Char) (cs : List Char) :
    lexFrom pos (c :: cs) =
      ⟨(scan c cs).kind, c :: (scan c cs).tail, pos⟩ ::
        lexFrom (pos.after (c :: (scan c cs).tail)) (scan c cs).rest := by
  rw [lexFrom, tokensFrom, lexFrom, after_scan, List.cons_append]

theorem lex_eq_lexFrom (file source : String) :
    lex file source = lexFrom (.start file) source.toList := rfl

theorem pos_head?_lexFrom (pos : Position) (cs : List Char) :
    (lexFrom pos cs).head?.map (·.pos) = some pos := by
  cases cs with
  | nil => rw [lexFrom_nil]; rfl
  | cons c cs => rw [lexFrom_cons]; rfl

theorem kind_ne_eof {pos : Position} {cs : List Char} {t : Token} (h : t ∈ tokensFrom pos cs) :
    t.kind ≠ .eof := by
  fun_induction tokensFrom pos cs with
  | case1 => simp at h
  | case2 pos c cs ih =>
    rcases List.mem_cons.1 h with rfl | h
    · exact scan_kind_ne_eof c cs
    · exact ih h

/-- Each token stops where the next one starts. -/
theorem isChain_lexFrom (pos : Position) (cs : List Char) :
    (lexFrom pos cs).IsChain fun t u => t.stop = u.pos.offset := by
  fun_induction tokensFrom pos cs with
  | case1 pos =>
    rw [lexFrom_nil]
    exact .singleton _
  | case2 pos c cs ih =>
    rw [lexFrom_cons, List.isChain_cons]
    refine ⟨fun u hu => ?_, ih⟩
    have hpos := pos_head?_lexFrom (pos.after (c :: (scan c cs).tail)) (scan c cs).rest
    rw [Option.mem_def.1 hu, Option.map_some, Option.some.injEq] at hpos
    rw [hpos, Position.offset_after]
    rfl

/-- A token cuts the text, and its position is the one reached over what stands before the cut. -/
theorem exists_cut_of_mem_lexFrom {pos : Position} {cs : List Char} {t : Token}
    (h : t ∈ lexFrom pos cs) :
    ∃ before after, cs = before ++ t.lexeme ++ after ∧ t.pos = pos.after before := by
  fun_induction tokensFrom pos cs with
  | case1 pos =>
    rw [lexFrom_nil, List.mem_singleton] at h
    exact ⟨[], [], by rw [h]; rfl, by rw [h]; rfl⟩
  | case2 pos c cs ih =>
    rw [lexFrom_cons] at h
    rcases List.mem_cons.1 h with rfl | h
    · exact ⟨[], (scan c cs).rest, by simp [scan_append], rfl⟩
    · obtain ⟨before, after, hcut, hpos⟩ := ih h
      refine ⟨c :: (scan c cs).tail ++ before, after, ?_, ?_⟩
      · rw [List.append_assoc, List.append_assoc, ← List.append_assoc before, ← hcut,
          List.cons_append, scan_append]
      · rw [hpos, Position.after_append]

/-- A token of a source cuts it, and its position is the one reached over what stands before the
cut. -/
theorem exists_cut_of_mem_lex {file source : String} {t : Token} (h : t ∈ lex file source) :
    ∃ before after, source.toList = before ++ t.lexeme ++ after ∧
      t.pos = (Position.start file).after before := by
  rw [lex_eq_lexFrom] at h
  exact exists_cut_of_mem_lexFrom h

theorem offset_eq_byteLength {file : String} {t : Token} {before : List Char}
    (h : t.pos = (Position.start file).after before) : t.pos.offset = byteLength before := by
  rw [h, Position.offset_after]
  exact Nat.zero_add _

/-! ## Reading token after token -/

theorem take_length_lexFrom (pos : Position) (cs : List Char) :
    Cursor.take (lexFrom pos cs).length ⟨pos, cs⟩ = lexFrom pos cs := by
  fun_induction tokensFrom pos cs with
  | case1 pos =>
    rw [lexFrom_nil]
    rfl
  | case2 pos c cs ih =>
    rw [lexFrom_cons]
    exact congrArg _ ih

/-- Reading token after token from the beginning of a source gives its tokens, and the end mark is
read after finitely many of them. -/
theorem take_length_lex (file source : String) :
    (Cursor.ofSource file source).take (lex file source).length = lex file source := by
  rw [lex_eq_lexFrom]
  exact take_length_lexFrom _ _

end Lexer

/-! ## The tiling -/

/-- The tokens `ts` tile the text `source`. -/
structure Tiles (source : String) (ts : List Token) : Prop where
  /-- The first token starts at the first byte. -/
  start : ts.head?.map (·.pos.offset) = some 0
  /-- Each token stops where the next one starts. -/
  adjacent : ts.IsChain fun t u => t.stop = u.pos.offset
  /-- The last token is an end mark after the last byte. -/
  stop : ts.getLast?.map (fun t => (t.kind, t.pos.offset, t.stop)) =
    some (.eof, source.utf8ByteSize, source.utf8ByteSize)
  /-- The tokens before it are not empty, and none of them is an end mark. -/
  proper : ∀ t ∈ ts.dropLast, t.pos.offset < t.stop ∧ t.kind ≠ .eof
  /-- The text can be cut before and after each token, and after a bracket with which one
  begins. -/
  boundaries : ∀ t ∈ ts, String.Pos.Raw.IsValid source ⟨t.pos.offset⟩ ∧
    String.Pos.Raw.IsValid source ⟨t.stop⟩ ∧
    (t.lexeme.head? = some '[' → String.Pos.Raw.IsValid source ⟨t.pos.offset + 1⟩)
  /-- What is cut out are the characters of the token, and its line and column count those before
  it. -/
  placed : ∀ t ∈ ts, ∃ before after : List Char,
    source.toList = before ++ t.lexeme ++ after ∧ byteLength before = t.pos.offset ∧
    t.pos.line = 1 + before.count '\n' ∧
    t.pos.column = 1 + (before.reverse.takeWhile (· ≠ '\n')).length

namespace Lexer

theorem isValid_of_mem_lex {file source : String} {t : Token} (h : t ∈ lex file source) :
    String.Pos.Raw.IsValid source ⟨t.pos.offset⟩ ∧ String.Pos.Raw.IsValid source ⟨t.stop⟩ ∧
      (t.lexeme.head? = some '[' → String.Pos.Raw.IsValid source ⟨t.pos.offset + 1⟩) := by
  obtain ⟨before, after, hcut, hpos⟩ := exists_cut_of_mem_lex h
  have hoffset := offset_eq_byteLength hpos
  refine ⟨?_, ?_, fun hbracket => ?_⟩
  · rw [hoffset]
    exact isValid_byteLength (hcut.trans (List.append_assoc _ _ _))
  · rw [Token.stop, Token.size, hoffset, ← byteLength_append]
    exact isValid_byteLength hcut
  · obtain ⟨ds, hlexeme⟩ := List.head?_eq_some_iff.1 hbracket
    have hone : t.pos.offset + 1 = byteLength (before ++ ['[']) := by
      rw [byteLength_append, hoffset]
      rfl
    have hsplit : source.toList = (before ++ ['[']) ++ (ds ++ after) := by
      rw [hcut, hlexeme]
      simp
    rw [hone]
    exact isValid_byteLength hsplit

/-- The tokens of a source tile it, and they are what reading token after token gives. -/
theorem lex_tiles (file source : String) :
    Tiles source (lex file source) ∧
      (Cursor.ofSource file source).take (lex file source).length = lex file source := by
  refine ⟨⟨?_, ?_, ?_, fun t ht => ?_, fun t ht => isValid_of_mem_lex ht, fun t ht => ?_⟩,
    take_length_lex file source⟩
  · have := congrArg (Option.map (·.offset)) (pos_head?_lexFrom (.start file) source.toList)
    rwa [Option.map_map] at this
  · rw [lex_eq_lexFrom]
    exact isChain_lexFrom _ _
  · have hend : (endMark file source).pos.offset = source.utf8ByteSize := by
      rw [offset_eq_byteLength rfl, byteLength_eq_utf8ByteSize, String.ofList_toList]
    rw [lex, List.getLast?_concat, Option.map_some, Token.stop, hend]
    rfl
  · rw [lex, List.dropLast_concat] at ht
    exact ⟨Nat.lt_add_of_pos_right (byteLength_pos (lexeme_ne_nil ht)), kind_ne_eof ht⟩
  · obtain ⟨before, after, hcut, hpos⟩ := exists_cut_of_mem_lex ht
    refine ⟨before, after, hcut, (offset_eq_byteLength hpos).symm, ?_, ?_⟩
    · rw [hpos, Position.line_after]
      rfl
    · rw [hpos, Position.column_after_start]

end Lexer

end InterfaceLang
