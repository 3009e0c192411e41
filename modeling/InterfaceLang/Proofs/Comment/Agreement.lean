import InterfaceLang.Proofs.Comment.Run
import InterfaceLang.Proofs.Token.Tiling
import Mathlib.Data.List.DropRight

/-!
# Comment lines and comment tokens

Comments are collected from the lines of a text, while the tokens of the text know of comments on
their own. A line is a comment line if its first token, blanks aside, is a comment. The two agree
where all characters begin tokens, with one exception: a quoted text may run over several lines, and
a later line of it may begin with two slashes.

Results:
* `Lexer.shape_scan`: what a token can look like, and what can follow it.
* `commentOn?_tokens`: if no quoted text goes on with two slashes, line by line the texts of the
  comment lines are the texts of the comment tokens.
-/

namespace InterfaceLang

/-! ## Lines of a text -/

namespace Text

/-- The line of the given number, counted from 0, or an empty one if the text has no such line. -/
def line (cs : List Char) (i : Nat) : List Char :=
  (lines cs).getD i []

variable {c : Char} {cs ds : List Char} {i : Nat}

@[simp]
theorem line_nil (i : Nat) : line [] i = [] := by
  cases i <;> rfl

@[simp]
theorem line_newline_zero (cs : List Char) : line ('\n' :: cs) 0 = [] := rfl

@[simp]
theorem line_newline_succ (cs : List Char) (i : Nat) : line ('\n' :: cs) (i + 1) = line cs i := rfl

theorem lines_cons (hc : c ≠ '\n') (cs : List Char) :
    ∃ p ps, lines cs = p :: ps ∧ lines (c :: cs) = (c :: p) :: ps := by
  cases hlines : lines cs with
  | nil => exact absurd hlines (pieces_ne_nil '\n' cs)
  | cons p ps =>
    refine ⟨p, ps, rfl, ?_⟩
    unfold lines at hlines ⊢
    rw [pieces, if_neg hc, hlines]
    rfl

theorem line_cons_zero (hc : c ≠ '\n') : line (c :: cs) 0 = c :: line cs 0 := by
  obtain ⟨p, ps, hlines, hcons⟩ := lines_cons hc cs
  rw [line, line, hlines, hcons]
  rfl

theorem line_cons_succ (hc : c ≠ '\n') (i : Nat) : line (c :: cs) (i + 1) = line cs (i + 1) := by
  obtain ⟨p, ps, hlines, hcons⟩ := lines_cons hc cs
  rw [line, line, hlines, hcons]
  rfl

theorem mem_of_mem_line {x : Char} (h : x ∈ line cs i) : x ∈ cs := by
  induction cs generalizing i with
  | nil => simp at h
  | cons c cs ih =>
    by_cases hc : c = '\n'
    · subst hc
      cases i with
      | zero => simp at h
      | succ i => exact List.mem_cons_of_mem _ (ih h)
    · cases i with
      | zero =>
        rw [line_cons_zero hc] at h
        rcases List.mem_cons.1 h with rfl | h
        · exact List.mem_cons_self
        · exact List.mem_cons_of_mem _ (ih h)
      | succ i =>
        rw [line_cons_succ hc] at h
        exact List.mem_cons_of_mem _ (ih h)

theorem line_append_of_lt (h : i < cs.count '\n') : line (cs ++ ds) i = line cs i := by
  induction cs generalizing i with
  | nil => simp at h
  | cons c cs ih =>
    by_cases hc : c = '\n'
    · subst hc
      cases i with
      | zero => rfl
      | succ i => exact ih (by simpa using h)
    · rw [List.count_cons_of_ne (by simpa using hc)] at h
      rw [List.cons_append]
      cases i with
      | zero => rw [line_cons_zero hc, line_cons_zero hc, ih h]
      | succ i => rw [line_cons_succ hc, line_cons_succ hc, ih h]

/-- The last line of a text goes on in what is appended. -/
theorem line_append_count (cs ds : List Char) :
    line (cs ++ ds) (cs.count '\n') = line cs (cs.count '\n') ++ line ds 0 := by
  induction cs with
  | nil => simp
  | cons c cs ih =>
    by_cases hc : c = '\n'
    · subst hc
      rw [List.cons_append, List.count_cons_self, line_newline_succ, line_newline_succ, ih]
    · rw [List.cons_append, List.count_cons_of_ne (by simpa using hc)]
      cases hcount : cs.count '\n' with
      | zero =>
        rw [hcount] at ih
        rw [line_cons_zero hc, line_cons_zero hc, ih, List.cons_append]
      | succ n =>
        rw [hcount] at ih
        rw [line_cons_succ hc, line_cons_succ hc, ih]

theorem line_append_add (cs ds : List Char) (hi : 0 < i) :
    line (cs ++ ds) (cs.count '\n' + i) = line ds i := by
  induction cs with
  | nil => simp
  | cons c cs ih =>
    by_cases hc : c = '\n'
    · subst hc
      rw [List.cons_append, List.count_cons_self, Nat.add_right_comm, line_newline_succ, ih]
    · obtain ⟨n, hn⟩ : ∃ n, cs.count '\n' + i = n + 1 := ⟨cs.count '\n' + i - 1, by omega⟩
      rw [hn] at ih
      rw [List.cons_append, List.count_cons_of_ne (by simpa using hc), hn, line_cons_succ hc, ih]

theorem line_append_of_not_mem (h : '\n' ∉ cs) (ds : List Char) :
    line (cs ++ ds) 0 = cs ++ line ds 0 := by
  have hcount := line_append_count cs ds
  rw [List.count_eq_zero.2 h] at hcount
  rw [hcount, line, lines, pieces_of_not_mem h]
  rfl

theorem line_succ_mem_tail (cs : List Char) (i : Nat) :
    line cs (i + 1) ∈ (lines cs).tail ∨ line cs (i + 1) = [] := by
  rw [line, List.getD_eq_getElem?_getD, ← List.getElem?_tail]
  cases hget : (lines cs).tail[i]? with
  | none => exact .inr rfl
  | some l => exact .inl (List.mem_of_getElem? hget)

/-! ## Trimming -/

theorem trimEnd_cons (hc : isBlank c = false) (cs : List Char) :
    trimEnd (c :: cs) = c :: trimEnd cs := by
  unfold trimEnd
  rw [List.reverse_cons, List.dropWhile_append]
  split
  · next hempty =>
    rw [List.isEmpty_iff.1 hempty, List.dropWhile_cons_of_neg (by simpa using hc)]
    rfl
  · rw [List.reverse_append]
    rfl

theorem trimEnd_prefix (cs : List Char) : trimEnd cs <+: cs :=
  List.rdropWhile_prefix isBlank cs

theorem dropWhile_trimEnd (cs : List Char) :
    (trimEnd cs).dropWhile isBlank = trimEnd (cs.dropWhile isBlank) := by
  induction cs with
  | nil => rfl
  | cons c cs ih =>
    by_cases hc : isBlank c = true
    · rw [List.dropWhile_cons_of_pos hc, ← ih]
      unfold trimEnd
      rw [List.reverse_cons, List.dropWhile_append]
      split
      · next hempty =>
        rw [List.isEmpty_iff.1 hempty, List.dropWhile_cons_of_pos hc]
        rfl
      · rw [List.reverse_append]
        exact List.dropWhile_cons_of_pos hc
    · have hc' : isBlank c = false := by simpa using hc
      rw [trimEnd_cons hc', List.dropWhile_cons_of_neg hc, List.dropWhile_cons_of_neg hc,
        trimEnd_cons hc']

theorem trim_trimEnd (cs : List Char) : trim (trimEnd cs) = trim cs := by
  rw [trim, dropWhile_trimEnd]
  exact List.rdropWhile_idempotent isBlank _

end Text

/-! ## Comment lines -/

namespace Comment

open Text

variable {c d : Char} {cs ds : List Char}

theorem text?_append_of_blank (h : ∀ x ∈ cs, isBlank x = true) (ds : List Char) :
    text? (cs ++ ds) = text? ds := by
  unfold text? trim
  rw [List.dropWhile_append_of_pos h]

theorem text?_of_blank (h : ∀ x ∈ cs, isBlank x = true) : text? cs = none := by
  rw [← List.append_nil cs, text?_append_of_blank h]
  rfl

theorem trim_cons (hc : isBlank c = false) (cs : List Char) : trim (c :: cs) = c :: trimEnd cs := by
  rw [trim, List.dropWhile_cons_of_neg (by simpa using hc), trimEnd_cons hc]

theorem text?_of_ne_slash (hblank : isBlank c = false) (hc : c ≠ '/') (cs : List Char) :
    text? (c :: cs) = none := by
  unfold text?
  rw [trim_cons hblank]
  split
  · next heq => exact absurd (List.cons.inj heq).1 hc
  · rfl

theorem text?_of_one_slash (hd : d ≠ '/') (cs : List Char) : text? ('/' :: d :: cs) = none := by
  unfold text?
  rw [trim_cons (by decide)]
  split
  · next rest heq =>
    have hprefix := trimEnd_prefix (d :: cs)
    rw [(List.cons.inj heq).2, List.cons_prefix_cons] at hprefix
    exact absurd hprefix.1.symm hd
  · rfl

theorem text?_slashes (cs : List Char) : text? ('/' :: '/' :: cs) = some (trim cs) := by
  unfold text?
  rw [trim_cons (by decide), trimEnd_cons (by decide)]
  exact congrArg some (trim_trimEnd cs)

/-- Whether a line is a comment line is decided before a quote in it. -/
theorem text?_append_quote (h : text? (cs ++ ['"']) = none) (ds : List Char) :
    text? (cs ++ '"' :: ds) = none := by
  induction cs with
  | nil => exact text?_of_ne_slash (by decide) (by decide) ds
  | cons c cs ih =>
    by_cases hblank : isBlank c = true
    · have hskip : ∀ x ∈ [c], isBlank x = true := by simpa using hblank
      have hcons := text?_append_of_blank hskip (cs ++ '"' :: ds)
      have hcons' := text?_append_of_blank hskip (cs ++ ['"'])
      exact hcons.trans (ih (hcons'.symm.trans h))
    · have hblank : isBlank c = false := by simpa using hblank
      by_cases hc : c = '/'
      · subst hc
        cases cs with
        | nil => exact text?_of_one_slash (by decide) ds
        | cons d cs =>
          by_cases hd : d = '/'
          · subst hd
            rw [List.cons_append, List.cons_append, text?_slashes] at h
            cases h
          · exact text?_of_one_slash hd _
      · exact text?_of_ne_slash hblank hc _

end Comment

/-! ## What tokens look like -/

/-- The text of a comment. -/
def TokenKind.comment? : TokenKind → Option String
  | comment text => some text
  | _ => none

namespace Lexer

/-- The characters of a token of each kind, and what can follow them. -/
inductive Shape : TokenKind → List Char → List Char → Prop
  | blank {lexeme rest} : (∀ c ∈ lexeme, isSpace c = true) → Shape .whitespace lexeme rest
  | comment {body rest} : '\n' ∉ body → (∀ c ∈ rest.head?, c = '\n') →
      Shape (.comment (String.ofList (Text.trim body))) ('/' :: '/' :: body) rest
  | quoted {value body rest} : Shape (.stringLiteral value) ('"' :: body ++ ['"']) rest
  | plain {kind c tail rest} : kind ≠ .whitespace → kind.comment? = none → '\n' ∉ c :: tail →
      Text.isBlank c = false → c ≠ '/' → Shape kind (c :: tail) rest
  | unknown {lexeme rest} : Shape .unknown lexeme rest

theorem eq_false_of_mem_head?_dropWhile {p : Char → Bool} {c : Char} {cs : List Char}
    (h : c ∈ (cs.dropWhile p).head?) : p c = false := by
  have hnot := List.head?_dropWhile_not p cs
  rwa [Option.mem_def.1 h] at hnot

theorem shape_scanBracket (cs : List Char) :
    Shape (scanBracket cs).kind ('[' :: (scanBracket cs).tail) (scanBracket cs).rest := by
  unfold scanBracket
  split
  · have hline : '\n' ∉ '[' :: optionalTail := by decide
    exact .plain (by simp) rfl hline (by decide) (by decide)
  · have hline : '\n' ∉ ['['] := by decide
    exact .plain (by simp) rfl hline (by decide) (by decide)

theorem shape_scanSlash (cs : List Char) :
    Shape (scanSlash cs).kind ('/' :: (scanSlash cs).tail) (scanSlash cs).rest := by
  unfold scanSlash
  split
  · exact .unknown
  · next d ds =>
    split
    · next hd =>
      subst hd
      refine .comment (fun hmem => ?_) fun c hc => ?_
      · simpa using List.mem_takeWhile_imp hmem
      · simpa using eq_false_of_mem_head?_dropWhile hc
    · exact .unknown

theorem shape_scanQuote (cs : List Char) :
    Shape (scanQuote cs).kind ('"' :: (scanQuote cs).tail) (scanQuote cs).rest := by
  unfold scanQuote
  split
  · exact .unknown
  · next q rest hrest =>
    have hmem : q ∈ (cs.dropWhile (· ≠ '"')).head? := by
      rw [hrest]
      rfl
    have hq : q = '"' := by simpa using eq_false_of_mem_head?_dropWhile hmem
    rw [hq]
    exact .quoted

theorem not_isBlank_of_isLetter {c : Char} (hc : Name.isLetter c = true) :
    Text.isBlank c = false := by
  have hrange := Name.isLetter_iff.1 hc
  simp only [Text.isBlank, Bool.or_eq_false_iff, Bool.and_eq_false_iff, beq_eq_false_iff_ne,
    decide_eq_false_iff_not]
  omega

theorem shape_scanWord {c : Char} (hc : Name.isLetter c = true) (cs : List Char) :
    Shape (scanWord c cs).kind (c :: (scanWord c cs).tail) (scanWord c cs).rest := by
  have hbreak : c ≠ '\n' := by
    rintro rfl
    exact absurd hc (by decide)
  have hslash : c ≠ '/' := by
    rintro rfl
    exact absurd hc (by decide)
  have hkind : ∀ word, wordKind word ≠ .whitespace ∧ (wordKind word).comment? = none := by
    intro word
    unfold wordKind
    split
    · exact ⟨by simp, rfl⟩
    · split
      · exact ⟨by simp, rfl⟩
      · exact ⟨by simp, rfl⟩
  refine .plain (hkind _).1 (hkind _).2 ?_ (not_isBlank_of_isLetter hc) hslash
  intro hmem
  rcases List.mem_cons.1 hmem with heq | hmem
  · exact hbreak heq.symm
  · exact absurd (List.mem_takeWhile_imp hmem) (by decide)

theorem shape_scan (c : Char) (cs : List Char) :
    Shape (scan c cs).kind (c :: (scan c cs).tail) (scan c cs).rest := by
  unfold scan
  split
  · next hc => exact hc ▸ shape_scanBracket cs
  split
  · next hc => exact hc ▸ shape_scanSlash cs
  split
  · next hc => exact hc ▸ shape_scanQuote cs
  split
  · next hc =>
    refine .blank (List.forall_mem_cons.2 ⟨hc, fun x hx => ?_⟩)
    exact List.mem_takeWhile_imp hx
  split
  · next hc => exact shape_scanWord hc cs
  split
  · next p hp =>
    have hchar : p.char = c := by simpa [Punct.ofChar?] using List.find?_some hp
    have hpunct : '\n' ∉ [p.char] ∧ Text.isBlank p.char = false ∧ p.char ≠ '/' := by
      cases p <;> decide
    subst hchar
    exact .plain (by simp) rfl hpunct.1 hpunct.2.1 hpunct.2.2
  · exact .unknown

end Lexer

/-! ## Tokens on a line -/

/-- Whether a token other than a blank has a character on line `n`. -/
def Token.isOn (t : Token) (n : Nat) : Bool :=
  t.pos.line ≤ n ∧ n ≤ t.pos.line + t.lexeme.count '\n'

/-- The text of the comment that begins line `n`, if the first token there is a comment; blanks do
not count. -/
def commentOn? (ts : List Token) (n : Nat) : Option String :=
  (ts.find? fun t => t.kind ≠ .whitespace ∧ t.isOn n).bind fun t => t.kind.comment?

/-- No token goes on with two slashes after a line break. Only a quoted text could. -/
def PlainQuotes (ts : List Token) : Prop :=
  ∀ t ∈ ts, ∀ l ∈ (Text.lines t.lexeme).tail, Comment.text? l = none

instance (ts : List Token) : Decidable (PlainQuotes ts) :=
  inferInstanceAs (Decidable (∀ t ∈ ts, ∀ l ∈ (Text.lines t.lexeme).tail, Comment.text? l = none))

section Tokens

variable {t : Token} {ts : List Token} {n i : Nat}

theorem commentOn?_cons_of_isOn (hkind : t.kind ≠ .whitespace) (hon : t.isOn n = true) :
    commentOn? (t :: ts) n = t.kind.comment? := by
  rw [commentOn?, List.find?_cons_of_pos (by simp [hkind, hon])]
  rfl

theorem commentOn?_cons_of_blank (hkind : t.kind = .whitespace) :
    commentOn? (t :: ts) n = commentOn? ts n := by
  rw [commentOn?, List.find?_cons_of_neg (by simp [hkind])]
  rfl

theorem commentOn?_cons_of_not_isOn (hon : t.isOn n = false) :
    commentOn? (t :: ts) n = commentOn? ts n := by
  rw [commentOn?, List.find?_cons_of_neg (by simp [hon])]
  rfl

theorem commentOn?_eq_none_of_lt (h : ∀ t ∈ ts, n < t.pos.line) : commentOn? ts n = none := by
  have hnone : (ts.find? fun t => t.kind ≠ .whitespace ∧ t.isOn n) = none := by
    rw [List.find?_eq_none]
    intro t ht
    have hlt := h t ht
    simp only [Token.isOn, decide_eq_true_eq]
    omega
  rw [commentOn?, hnone]
  rfl

namespace Lexer

open Text Comment

variable {kind : TokenKind} {lexeme rest : List Char}

/-- The lines over which blanks run hold nothing but what follows them. -/
theorem text?_line_of_blank (h : ∀ c ∈ lexeme, isSpace c = true) (rest : List Char) :
    (∀ i < lexeme.count '\n', text? (line (lexeme ++ rest) i) = none) ∧
      text? (line (lexeme ++ rest) (lexeme.count '\n')) = text? (line rest 0) := by
  have hblank : ∀ i, ∀ c ∈ line lexeme i, isBlank c = true := by
    intro i c hc
    have hspace := h c (mem_of_mem_line hc)
    simp only [isSpace, Bool.or_eq_true, decide_eq_true_eq] at hspace
    rcases hspace with ((rfl | rfl) | rfl) | rfl <;> decide
  constructor
  · intro i hi
    rw [line_append_of_lt hi]
    exact text?_of_blank (hblank i)
  · rw [line_append_count]
    exact text?_append_of_blank (hblank _) _

/-- The lines of a quoted text are no comment lines, if its later lines do not begin with two
slashes. -/
theorem text?_line_of_quoted {body : List Char}
    (hplain : ∀ l ∈ (lines ('"' :: body ++ ['"'])).tail, text? l = none)
    (hi : i ≤ ('"' :: body ++ ['"']).count '\n') :
    text? (line ('"' :: body ++ ['"'] ++ rest) i) = none := by
  have hwithin : ∀ i, text? (line ('"' :: body ++ ['"']) i) = none := by
    intro i
    cases i with
    | zero =>
      rw [List.cons_append, line_cons_zero (by decide)]
      exact text?_of_ne_slash (by decide) (by decide) _
    | succ i =>
      rcases line_succ_mem_tail ('"' :: body ++ ['"']) i with hmem | hempty
      · exact hplain _ hmem
      · rw [hempty]
        rfl
  rcases Nat.lt_or_eq_of_le hi with hlt | rfl
  · rw [line_append_of_lt hlt]
    exact hwithin i
  · -- on its last line the closing quote stands before what follows
    have hcount : ('"' :: body ++ ['"']).count '\n' = ('"' :: body).count '\n' := by simp
    have hlast := line_append_count ('"' :: body) ['"']
    have hquote := hwithin (('"' :: body).count '\n')
    rw [hlast] at hquote
    rw [line_append_count, hcount, hlast, List.append_assoc]
    exact text?_append_quote hquote _

/-- On the lines of a token that is not blank, the line comment is what the token says. -/
theorem text?_line_of_shape (hshape : Shape kind lexeme rest) (hblank : kind ≠ .whitespace)
    (hknown : kind ≠ .unknown) (hplain : ∀ l ∈ (lines lexeme).tail, text? l = none)
    (hi : i ≤ lexeme.count '\n') :
    (text? (line (lexeme ++ rest) i)).map String.ofList = kind.comment? := by
  cases hshape with
  | blank => exact absurd rfl hblank
  | unknown => exact absurd rfl hknown
  | @comment body _ hbody hrest =>
    have hline : '\n' ∉ '/' :: '/' :: body := by simpa using hbody
    have hend : line rest 0 = [] := by
      cases rest with
      | nil => rfl
      | cons c rest => rw [hrest c rfl, line_newline_zero]
    rw [List.count_eq_zero.2 hline, Nat.le_zero] at hi
    rw [hi, line_append_of_not_mem hline, hend, List.append_nil, text?_slashes]
    rfl
  | quoted =>
    rw [text?_line_of_quoted hplain hi]
    rfl
  | plain _ hcomment hline hfirst hslash =>
    rw [List.count_eq_zero.2 hline, Nat.le_zero] at hi
    rw [hi, line_append_of_not_mem hline, List.cons_append, text?_of_ne_slash hfirst hslash,
      hcomment]
    rfl

theorem line_le_of_mem_tokensFrom {pos : Position} {cs : List Char} (h : t ∈ tokensFrom pos cs) :
    pos.line ≤ t.pos.line := by
  obtain ⟨before, _, _, hpos⟩ := exists_cut_of_mem_lexFrom (List.mem_append_left _ h)
  rw [hpos, Position.line_after]
  omega

/-- One token and those after it. -/
theorem commentOn?_cons {pos : Position} (hshape : Shape kind lexeme rest)
    (hknown : kind ≠ .unknown) (hplain : ∀ l ∈ (lines lexeme).tail, text? l = none)
    (hlater : ∀ t ∈ ts, (pos.after lexeme).line ≤ t.pos.line)
    (ih : ∀ i, commentOn? ts ((pos.after lexeme).line + i) =
      (text? (line rest i)).map String.ofList) (i : Nat) :
    commentOn? (⟨kind, lexeme, pos⟩ :: ts) (pos.line + i) =
      (text? (line (lexeme ++ rest) i)).map String.ofList := by
  rw [Position.line_after] at ih hlater
  by_cases hi : lexeme.count '\n' < i
  · -- the line begins after the token
    have hon : (⟨kind, lexeme, pos⟩ : Token).isOn (pos.line + i) = false := by
      simp only [Token.isOn, decide_eq_false_iff_not]
      omega
    obtain ⟨j, hj, rfl⟩ : ∃ j, 0 < j ∧ i = lexeme.count '\n' + j :=
      ⟨i - lexeme.count '\n', by omega, by omega⟩
    rw [commentOn?_cons_of_not_isOn hon, line_append_add _ _ hj, ← ih, Nat.add_assoc]
  · have hi : i ≤ lexeme.count '\n' := Nat.le_of_not_lt hi
    by_cases hblank : kind = .whitespace
    · subst hblank
      rw [commentOn?_cons_of_blank rfl]
      cases hshape with
      | blank hspaces =>
        obtain ⟨hbefore, hlast⟩ := text?_line_of_blank hspaces rest
        rcases Nat.lt_or_eq_of_le hi with hlt | rfl
        · rw [hbefore i hlt, commentOn?_eq_none_of_lt fun t ht => by have := hlater t ht; omega]
          rfl
        · rw [hlast, ← ih 0, Nat.add_zero]
      | plain hkind => exact absurd rfl hkind
    · have hon : (⟨kind, lexeme, pos⟩ : Token).isOn (pos.line + i) = true := by
        simp only [Token.isOn, decide_eq_true_eq]
        omega
      rw [commentOn?_cons_of_isOn hblank hon, text?_line_of_shape hshape hblank hknown hplain hi]

/-- Line by line, the tokens of a text know the comment lines of the text. -/
theorem commentOn?_tokensFrom {pos : Position} {cs : List Char}
    (hknown : ∀ t ∈ tokensFrom pos cs, t.kind ≠ .unknown) (hplain : PlainQuotes (tokensFrom pos cs))
    (i : Nat) :
    commentOn? (tokensFrom pos cs) (pos.line + i) = (text? (line cs i)).map String.ofList := by
  fun_induction tokensFrom pos cs generalizing i with
  | case1 pos =>
    rw [line_nil]
    rfl
  | case2 pos c cs ih =>
    rw [List.forall_mem_cons] at hknown
    obtain ⟨hplain, hplains⟩ := List.forall_mem_cons.1 hplain
    have hstep := commentOn?_cons (shape_scan c cs) hknown.1 hplain
      (fun t ht => line_le_of_mem_tokensFrom ht) (ih hknown.2 hplains) i
    rwa [List.cons_append, scan_append] at hstep

end Lexer

/-- Line by line, the tokens of a source know its comment lines. -/
theorem commentOn?_tokens {file source : String}
    (hknown : ∀ t ∈ tokens file source, t.kind ≠ .unknown)
    (hplain : PlainQuotes (tokens file source)) (hn : 0 < n) :
    commentOn? (tokens file source) n =
      (Comment.text? (Comment.lineAt (Text.lines source.toList) n)).map String.ofList := by
  have hline : (Position.start file).line + (n - 1) = n := Nat.add_sub_cancel' hn
  have h := Lexer.commentOn?_tokensFrom hknown hplain (n - 1)
  rwa [hline] at h

end Tokens

end InterfaceLang
