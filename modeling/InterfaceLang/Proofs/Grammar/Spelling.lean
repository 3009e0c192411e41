import InterfaceLang.Proofs.Grammar.Derivation
import InterfaceLang.Proofs.Token.Words

/-!
# Spelling

The kind of a word or of a mark determines its characters, while blanks, comments and quoted texts
can be written in many ways. The other way round, a text that begins with such a spelling begins
with the token, unless what follows continues it: a word must not be followed by a word character,
and an opening bracket not by the rest of an optional mark. The leaves of trees are all of such
kinds.

Results:
* `Lexer.lexeme_eq_of_spelling?`: the tokens of a text are spelled as their kinds say.
* `Lexer.tokensFrom_word`, `Lexer.tokensFrom_punct`: reading a spelling gives its token.
* `Grammar.Spelled`: the leaves of trees have a spelling.
-/

namespace InterfaceLang

/-- The words that are no identifiers. -/
def reservedWords : List String :=
  Keyword.all.map (·.text) ++ BuiltIn.all.map (·.text)

namespace TokenKind

/-- The characters of a word or a mark. -/
def spelling? : TokenKind → Option (List Char)
  | punct p => some [p.char]
  | optionalMark => some ('[' :: Lexer.optionalTail)
  | k => k.word?.map String.toList

theorem spelling?_of_word? {k : TokenKind} {word : String} (h : k.word? = some word) :
    k.spelling? = some word.toList := by
  cases k with
  | identifier | keyword | builtIn =>
    cases h
    rfl
  | _ => cases h

theorem not_isTrivia_of_spelling? {k : TokenKind} (h : k.spelling?.isSome) :
    k.isTrivia = false := by
  cases k with
  | whitespace | comment => cases h
  | _ => rfl

end TokenKind

namespace Lexer

/-! ## From tokens to their spelling -/

theorem spelling?_scan (c : Char) (cs : List Char) :
    ∀ w ∈ (scan c cs).kind.spelling?, c :: (scan c cs).tail = w := by
  unfold scan
  split
  · next hc =>
    subst hc
    unfold scanBracket
    split
    · rintro _ ⟨⟩; rfl
    · rintro _ ⟨⟩; rfl
  split
  · unfold scanSlash
    split
    · rintro _ ⟨⟩
    · split <;> rintro _ ⟨⟩
  split
  · unfold scanQuote
    split <;> rintro _ ⟨⟩
  split
  · rintro _ ⟨⟩
  split
  · intro w hw
    rw [scanWord, TokenKind.spelling?_of_word? (word?_wordKind _), String.toList_ofList] at hw
    exact Option.some.inj hw
  split
  · next p hp =>
    rintro _ ⟨⟩
    have hchar : p.char = c := by simpa using List.find?_some hp
    rw [hchar]
  · rintro _ ⟨⟩

/-- The tokens of a text are spelled as their kinds say. -/
theorem lexeme_eq_of_spelling? {pos : Position} {cs w : List Char} {t : Token}
    (h : t ∈ tokensFrom pos cs) (hw : t.kind.spelling? = some w) : t.lexeme = w := by
  fun_induction tokensFrom pos cs with
  | case1 => cases h
  | case2 pos c cs ih =>
    rcases List.mem_cons.1 h with rfl | h
    · exact spelling?_scan c cs w hw
    · exact ih h

/-! ## From a spelling to its token -/

theorem wordKind_of_not_mem_reservedWords {word : String} (h : word ∉ reservedWords) :
    wordKind word = .identifier word := by
  have hkeyword : Keyword.ofWord? word = none := by
    refine List.find?_eq_none.2 fun k hk htext => h (List.mem_append_left _ ?_)
    exact List.mem_map.2 ⟨k, hk, by simpa using htext⟩
  have hbuiltIn : BuiltIn.ofName? word = none := by
    refine List.find?_eq_none.2 fun b hb htext => h (List.mem_append_right _ ?_)
    exact List.mem_map.2 ⟨b, hb, by simpa using htext⟩
  rw [wordKind, hkeyword, hbuiltIn]

/-- A text begins with a word if no character continues it. -/
theorem tokensFrom_word {w cs : List Char} (hw : Name.isWord w = true)
    (hcs : ∀ c ∈ cs.head?, Name.isWordChar c = false) (pos : Position) :
    tokensFrom pos (w ++ cs) =
      ⟨wordKind (String.ofList w), w, pos⟩ :: tokensFrom (pos.after w) cs := by
  cases w with
  | nil => cases hw
  | cons c w =>
    rw [Name.isWord, Bool.and_eq_true, List.all_eq_true] at hw
    obtain ⟨hc, hw⟩ := hw
    have htake : cs.takeWhile Name.isWordChar = [] := by
      cases cs with
      | nil => rfl
      | cons d ds => simp [hcs d rfl]
    have hdrop : cs.dropWhile Name.isWordChar = cs := by
      cases cs with
      | nil => rfl
      | cons d ds => simp [hcs d rfl]
    rw [List.cons_append, tokensFrom, scan_of_isLetter hc, scanWord,
      List.takeWhile_append_of_pos hw, List.dropWhile_append_of_pos hw, htake, hdrop,
      List.append_nil]

theorem tokensFrom_keyword (k : Keyword) {cs : List Char}
    (hcs : ∀ c ∈ cs.head?, Name.isWordChar c = false) (pos : Position) :
    tokensFrom pos (k.text.toList ++ cs) =
      ⟨.keyword k, k.text.toList, pos⟩ :: tokensFrom (pos.after k.text.toList) cs := by
  have hword : Name.isWord k.text.toList = true := by cases k <;> decide
  have hkind : wordKind k.text = .keyword k := by cases k <;> decide
  rw [tokensFrom_word hword hcs, String.ofList_toList, hkind]

theorem tokensFrom_builtIn (b : BuiltIn) {cs : List Char}
    (hcs : ∀ c ∈ cs.head?, Name.isWordChar c = false) (pos : Position) :
    tokensFrom pos (b.text.toList ++ cs) =
      ⟨.builtIn b, b.text.toList, pos⟩ :: tokensFrom (pos.after b.text.toList) cs := by
  have hword : Name.isWord b.text.toList = true := by cases b <;> decide
  have hkind : wordKind b.text = .builtIn b := by cases b <;> decide
  rw [tokensFrom_word hword hcs, String.ofList_toList, hkind]

theorem not_optionalTail_of_ne {c : Char} (h : c ≠ 'o') (cs : List Char) :
    ¬optionalTail <+: c :: cs := by
  have hcons : optionalTail = 'o' :: "ptional]".toList := by decide
  rw [hcons, List.cons_prefix_cons]
  exact fun hmark => h hmark.1.symm

/-- A text begins with a mark, but an opening bracket may begin an optional mark instead. -/
theorem tokensFrom_punct {p : Punct} {cs : List Char}
    (h : p = .lbracket → ¬optionalTail <+: cs) (pos : Position) :
    tokensFrom pos (p.char :: cs) =
      ⟨.punct p, [p.char], pos⟩ :: tokensFrom (pos.after [p.char]) cs := by
  have hscan : scan p.char cs = ⟨.punct p, [], cs⟩ := by
    cases p with
    | lbracket =>
      have hno : ¬optionalTail.isPrefixOf cs = true := by
        rw [List.isPrefixOf_iff_prefix]
        exact h rfl
      exact if_neg hno
    | _ => rfl
  rw [tokensFrom, hscan]

end Lexer

/-! ## Trees -/

namespace Grammar

variable {δ ε : Type} [Phrase δ] [Phrase ε]

/-- Trees whose leaves are words and marks. -/
class Spelled (δ : Type) [Phrase δ] : Prop where
  spelling : ∀ d : δ, ∀ t ∈ leaves d, t.kind.spelling?.isSome

namespace Spelled

theorem leaf {kind : TokenKind} (h : kind.spelling?.isSome) : Spelled (Leaf kind) := by
  refine ⟨fun l t ht => ?_⟩
  rw [List.mem_singleton.1 ht, l.kind_eq]
  exact h

instance (k : Keyword) : Spelled (Leaf (.keyword k)) := leaf rfl

instance (p : Punct) : Spelled (Leaf (.punct p)) := leaf rfl

instance (b : BuiltIn) : Spelled (Leaf (.builtIn b)) := leaf rfl

instance : Spelled (Leaf .optionalMark) := leaf rfl

instance : Spelled NameLeaf := by
  refine ⟨fun n t ht => ?_⟩
  rw [List.mem_singleton.1 ht, n.kind_eq]
  rfl

instance : Spelled BuiltInLeaf := by
  refine ⟨fun b t ht => ?_⟩
  rw [List.mem_singleton.1 ht, b.kind_eq]
  rfl

instance [Spelled δ] [Spelled ε] : Spelled (δ × ε) :=
  ⟨fun d => List.forall_mem_append.2 ⟨spelling d.1, spelling d.2⟩⟩

instance [Spelled δ] : Spelled (Option δ) := by
  refine ⟨?_⟩
  rintro (_ | d)
  · simp
  · exact spelling d

instance [Spelled δ] : Spelled (List δ) :=
  ⟨fun _ => List.forall_mem_flatMap.2 fun d _ => spelling d⟩

instance : Spelled TypeTree := by
  refine ⟨fun d => ?_⟩
  induction d with
  | builtIn b => exact spelling b
  | array brackets element ih => exact List.forall_mem_append.2 ⟨spelling brackets, ih⟩
  | mapOf key value ih => exact List.forall_mem_append.2 ⟨spelling key, ih⟩
  | named name => exact spelling name

instance : Spelled ElementTree := by
  refine ⟨?_⟩
  rintro (d | d | d | d)
  · exact spelling d
  · exact spelling d
  · exact spelling d
  · exact spelling d

/-- No leaf is of a kind without a spelling. -/
theorem kind_ne [Spelled δ] {k : TokenKind} (hk : k.spelling? = none) (d : δ) {t : Token}
    (ht : t ∈ leaves d) : t.kind ≠ k := by
  rintro rfl
  have hsome := spelling d t ht
  rw [hk] at hsome
  cases hsome

end Spelled

end Grammar

end InterfaceLang
