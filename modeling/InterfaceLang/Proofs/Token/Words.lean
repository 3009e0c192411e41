import InterfaceLang.Proofs.Grammar.Names
import InterfaceLang.Proofs.Token.Tiling
import Mathlib.Data.List.TakeWhile

/-!
# Words and the identifier rule

The identifier rule is stated of a name, and the lexer follows it again when it reads a word. The
two agree on every text: a text follows the rule exactly if it is read as one word and nothing else.
Reserved words follow the rule too; they differ from identifiers in the kind of their token only.

Results:
* `Lexer.scan_of_isLetter`: a text that begins with a letter begins with a word.
* `Lexer.isIdentifier_iff_lex`: a text follows the identifier rule exactly if its tokens are one
  word, spelled as the text, and the end mark.
-/

namespace InterfaceLang

/-- The word that a token of this kind is: an identifier, or a reserved word by its spelling. -/
def TokenKind.word? : TokenKind → Option String
  | identifier name => some name
  | keyword k => some k.text
  | builtIn b => some b.text
  | _ => none

namespace Lexer

/-- A word of any kind is spelled as it was read. -/
theorem word?_wordKind (word : String) : (wordKind word).word? = some word := by
  unfold wordKind
  cases hk : Keyword.ofWord? word with
  | some k =>
    have htext := List.find?_some hk
    simpa [TokenKind.word?] using htext
  | none =>
    cases hb : BuiltIn.ofName? word with
    | some b =>
      have htext := List.find?_some hb
      simpa [TokenKind.word?] using htext
    | none => rfl

theorem scan_of_isLetter {c : Char} (h : Name.isLetter c = true) (cs : List Char) :
    scan c cs = scanWord c cs := by
  have hne : ∀ d, Name.isLetter d = false → c ≠ d := by
    rintro d hd rfl
    rw [h] at hd
    cases hd
  have hspace : ¬isSpace c = true := by
    simp [isSpace, hne ' ' rfl, hne '\t' rfl, hne '\r' rfl, hne '\n' rfl]
  rw [scan, if_neg (hne '[' rfl), if_neg (hne '/' rfl), if_neg (hne '"' rfl), if_neg hspace,
    if_pos h]

/-- Without a letter in front there is no word. -/
theorem word?_scan_of_not_isLetter {c : Char} (h : ¬Name.isLetter c = true) (cs : List Char) :
    (scan c cs).kind.word? = none := by
  unfold scan
  split
  · unfold scanBracket
    split <;> rfl
  split
  · unfold scanSlash
    split
    · rfl
    · split <;> rfl
  split
  · unfold scanQuote
    split <;> rfl
  split
  · rfl
  split <;> rfl

/-- The word at the front of a text is as long as it can be. -/
theorem word?_scan {c : Char} (h : Name.isLetter c = true) (cs : List Char) :
    (scan c cs).kind.word? = some (String.ofList (c :: cs.takeWhile Name.isWordChar)) := by
  rw [scan_of_isLetter h]
  exact word?_wordKind _

theorem isIdentifier_of_word?_scan {c : Char} {cs : List Char} {word : String}
    (h : (scan c cs).kind.word? = some word) : Name.isIdentifier word = true := by
  by_cases hc : Name.isLetter c = true
  · rw [word?_scan hc] at h
    cases h
    exact isIdentifier_ofList_cons cs hc
  · rw [word?_scan_of_not_isLetter hc] at h
    cases h

/-- A text follows the identifier rule exactly if it is read as one word. -/
theorem isIdentifier_iff_lex (file text : String) :
    Name.isIdentifier text = true ↔
      ∃ t, lex file text = [t, endMark file text] ∧ t.kind.word? = some text := by
  have hend : endMark file text = ⟨.eof, [], (Position.start file).after text.toList⟩ := rfl
  rw [lex_eq_lexFrom, hend]
  cases hcs : text.toList with
  | nil =>
    refine iff_of_false ?_ ?_
    · simp [Name.isIdentifier, hcs, Name.isWord]
    · rintro ⟨t, hlex, _⟩
      rw [lexFrom_nil] at hlex
      cases hlex
  | cons c cs =>
    rw [lexFrom_cons]
    constructor
    · intro h
      rw [Name.isIdentifier, hcs, Name.isWord, Bool.and_eq_true, List.all_eq_true] at h
      obtain ⟨hc, hrest⟩ := h
      -- all characters belong to the word, so that nothing follows it
      have htail : cs.takeWhile Name.isWordChar = cs := List.takeWhile_eq_self_iff.2 hrest
      have hdone : cs.dropWhile Name.isWordChar = [] := List.dropWhile_eq_nil_iff.2 hrest
      refine ⟨⟨(scan c cs).kind, c :: (scan c cs).tail, .start file⟩, ?_, ?_⟩
      · rw [scan_of_isLetter hc, scanWord, htail, hdone, lexFrom_nil]
      · rw [word?_scan hc, htail, ← hcs, String.ofList_toList]
    · rintro ⟨t, hlex, hword⟩
      obtain ⟨rfl, _⟩ := List.cons.inj hlex
      exact isIdentifier_of_word?_scan hword

end Lexer

end InterfaceLang
