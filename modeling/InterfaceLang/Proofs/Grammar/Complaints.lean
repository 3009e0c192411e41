import InterfaceLang.Proofs.Grammar.Acceptance
import InterfaceLang.Proofs.Grammar.Lookahead
import InterfaceLang.Proofs.Grammar.Spelling

/-!
# Where a syntax error points

A stream that is no file has a first impossible token: up to it the stream could still become a
file, and with it no longer. The end mark counts as a token here, so that a stream which breaks off
too soon has its end mark as the first impossible token. The reader of files is prompt, and so it is
stuck at exactly this token; the complaint names its position and its bytes.

Results:
* `FirstImpossible.unique`: a stream has at most one first impossible token.
* `firstImpossible_of_file`: the reader of files is stuck at the first impossible token.
* `Parser.parse_error_first_impossible`: a syntax error points at the first impossible token.
-/

namespace InterfaceLang

open Grammar

namespace Grammar

/-- The tokens before `t` begin a file, and with `t` they neither begin a file nor are a whole file
and its end mark. -/
structure FirstImpossible (ts before : List Token) (t : Token) : Prop where
  stream : before ++ [t] <+: ts
  possible : ∃ d : SourceTree, before <+: leaves d
  impossible : ∀ (d : SourceTree) (mark : Token), mark.kind = .eof →
    ¬before ++ [t] <+: leaves d ++ [mark]

variable {ts before before' : List Token} {t t' mark : Token}

/-- Of two impossible tokens the later one stands after an impossible beginning. -/
theorem FirstImpossible.eq_of_begins (h : FirstImpossible ts before t)
    (h' : FirstImpossible ts before' t') (hle : before ++ [t] <+: before' ++ [t']) :
    before ++ [t] = before' ++ [t'] := by
  rcases List.prefix_concat_iff.1 hle with heq | hbegins
  · exact heq
  · obtain ⟨d, hd⟩ := h'.possible
    have hfile := (hbegins.trans hd).trans (List.prefix_append (leaves d) [⟨.eof, [], default⟩])
    exact absurd hfile (h.impossible d _ rfl)

theorem FirstImpossible.unique (h : FirstImpossible ts before t)
    (h' : FirstImpossible ts before' t') : before = before' ∧ t = t' := by
  have heq : before ++ [t] = before' ++ [t'] := by
    rcases List.prefix_or_prefix_of_prefix h.stream h'.stream with hle | hle
    · exact h.eq_of_begins h' hle
    · exact (h'.eq_of_begins h hle).symm
  simpa using List.append_inj' heq rfl

/-- A stuck reader has stopped before the first impossible token of the stream and its end mark. -/
theorem firstImpossible_of_file {e : Stuck} (h : file ts = .error e)
    (hts : ∀ t ∈ ts, t.kind ≠ .eof) (hmark : mark.kind = .eof) :
    ∃ before t after, e.rest ++ [mark] = t :: after ∧ FirstImpossible (ts ++ [mark]) before t := by
  obtain ⟨before, d, hsplit, hd, hstuck⟩ := prompt_file.error h
  obtain ⟨t, after, hnext⟩ := List.exists_cons_of_ne_nil (List.concat_ne_nil mark e.rest)
  refine ⟨before, t, after, hnext, ?_, ⟨d, hd⟩, fun d' mark' hmark' hbegins => ?_⟩
  · rw [← hsplit, List.append_assoc, hnext]
    exact ⟨after, List.append_assoc ..⟩
  rcases List.prefix_concat_iff.1 hbegins with heq | ⟨rest, hrest⟩
  · -- the token is an end mark, so the whole stream would be a file
    obtain ⟨hbefore, hlast⟩ := List.append_inj' heq rfl
    obtain rfl := (List.cons.inj hlast).1
    cases hempty : e.rest with
    | nil =>
      rw [hempty, List.append_nil] at hsplit
      rw [← hsplit, hbefore, file_leaves] at h
      cases h
    | cons u us =>
      rw [hempty] at hnext hsplit
      obtain ⟨rfl, _⟩ := List.cons.inj hnext
      exact hts u (hsplit ▸ by simp) hmark'
  · -- a file goes on with the token, at which the reader is stuck whatever follows
    rw [List.append_assoc, List.singleton_append] at hrest
    have hkind : t.kind ≠ .eof := Spelled.kind_ne rfl d' (hrest ▸ by simp)
    cases hempty : e.rest with
    | nil =>
      rw [hempty] at hnext
      obtain ⟨rfl, _⟩ := List.cons.inj hnext
      exact hkind hmark
    | cons u us =>
      rw [hempty] at hnext
      obtain ⟨rfl, _⟩ := List.cons.inj hnext
      have hfails := hstuck (u :: rest) (by rw [hempty]; rfl)
      rw [hrest, file_leaves] at hfails
      cases hfails

end Grammar

namespace Parser

/-- The tokens of a source text that are left without trivia and directives, the end mark last. -/
def stream (source : SourceText) : List Token :=
  (Directive.extract ((lex source.name source.text).filter (!·.isTrivia))).kept

theorem stream_eq (source : SourceText) :
    stream source =
      (Directive.extract (significant source)).kept ++ [endMark source.name source.text] := by
  have hfilter : (lex source.name source.text).filter (!·.isTrivia) =
      significant source ++ [endMark source.name source.text] := by
    rw [lex, List.filter_append]
    rfl
  rw [stream, hfilter]
  exact congrArg Directive.Lifted.kept (Directive.lift_concat_of_eof rfl .start _)

theorem kind_ne_eof_of_mem_kept {source : SourceText} {t : Token}
    (h : t ∈ (Directive.extract (significant source)).kept) : t.kind ≠ .eof := by
  have hmem := (Directive.kept_sublist _ _).subset h
  exact Lexer.kind_ne_eof (List.mem_filter.1 hmem).1

/-- What the complaint says of the token before which the reader is stuck. -/
theorem complaint_spec {source : SourceText} {e : Stuck} {t : Token} {after : List Token}
    (hnext : e.rest ++ [endMark source.name source.text] = t :: after)
    (hrest : ∀ u ∈ e.rest, u.kind ≠ .eof) :
    (complaint source e).spot = ⟨source, t.span, t.pos⟩ ∧
      ((∃ expected spot, complaint source e = .unexpectedEnd expected spot) ↔ t.kind = .eof) ∧
      ((∃ expected spot, complaint source e = .unexpectedToken t.kind expected spot) ↔
        t.kind ≠ .eof) := by
  unfold complaint
  cases hempty : e.rest with
  | nil =>
    rw [hempty] at hnext
    obtain ⟨rfl, _⟩ := List.cons.inj hnext
    exact ⟨rfl, by simp [endMark], by simp [endMark]⟩
  | cons u us =>
    have hkind := hrest u (hempty ▸ List.mem_cons_self)
    rw [hempty] at hnext
    obtain ⟨rfl, _⟩ := List.cons.inj hnext
    exact ⟨rfl, by simp [hkind], by simp [hkind]⟩

/-- A syntax error of a source text, all of whose characters begin tokens, points at the first
impossible token of its stream; it is an unexpected end exactly if this is the end mark. -/
theorem parse_error_first_impossible {source : SourceText} {e : SyntaxError}
    (hknown : ∀ t ∈ tokens source.name source.text, t.kind ≠ .unknown)
    (h : parse source = .error e) :
    ∃ before t, FirstImpossible (stream source) before t ∧
      (∀ before' t', FirstImpossible (stream source) before' t' → before' = before ∧ t' = t) ∧
      e.spot = ⟨source, t.span, t.pos⟩ ∧
      ((∃ expected spot, e = .unexpectedEnd expected spot) ↔ t.kind = .eof) ∧
      ((∃ expected spot, e = .unexpectedToken t.kind expected spot) ↔ t.kind ≠ .eof) := by
  rw [parse_eq_readRest hknown] at h
  unfold readRest at h
  split at h
  · cases h
  · next stuck hstuck =>
    cases h
    have hkept : ∀ t ∈ (ofTokens source (significant source)).pending, t.kind ≠ .eof :=
      fun t ht => kind_ne_eof_of_mem_kept ht
    obtain ⟨before, t, after, hnext, hfirst⟩ :=
      firstImpossible_of_file hstuck hkept (rfl : (endMark source.name source.text).kind = .eof)
    have hrest : ∀ u ∈ stuck.rest, u.kind ≠ .eof :=
      fun u hu => hkept u ((reads_file.suffix_of_error hstuck).subset hu)
    rw [stream_eq]
    exact ⟨before, t, hfirst, fun before' t' h' => h'.unique hfirst, complaint_spec hnext hrest⟩

/-- A field whose type is missing: the closing brace is the first impossible token, although the
name of another field could have stood there had there been a type. -/
theorem parse_error_first_impossible_of_missing_type :
    ∃ source : SourceText, source.text = "struct S \x7b a []\n\x7d" ∧
      parse source =
        .error (.unexpectedToken (.punct .rbrace) .type ⟨source, ⟨16, 1⟩, ⟨"", 2, 1, 16⟩⟩) ∧
      ∃ before t, FirstImpossible (stream source) before t ∧ t.kind ≠ .eof ∧
        t.pos = ⟨"", 2, 1, 16⟩ := by
  have hknown : ∀ t ∈ tokens "" "struct S \x7b a []\n\x7d", t.kind ≠ .unknown := by
    decide +kernel
  have hparse : parse ⟨"", "struct S \x7b a []\n\x7d"⟩ = .error (
      .unexpectedToken (.punct .rbrace) .type
      ⟨⟨"", "struct S \x7b a []\n\x7d"⟩, ⟨16, 1⟩, ⟨"", 2, 1, 16⟩⟩) := by
    decide +kernel
  obtain ⟨before, t, hfirst, _, hspot, hend, _⟩ := parse_error_first_impossible hknown hparse
  refine ⟨_, rfl, hparse, before, t, hfirst, fun heof => ?_, (congrArg Spot.pos hspot).symm⟩
  obtain ⟨_, _, hne⟩ := hend.2 heof
  cases hne

end Parser

end InterfaceLang
