import InterfaceLang.Proofs.Grammar.Complaints
import Mathlib.Data.List.Nodup

/-!
# Attempts of a parser

A parser that has failed can be asked again, and it goes on where it stopped. Its cursor is the
index of the token that it stands at in the stream of its source text. That index is always one of
the stream, the end mark being the last: whatever a production takes is taken from the tokens before
the end mark, so a production cannot succeed at the end mark without taking anything.

From this follows what holds over all attempts. No attempt runs for ever: each loop is over after as
many rounds as there are tokens left. The cursor never goes back, and a failed attempt leaves it at
the token that its error names. The imports wait for the first attempt that succeeds.

Results:
* `Grammar.manyWithin_eq`: a loop whose rounds all take a token needs no more rounds than tokens.
* `Parser.MovesOn.of_advances`: a production that advances moves the cursor forward.
* `Parser.handedOut_append_imports`: what attempts have handed out and what waits are all imports.
* `Parser.attempts_of_source`: the attempts of a parser that was made from a source text.
-/

namespace InterfaceLang

open Grammar

namespace Grammar

variable {α : Type} {done : List Token → Bool} {item : Reader α}

/-- The loop of `manyUntil`, given up after a number of rounds. -/
def manyWithin (done : List Token → Bool) (item : Reader α) :
    Nat → List Token → Option (Except Stuck (List α × List Token))
  | 0, _ => none
  | n + 1, ts =>
    if done ts then some (.ok ([], ts))
    else
      match item ts with
      | .error e => some (.error e)
      | .ok (a, rest) => (manyWithin done item n rest).map fun r => r.map fun p => (a :: p.1, p.2)

/-- A loop ends: each round takes a token, and one more round finds that none is left. -/
theorem manyWithin_eq (hitem : Advances item) {n : Nat} {ts : List Token} (h : ts.length < n) :
    manyWithin done item n ts = some (manyUntil done item hitem ts) := by
  induction n generalizing ts with
  | zero => omega
  | succ n ih =>
    rw [manyWithin, manyUntil]
    split
    · rfl
    split
    · next herror => rw [herror]
    · next a rest hok =>
      -- the item has taken a token, so one round less is enough for what is left
      have hshorter := hitem.shorter hok
      rw [hok, ih (by omega), Option.map_some]
      dsimp only
      cases manyUntil done item hitem rest <;> rfl

end Grammar

namespace Directive

/-- Every path that is named is named by a distinct directive. -/
theorem path_mem_distinct {d : Directive} {seen : List String} {ds : List Directive} (h : d ∈ ds) :
    d.path ∈ seen ∨ d.path ∈ (distinct seen ds).map (·.path) := by
  fun_induction distinct seen ds with
  | case1 => cases h
  | case2 seen e ds he ih =>
    rcases List.mem_cons.1 h with rfl | h
    · exact .inl he
    · exact ih h
  | case3 seen e ds he ih =>
    rcases List.mem_cons.1 h with rfl | h
    · exact .inr List.mem_cons_self
    rcases ih h with hseen | hlater
    · rcases List.mem_cons.1 hseen with hpath | hseen
      · exact .inr (List.mem_map.2 ⟨e, List.mem_cons_self, hpath.symm⟩)
      · exact .inl hseen
    · exact .inr (List.mem_cons_of_mem _ hlater)

theorem count_path_imports {ts : List Token} {d : Directive} (h : d ∈ (lift .start ts).directives) :
    ((extract ts).imports.map (·.path)).count d.path = 1 := by
  have hmem : d.path ∈ (extract ts).imports.map (·.path) :=
    (path_mem_distinct h).resolve_left List.not_mem_nil
  have hnodup : ((extract ts).imports.map (·.path)).Nodup := nodup_path_distinct _ _
  exact List.count_eq_one_of_mem hnodup hmem

end Directive

namespace Parser

variable {α : Type} {source : SourceText} {p q : Parser} {ts : List Token}

/-! ## The cursor -/

/-- The index of the token that a parser stands at, in the stream of its source text. -/
def cursor (p : Parser) : Nat :=
  (stream p.source).length - (p.pending.length + 1)

/-- A parser stands in its stream: its cursor is the index of a token, and what is pending is what
follows there before the end mark. -/
structure Stands (p : Parser) : Prop where
  inside : p.cursor < (stream p.source).length
  drop : (stream p.source).drop p.cursor = p.pending ++ [endMark p.source.name p.source.text]

/-- A parser with other tokens pending. -/
def moveTo (p : Parser) (ts : List Token) : Parser :=
  { p with pending := ts }

theorem Stands.of_suffix
    (h : p.pending <:+ (Directive.extract (significant p.source)).kept) : p.Stands := by
  obtain ⟨before, hsplit⟩ := h
  have hstream : stream p.source =
      before ++ (p.pending ++ [endMark p.source.name p.source.text]) := by
    rw [stream_eq, ← hsplit, List.append_assoc]
  have hcursor : p.cursor = before.length := by
    rw [cursor, hstream]
    simp
  refine ⟨?_, ?_⟩
  · rw [hcursor, hstream]
    simp
  · rw [hcursor, hstream, List.drop_left]

theorem Stands.suffix (h : p.Stands) :
    p.pending <:+ (Directive.extract (significant p.source)).kept := by
  have hstream := List.take_append_drop p.cursor (stream p.source)
  rw [h.drop, stream_eq, ← List.append_assoc] at hstream
  exact ⟨_, (List.append_inj' hstream rfl).1⟩

theorem Stands.cursor_add (h : p.Stands) :
    p.cursor + (p.pending.length + 1) = (stream p.source).length := by
  have hlength := congrArg List.length h.drop
  have hinside := h.inside
  simp only [List.length_drop, List.length_append, List.length_singleton] at hlength
  omega

theorem Stands.get? (h : p.Stands) :
    (stream p.source)[p.cursor]? =
      (p.pending ++ [endMark p.source.name p.source.text]).head? := by
  rw [← h.drop, List.head?_drop]

/-- Taking tokens keeps a parser in its stream and does not move it back. -/
theorem Stands.moveTo (h : p.Stands) (hts : ts <:+ p.pending) :
    (p.moveTo ts).Stands ∧ p.cursor ≤ (p.moveTo ts).cursor := by
  have hstands : (p.moveTo ts).Stands := .of_suffix (hts.trans h.suffix)
  refine ⟨hstands, ?_⟩
  have hbefore := h.cursor_add
  have hafter : (p.moveTo ts).cursor + (ts.length + 1) = (stream p.source).length :=
    hstands.cursor_add
  have hlength := hts.length_le
  omega

/-! ## Productions and loops -/

/-- Where a production leaves the cursor: farther on if it succeeds, not farther back if it fails,
and at a token of the stream in both cases. -/
structure MovesOn (r : Reader α) (p : Parser) : Prop where
  ok : ∀ a rest, r p.pending = .ok (a, rest) →
    (p.moveTo rest).Stands ∧ p.cursor < (p.moveTo rest).cursor
  error : ∀ e, r p.pending = .error e →
    (p.moveTo e.rest).Stands ∧ p.cursor ≤ (p.moveTo e.rest).cursor

theorem MovesOn.of_advances {r : Reader α} (hr : Advances r) (h : p.Stands) : MovesOn r p where
  ok a rest hok := by
    obtain ⟨hstands, _⟩ := h.moveTo (hr.suffix_of_ok hok)
    refine ⟨hstands, ?_⟩
    have hbefore := h.cursor_add
    have hafter : (p.moveTo rest).cursor + (rest.length + 1) = (stream p.source).length :=
      hstands.cursor_add
    have hlength := hr.shorter hok
    omega
  error e herror := h.moveTo (hr.suffix_of_error herror)

/-- A loop is over after as many rounds as the stream has tokens from the cursor on. -/
def Ends (done : List Token → Bool) (item : Reader α) (hitem : Advances item) (p : Parser) : Prop :=
  manyWithin done item ((stream p.source).length - p.cursor) p.pending =
    some (manyUntil done item hitem p.pending)

theorem Ends.of_stands {done : List Token → Bool} {item : Reader α} {hitem : Advances item}
    (h : p.Stands) : Ends done item hitem p := by
  have hcursor := h.cursor_add
  exact manyWithin_eq hitem (by omega)

/-- What the productions do wherever a parser stands. -/
structure Productive (p : Parser) : Prop where
  element : MovesOn element p
  method : MovesOn method p
  param : MovesOn param p
  field : MovesOn field p
  type : MovesOn typeExpr p

/-- The loops of the grammar end wherever a parser stands: over the elements of a file, the members
of the three kinds of bodies, parameters, the parts of a dotted name, and the layers of a type. -/
structure LoopsEnd (p : Parser) : Prop where
  elements : Ends List.isEmpty Grammar.element advances_element p
  methods : Ends (startsWith (.punct .rbrace)) Grammar.method advances_method p
  fields : Ends (startsWith (.punct .rbrace)) Grammar.field advances_field p
  values : Ends (startsWith (.punct .rbrace)) (ident .enumValue) (advances_ident _) p
  params : Ends (fun ts => !startsWith (.punct .comma) ts) commaParam advances_commaParam p
  parts : Ends (fun ts => !startsWith (.punct .dot) ts) dotName advances_dotName p
  layers : Ends (fun ts => !atLayer ts) layer advances_layer p

theorem Stands.productive (h : p.Stands) : p.Productive where
  element := .of_advances advances_element h
  method := .of_advances advances_method h
  param := .of_advances advances_param h
  field := .of_advances advances_field h
  type := .of_advances advances_typeExpr h

theorem Stands.loopsEnd (h : p.Stands) : p.LoopsEnd where
  elements := .of_stands h
  methods := .of_stands h
  fields := .of_stands h
  values := .of_stands h
  params := .of_stands h
  parts := .of_stands h
  layers := .of_stands h

/-! ## One attempt -/

/-- An attempt keeps the parser in its stream and does not move it back. -/
theorem Stands.readRest (h : p.Stands) :
    p.readRest.2.source = p.source ∧ p.readRest.2.Stands ∧ p.cursor ≤ p.readRest.2.cursor := by
  unfold Parser.readRest
  split
  · next hok =>
    obtain ⟨hstands, hcursor⟩ := h.moveTo (reads_file.suffix_of_ok hok)
    exact ⟨rfl, ⟨hstands.inside, hstands.drop⟩, hcursor⟩
  · next herror => exact ⟨rfl, h.moveTo (reads_file.suffix_of_error herror)⟩

/-- A failed attempt ends at the token that its error names, and the imports wait. -/
theorem Stands.readRest_error {e : SyntaxError} (h : p.Stands) (herror : p.readRest.1 = .error e) :
    p.readRest.2.imports = p.imports ∧
      ∃ t, (stream p.source)[p.readRest.2.cursor]? = some t ∧ e.spot = ⟨p.source, t.span, t.pos⟩ ∧
        ((∃ expected spot, e = .unexpectedEnd expected spot) ↔ t.kind = .eof) ∧
        ((∃ expected spot, e = .unexpectedToken t.kind expected spot) ↔ t.kind ≠ .eof) := by
  refine ⟨(imports_readRest_of_error herror).1, ?_⟩
  obtain ⟨hsource, hstands, _⟩ := h.readRest
  have hget := hstands.get?
  rw [hsource] at hget
  unfold Parser.readRest at herror hget ⊢
  split at herror
  · cases herror
  · next stuck hstuck =>
    cases herror
    rw [hstuck] at hget
    obtain ⟨t, after, hnext⟩ := List.exists_cons_of_ne_nil
      (List.concat_ne_nil (endMark p.source.name p.source.text) stuck.rest)
    have hkinds : ∀ u ∈ stuck.rest, u.kind ≠ .eof := by
      intro u hu
      exact kind_ne_eof_of_mem_kept
        (((reads_file.suffix_of_error hstuck).trans h.suffix).subset hu)
    refine ⟨t, ?_, complaint_spec hnext hkinds⟩
    rw [hget]
    exact congrArg List.head? hnext

/-- A successful attempt hands all imports out and ends at the end mark. -/
theorem Stands.readRest_ok {f : SourceFile} (h : p.Stands) (hok : p.readRest.1 = .ok f) :
    f.imports = p.imports ∧ p.readRest.2.imports = [] ∧
      (stream p.source)[p.readRest.2.cursor]? = some (endMark p.source.name p.source.text) := by
  obtain ⟨hpending, himports⟩ := pending_readRest_of_ok hok
  obtain ⟨hsource, hstands, _⟩ := h.readRest
  have hget := hstands.get?
  rw [hsource, hpending] at hget
  refine ⟨?_, himports, hget⟩
  unfold Parser.readRest at hok
  split at hok
  · cases hok
    rfl
  · cases hok

/-! ## Any number of attempts -/

/-- A parser after a number of attempts, whatever came of them. -/
def after (p : Parser) : Nat → Parser
  | 0 => p
  | n + 1 => (p.after n).readRest.2

/-- The imports that an attempt hands out: those of the file, if it succeeds. -/
def given (p : Parser) : List Directive :=
  match p.readRest.1 with
  | .ok f => f.imports
  | .error _ => []

/-- All imports that a number of attempts hand out, in order. -/
def handedOut (p : Parser) (n : Nat) : List Directive :=
  (List.range n).flatMap fun k => (p.after k).given

theorem Stands.after (h : p.Stands) (n : Nat) :
    (p.after n).source = p.source ∧ (p.after n).Stands := by
  induction n with
  | zero => exact ⟨rfl, h⟩
  | succ n ih =>
    obtain ⟨hsource, hstands, _⟩ := ih.2.readRest
    exact ⟨hsource.trans ih.1, hstands⟩

theorem given_append_imports (p : Parser) : p.given ++ p.readRest.2.imports = p.imports := by
  unfold given readRest
  cases file p.pending with
  | ok r => exact List.append_nil _
  | error e => rfl

/-- No import is lost and none is handed out twice. -/
theorem handedOut_append_imports (p : Parser) (n : Nat) :
    p.handedOut n ++ (p.after n).imports = p.imports := by
  induction n with
  | zero => rfl
  | succ n ih =>
    have hgiven := given_append_imports (p.after n)
    rw [handedOut, List.range_succ, List.flatMap_append, List.flatMap_singleton, List.append_assoc]
    exact (congrArg _ hgiven).trans ih

/-- After a success no import waits. -/
theorem imports_after_of_ok {m n : Nat} {f : SourceFile} (hmn : m < n)
    (hok : (p.after m).readRest.1 = .ok f) : (p.after n).imports = [] := by
  induction n, hmn using Nat.le_induction with
  | base => exact (pending_readRest_of_ok hok).2
  | succ n _ ih =>
    have hgiven := given_append_imports (p.after n)
    rw [ih] at hgiven
    exact (List.append_eq_nil_iff.1 hgiven).2

/-- A parser that is made from a source text stands at its first token. -/
theorem stands_of_ofSource (h : ofSource source = .ok p) :
    p.source = source ∧ p.Stands ∧ p.cursor = 0 ∧
      p.imports = (Directive.extract (significant source)).imports := by
  unfold ofSource at h
  split at h
  · cases h
  · cases h
    refine ⟨rfl, .of_suffix List.suffix_rfl, ?_, rfl⟩
    rw [cursor, stream_eq]
    simp

/-- The attempts of a parser that was made from a source text, as many as one likes. It always
stands at a token of its stream, the end mark being the last, and it never goes back; wherever a
parser can stand, its productions move on when they succeed and its loops end. A failed attempt
leaves it at the token of the error and keeps the imports; a successful one hands them all out. In
all, the imports are handed out once each, and each path that a directive names is among them. -/
theorem attempts_of_source (h : ofSource source = .ok p) :
    (p.cursor = 0 ∧ ∀ n, (p.after n).source = source ∧ (p.after n).Stands ∧
      (p.after n).cursor ≤ (p.after (n + 1)).cursor) ∧
    (∀ q : Parser, q.Stands → q.Productive ∧ q.LoopsEnd) ∧
    (∀ n e, (p.after n).readRest.1 = .error e →
      (p.after (n + 1)).imports = (p.after n).imports ∧
      ∃ t, (stream source)[(p.after (n + 1)).cursor]? = some t ∧
        e.spot = ⟨source, t.span, t.pos⟩ ∧
        ((∃ expected spot, e = .unexpectedEnd expected spot) ↔ t.kind = .eof) ∧
        ((∃ expected spot, e = .unexpectedToken t.kind expected spot) ↔ t.kind ≠ .eof)) ∧
    (∀ n f, (p.after n).readRest.1 = .ok f →
      f.imports = (p.after n).imports ∧ (p.after (n + 1)).imports = [] ∧
      (stream source)[(p.after (n + 1)).cursor]? = some (endMark source.name source.text)) ∧
    (∀ n, p.handedOut n ++ (p.after n).imports =
      (Directive.extract (significant source)).imports) ∧
    (∀ m n f, m < n → (p.after m).readRest.1 = .ok f →
      p.handedOut n = (Directive.extract (significant source)).imports) ∧
    ∀ d ∈ (Directive.lift .start (significant source)).directives,
      ((Directive.extract (significant source)).imports.map (·.path)).count d.path = 1 := by
  obtain ⟨hsource, hstands, hcursor, himports⟩ := stands_of_ofSource h
  have hafter : ∀ n, (p.after n).source = source ∧ (p.after n).Stands := by
    intro n
    rw [← hsource]
    exact hstands.after n
  have hall : ∀ n, p.handedOut n ++ (p.after n).imports =
      (Directive.extract (significant source)).imports := by
    intro n
    rw [handedOut_append_imports, himports]
  refine ⟨⟨hcursor, fun n => ?_⟩, fun q hq => ⟨hq.productive, hq.loopsEnd⟩, fun n e herror => ?_,
    fun n f hok => ?_, hall, fun m n f hmn hok => ?_, fun d hd => Directive.count_path_imports hd⟩
  · exact ⟨(hafter n).1, (hafter n).2, (hafter n).2.readRest.2.2⟩
  · have hfailed := (hafter n).2.readRest_error herror
    rw [(hafter n).1] at hfailed
    exact hfailed
  · have hread := (hafter n).2.readRest_ok hok
    rw [(hafter n).1] at hread
    exact hread
  · have hwhole := hall n
    rwa [imports_after_of_ok hmn hok, List.append_nil] at hwhole

/-- A struct that is cut short by another one: the first attempt fails at the second `struct`, the
second attempt begins there, succeeds, and returns the import. -/
theorem attempts_of_source_of_cut_short :
    ∃ source p, source.text = "import \"a\" struct S \x7b struct T \x7b \x7d" ∧
      ofSource source = .ok p ∧ (p.after 0).readRest.1.isOk = false ∧
      (∃ t, (stream source)[(p.after 1).cursor]? = some t ∧ t.pos.offset = 22) ∧
      (p.after 1).readRest.1.isOk = true ∧
      (p.handedOut 2).map (·.path) = ["a"] := by
  obtain ⟨source, hsource⟩ : ∃ source : SourceText,
    source = ⟨"", "import \"a\" struct S \x7b struct T \x7b \x7d"⟩ := ⟨_, rfl⟩
  have hknown : ∀ t ∈ tokens source.name source.text, t.kind ≠ .unknown := by
    rw [hsource]
    decide +kernel
  obtain ⟨p, hp⟩ : ∃ p, p = ofTokens source (significant source) := ⟨_, rfl⟩
  have hmade : ofSource source = .ok p := hp ▸ ofSource_of_known hknown
  have hfirst : (p.after 0).readRest.1 = .error (.unexpectedToken (.keyword .structKw) .fieldName
      ⟨source, ⟨22, 6⟩, ⟨"", 1, 23, 22⟩⟩) := by
    rw [hp, hsource]
    decide +kernel
  have hsecond : (p.after 1).readRest.1.isOk = true := by
    rw [hp, hsource]
    decide +kernel
  obtain ⟨f, hf⟩ : ∃ f, (p.after 1).readRest.1 = .ok f := by
    cases hread : (p.after 1).readRest.1 with
    | ok f => exact ⟨f, rfl⟩
    | error e =>
      rw [hread] at hsecond
      cases hsecond
  obtain ⟨_, _, hfailed, _, _, hwhole, _⟩ := attempts_of_source hmade
  obtain ⟨_, t, ht, hspot, _⟩ := hfailed 0 _ hfirst
  refine ⟨source, p, by rw [hsource], hmade, by rw [hfirst]; rfl, ⟨t, ht, ?_⟩, hsecond, ?_⟩
  · exact congrArg (·.pos.offset) hspot.symm
  · rw [hwhole 1 2 f (by decide) hf, hsource]
    decide +kernel

end Parser

end InterfaceLang
