import InterfaceLang.Parser

/-!
# Names are identifiers

The names in the tree of a file are those of its identifier tokens, and the lexer makes such a
token only of a word that follows the identifier rule.

Results:
* `isIdentifier_of_mem_tokens`: the name of an identifier token is an identifier.
* `Yields`: what holds of the names in a stream holds of the names in what a reader gives. One
  lemma per combinator and production carries this up to a whole file.
* `names_of_parse`: every name that a parsed file declares is an identifier.
-/

namespace InterfaceLang

namespace Lexer

theorem isIdentifier_ofList_cons {c : Char} (cs : List Char) (hc : Name.isLetter c = true) :
    Name.isIdentifier (String.ofList (c :: cs.takeWhile Name.isWordChar)) = true := by
  simp [Name.isIdentifier, Name.isWord, hc]

theorem eq_of_wordKind {word name : String} (h : wordKind word = .identifier name) :
    word = name := by
  unfold wordKind at h
  split at h
  · cases h
  · split at h <;> cases h
    rfl

theorem isIdentifier_of_scan {c : Char} {cs : List Char} {name : String}
    (h : (scan c cs).kind = .identifier name) : Name.isIdentifier name = true := by
  unfold scan at h
  split at h
  · unfold scanBracket at h
    split at h <;> cases h
  split at h
  · unfold scanSlash at h
    split at h
    · cases h
    · split at h <;> cases h
  split at h
  · unfold scanQuote at h
    split at h <;> cases h
  split at h
  · cases h
  split at h
  · next hc =>
    rw [← eq_of_wordKind h]
    exact isIdentifier_ofList_cons cs hc
  split at h <;> cases h

theorem isIdentifier_of_mem_tokens {file source name : String} {t : Token}
    (ht : t ∈ tokens file source) (h : t.kind = .identifier name) :
    Name.isIdentifier name = true := by
  have hmem : ∀ pos cs, t ∈ tokensFrom pos cs → Name.isIdentifier name = true := by
    intro pos cs
    fun_induction tokensFrom pos cs with
    | case1 => simp
    | case2 pos c cs ih =>
      intro ht
      rcases List.mem_cons.1 ht with rfl | ht
      · exact isIdentifier_of_scan h
      · exact ih ht
  exact hmem _ _ ht

end Lexer

/-- The names that an element declares, its own and those of its members, satisfy `P`. -/
def Element.NamesSatisfy (P : String → Prop) : Element → Prop
  | namespaceDecl d => P d.name.name
  | interfaceDecl d =>
    P d.name.name ∧ ∀ m ∈ d.methods, P m.name.name ∧ ∀ p ∈ m.params, P p.name.name
  | structDecl d => P d.name.name ∧ ∀ f ∈ d.fields, P f.name.name
  | enumDecl d => P d.name.name ∧ ∀ v ∈ d.values, P v.name

namespace Grammar

variable {α β : Type} {P : String → Prop}

/-- The names of the identifier tokens of a stream satisfy `P`. -/
def StreamNames (P : String → Prop) (ts : List Token) : Prop :=
  ∀ t ∈ ts, ∀ name, t.kind = .identifier name → P name

/-- From a stream whose names satisfy `P` a reader gives only values that satisfy `Q`. -/
def Yields (P : String → Prop) (r : Reader α) (Q : α → Prop) : Prop :=
  ∀ ts a rest, StreamNames P ts → r ts = .ok (a, rest) → Q a

theorem StreamNames.of_suffix {ts rest : List Token} (h : StreamNames P ts) (hs : rest <:+ ts) :
    StreamNames P rest :=
  fun t ht => h t (hs.subset ht)

/-! ## Combinators -/

theorem yields_true (r : Reader α) : Yields P r fun _ => True :=
  fun _ _ _ _ _ => trivial

theorem yields_pure {Q : α → Prop} {a : α} (h : Q a) : Yields P (pure a : Reader α) Q := by
  intro ts b rest _ hr
  cases hr
  exact h

theorem yields_stuck (expected : Expected) (Q : α → Prop) :
    Yields P (stuck expected : Reader α) Q := by
  intro ts a rest _ hr
  cases hr

theorem Yields.bind {r : Reader α} {f : α → Reader β} {Q : α → Prop} {R : β → Prop}
    (h : Yields P r Q) (hr : Reads r) (hf : ∀ a, Q a → Yields P (f a) R) :
    Yields P (r >>= f) R := by
  intro ts b rest hts hok
  rw [bind_apply] at hok
  split at hok
  · next a mid ha =>
    exact hf a (h ts a mid hts ha) mid b rest (hts.of_suffix (hr.suffix_of_ok ha)) hok
  · cases hok

theorem Yields.map {r : Reader α} {Q : α → Prop} {R : β → Prop} (h : Yields P r Q) (k : α → β)
    (hk : ∀ a, Q a → R (k a)) : Yields P (k <$> r) R := by
  intro ts b rest hts hok
  rw [map_apply] at hok
  split at hok
  · next a mid ha =>
    cases hok
    exact hk a (h ts a rest hts ha)
  · cases hok

theorem Yields.manyUntil {item : Reader α} {Q : α → Prop} (h : Yields P item Q)
    (done : List Token → Bool) (hitem : Advances item) :
    Yields P (manyUntil done item hitem : Reader (List α)) fun as => ∀ a ∈ as, Q a := by
  intro ts as rest hts hok
  fun_induction Grammar.manyUntil done item hitem ts generalizing as rest with
  | case1 ts hd =>
    cases hok
    simp
  | case2 => cases hok
  | case3 => cases hok
  | case4 ts hd a mid ha as' rest' hmany ih =>
    cases hok
    refine List.forall_mem_cons.2 ⟨h ts a mid hts ha, ?_⟩
    exact ih _ _ (hts.of_suffix (hitem.suffix_of_ok ha)) hmany

/-! ## Productions -/

theorem yields_ident (expected : Expected) : Yields P (ident expected) fun i => P i.name := by
  intro ts i rest hts hok
  cases ts with
  | nil => cases hok
  | cons t ts =>
    unfold ident takeIf at hok
    cases hk : t.kind with
    | identifier name =>
      simp only [identOf?, hk] at hok
      cases hok
      exact hts t List.mem_cons_self name hk
    | _ =>
      simp only [identOf?, hk] at hok
      cases hok

theorem yields_body {member : Reader α} {Q : α → Prop} (h : Yields P member Q)
    (hm : Advances member) : Yields P (body member hm) fun b => ∀ a ∈ b.2, Q a :=
  (yields_true _).bind (advances_token _).toReads fun _ _ =>
    (h.manyUntil _ hm).bind (reads_manyUntil _ _ _) fun _ hmembers =>
    (yields_true _).bind (advances_token _).toReads fun _ _ => yields_pure hmembers

theorem yields_param : Yields P param fun p => P p.name.name :=
  (yields_ident _).bind (advances_ident _).toReads fun _ hname =>
    (yields_true _).bind advances_typeExpr.toReads fun _ _ => yields_pure hname

theorem yields_commaParam : Yields P commaParam fun p => P p.name.name :=
  (yields_true _).bind (advances_token _).toReads fun _ _ => yields_param

theorem yields_params : Yields P params fun ps => ∀ p ∈ ps, P p.name.name :=
  (yields_true _).bind reads_peek fun k _ => by
    split
    · exact yields_pure (by simp)
    · exact yields_param.bind advances_param.toReads fun _ hfirst =>
        (yields_commaParam.manyUntil _ _).bind (reads_manyUntil _ _ _) fun _ hmore =>
        yields_pure (List.forall_mem_cons.2 ⟨hfirst, hmore⟩)

theorem yields_method :
    Yields P method fun m => P m.name.name ∧ ∀ p ∈ m.params, P p.name.name :=
  (yields_ident _).bind (advances_ident _).toReads fun _ hname =>
    (yields_true _).bind (advances_token _).toReads fun _ _ =>
    yields_params.bind reads_params fun _ hparams =>
    (yields_true _).bind (advances_token _).toReads fun _ _ =>
    (yields_true _).bind advances_typeExpr.toReads fun _ _ =>
    (yields_true _).bind (reads_optionally _) fun _ _ => yields_pure ⟨hname, hparams⟩

theorem yields_field : Yields P field fun f => P f.name.name :=
  (yields_ident _).bind (advances_ident _).toReads fun _ hname =>
    (yields_true _).bind advances_typeExpr.toReads fun _ _ =>
    (yields_true _).bind (reads_optionally _) fun _ _ => yields_pure hname

theorem yields_namespaceDecl : Yields P namespaceDecl fun d => P d.name.name :=
  (yields_true _).bind (advances_token _).toReads fun _ _ =>
    (yields_ident _).bind (advances_ident _).toReads fun _ hname => yields_pure hname

theorem yields_interfaceDecl : Yields P interfaceDecl fun d =>
    P d.name.name ∧ ∀ m ∈ d.methods, P m.name.name ∧ ∀ p ∈ m.params, P p.name.name :=
  (yields_true _).bind (advances_token _).toReads fun _ _ =>
    (yields_ident _).bind (advances_ident _).toReads fun _ hname =>
    (yields_body yields_method _).bind (advances_body _ _).toReads fun _ hmethods =>
    yields_pure ⟨hname, hmethods⟩

theorem yields_structDecl : Yields P structDecl fun d =>
    P d.name.name ∧ ∀ f ∈ d.fields, P f.name.name :=
  (yields_true _).bind (advances_token _).toReads fun _ _ =>
    (yields_ident _).bind (advances_ident _).toReads fun _ hname =>
    (yields_true _).bind reads_parentName fun _ _ =>
    (yields_body yields_field _).bind (advances_body _ _).toReads fun _ hfields =>
    yields_pure ⟨hname, hfields⟩

theorem yields_enumDecl : Yields P enumDecl fun d =>
    P d.name.name ∧ ∀ v ∈ d.values, P v.name :=
  (yields_true _).bind (advances_token _).toReads fun _ _ =>
    (yields_ident _).bind (advances_ident _).toReads fun _ hname =>
    (yields_body (yields_ident _) _).bind (advances_body _ _).toReads fun _ hvalues =>
    yields_pure ⟨hname, hvalues⟩

theorem yields_element : Yields P element (Element.NamesSatisfy P) :=
  (yields_true _).bind reads_peek fun k _ => by
    split
    · exact yields_namespaceDecl.map _ fun _ h => h
    · exact yields_interfaceDecl.map _ fun _ h => h
    · exact yields_structDecl.map _ fun _ h => h
    · exact yields_enumDecl.map _ fun _ h => h
    · exact yields_stuck _ _

theorem yields_file : Yields P file fun es => ∀ e ∈ es, e.NamesSatisfy P :=
  yields_element.manyUntil _ _

end Grammar

/-! ## Files -/

/-- Every name that a parsed file declares follows the identifier rule. -/
theorem Parser.names_of_parse {source : SourceText} {f : SourceFile}
    (h : Parser.parse source = .ok f) :
    ∀ e ∈ f.elements, e.NamesSatisfy fun name => Name.isIdentifier name = true := by
  unfold Parser.parse at h
  cases hp : Parser.ofSource source with
  | error e =>
    rw [hp] at h
    cases h
  | ok p =>
    rw [hp] at h
    have hpending : p.pending = (Directive.extract (Parser.significant source)).kept := by
      unfold Parser.ofSource at hp
      split at hp <;> cases hp
      rfl
    have hnames : Grammar.StreamNames (fun name => Name.isIdentifier name = true) p.pending := by
      intro t ht name hk
      rw [hpending] at ht
      have ht := (Directive.kept_sublist _ _).subset ht
      exact Lexer.isIdentifier_of_mem_tokens (List.mem_filter.1 ht).1 hk
    change p.readRest.1 = .ok f at h
    unfold Parser.readRest at h
    split at h
    · next hfile =>
      cases h
      exact Grammar.yields_file _ _ _ hnames hfile
    · cases h

end InterfaceLang
