import InterfaceLang.Proofs.Grammar.Productions

/-!
# Readers that look one token ahead

A reader is prompt if it decides by the tokens it takes and the next one. When it succeeds, it has
taken the leaves of a tree; when it is stuck, it has taken the beginning of one. In both cases it
would have done the same whatever stands after the token it stopped before. So a prompt reader is
stuck neither early, since what it has taken can be completed to a tree, nor late, since no tree
goes on with the token at which it is stuck.

Results:
* `Prompt`: with one lemma per combinator, as for readers that recognise trees.
* `prompt_file`: the reader of files is prompt.
-/

namespace InterfaceLang.Grammar

variable {α β δ ε : Type} [Phrase δ] [Phrase ε]

/-- A reader against the trees of a production: it stops where the next token makes it stop. -/
structure Prompt (r : Reader α) (δ : Type) [Phrase δ] : Prop where
  /-- What is taken is a tree. -/
  ok : ∀ {ts a rest}, r ts = .ok (a, rest) → ∃ d : δ, leaves d ++ rest = ts ∧
    ∀ rest', rest'.head? = rest.head? → r (leaves d ++ rest') = .ok (a, rest')
  /-- What is taken before the reader is stuck begins a tree. -/
  error : ∀ {ts e}, r ts = .error e → ∃ (taken : List Token) (d : δ), taken ++ e.rest = ts ∧
    taken <+: leaves d ∧
    ∀ rest', rest'.head? = e.rest.head? → r (taken ++ rest') = .error ⟨e.expected, rest'⟩

/-- A test that looks at the next token only. -/
def HeadOnly (first : List Token → Bool) : Prop :=
  ∀ ⦃ts ts'⦄, ts'.head? = ts.head? → first ts' = first ts

theorem head?_append_congr (ts : List Token) {rest rest' : List Token}
    (h : rest'.head? = rest.head?) : (ts ++ rest').head? = (ts ++ rest).head? := by
  rw [List.head?_append, List.head?_append, h]

theorem headOnly_startsWith (kind : TokenKind) : HeadOnly (startsWith kind) := by
  intro ts ts' h
  rw [startsWith, startsWith, h]

theorem HeadOnly.not {first : List Token → Bool} (h : HeadOnly first) :
    HeadOnly fun ts => !first ts :=
  fun _ _ heq => congrArg Bool.not (h heq)

theorem headOnly_atLayer : HeadOnly atLayer := by
  intro ts ts' h
  rw [atLayer, atLayer, headOnly_startsWith _ h, headOnly_startsWith _ h]

theorem headOnly_atBuiltIn : HeadOnly atBuiltIn := by
  intro ts ts' h
  rw [atBuiltIn, atBuiltIn, h]

theorem headOnly_isEmpty : HeadOnly List.isEmpty := by
  intro ts ts' h
  cases ts <;> cases ts' <;> simp_all

/-! ## Combinators -/

theorem manyUntil_of_error {done : List Token → Bool} {item : Reader α} {hitem : Advances item}
    {ts : List Token} {e : Stuck} (hgo : ¬done ts = true) (h : item ts = .error e) :
    manyUntil done item hitem ts = .error e := by
  unfold manyUntil
  rw [if_neg hgo]
  split <;> simp_all

theorem manyUntil_of_ok {done : List Token → Bool} {item : Reader α} {hitem : Advances item}
    {ts mid : List Token} {a : α} (hgo : ¬done ts = true) (h : item ts = .ok (a, mid)) :
    manyUntil done item hitem ts =
      match manyUntil done item hitem mid with
      | .error e => .error e
      | .ok (as, rest) => .ok (a :: as, rest) := by
  rw [manyUntil, if_neg hgo]
  split
  · simp_all
  · next hok =>
    rw [h] at hok
    cases hok
    rfl

namespace Prompt

variable {r r₁ r₂ : Reader α} {first : List Token → Bool}

/-- A reader of one token is stuck before it has taken anything. -/
theorem takeIf [Nonempty δ] {expected : Expected} {test : Token → Option α}
    (htest : ∀ t a, test t = some a → ∃ d : δ, leaves d = [t]) :
    Prompt (takeIf expected test) δ where
  ok := by
    intro ts a rest hok
    cases ts with
    | nil => cases hok
    | cons t ts =>
      rw [Grammar.takeIf] at hok
      split at hok
      · next hsome =>
        cases hok
        obtain ⟨d, hd⟩ := htest t a hsome
        refine ⟨d, by rw [hd]; rfl, fun rest' _ => ?_⟩
        rw [hd, List.singleton_append, Grammar.takeIf, hsome]
      · cases hok
  error := by
    intro ts e herror
    obtain ⟨d⟩ := ‹Nonempty δ›
    cases ts with
    | nil =>
      cases herror
      refine ⟨[], d, rfl, List.nil_prefix, fun rest' hhead => ?_⟩
      rw [List.head?_eq_none_iff.1 hhead]
      rfl
    | cons t ts =>
      rw [Grammar.takeIf] at herror
      split at herror
      · cases herror
      · next hnone =>
        cases herror
        refine ⟨[], d, rfl, List.nil_prefix, fun rest' hhead => ?_⟩
        obtain ⟨ts', rfl⟩ := List.head?_eq_some_iff.1 hhead
        rw [List.nil_append, Grammar.takeIf, hnone]

/-- Two readers in turn: the first may be stuck before the tree of the second has begun, so that
there must be such trees. -/
theorem bind [Nonempty ε] {f : α → Reader β} (h : Prompt r δ) (hf : ∀ a, Prompt (f a) ε) :
    Prompt (r >>= f) (δ × ε) where
  ok := by
    intro ts b rest hok
    rw [bind_apply] at hok
    split at hok
    · next a mid ha =>
      obtain ⟨d, rfl, hd⟩ := h.ok ha
      obtain ⟨e, rfl, he⟩ := (hf a).ok hok
      refine ⟨(d, e), by rw [leaves_pair, List.append_assoc], fun rest' hhead => ?_⟩
      rw [leaves_pair, List.append_assoc, bind_apply, hd _ (head?_append_congr _ hhead)]
      exact he rest' hhead
    · cases hok
  error := by
    intro ts e herror
    rw [bind_apply] at herror
    split at herror
    · next a mid ha =>
      obtain ⟨d, rfl, hd⟩ := h.ok ha
      obtain ⟨taken, d', rfl, hprefix, he⟩ := (hf a).error herror
      refine ⟨leaves d ++ taken, (d, d'), List.append_assoc .., ?_, fun rest' hhead => ?_⟩
      · rw [leaves_pair]
        exact (List.prefix_append_right_inj _).2 hprefix
      · rw [List.append_assoc, bind_apply, hd _ (head?_append_congr _ hhead)]
        exact he rest' hhead
    · next herr =>
      cases herror
      obtain ⟨taken, d, htaken, hprefix, he⟩ := h.error herr
      obtain ⟨d'⟩ := ‹Nonempty ε›
      refine ⟨taken, (d, d'), htaken, hprefix.trans (List.prefix_append _ _), fun rest' hhead => ?_⟩
      rw [bind_apply, he rest' hhead]

theorem map (h : Prompt r δ) (g : α → β) : Prompt (g <$> r) δ where
  ok := by
    intro ts b rest hok
    rw [map_apply] at hok
    split at hok
    · next a mid ha =>
      cases hok
      obtain ⟨d, hd, hahead⟩ := h.ok ha
      refine ⟨d, hd, fun rest' hhead => ?_⟩
      rw [map_apply, hahead rest' hhead]
    · cases hok
  error := by
    intro ts e herror
    rw [map_apply] at herror
    split at herror
    · cases herror
    · next herr =>
      cases herror
      obtain ⟨taken, d, htaken, hprefix, hahead⟩ := h.error herr
      refine ⟨taken, d, htaken, hprefix, fun rest' hhead => ?_⟩
      rw [map_apply, hahead rest' hhead]

theorem bindPure (h : Prompt r δ) (g : α → β) : Prompt (r >>= fun a => pure (g a)) δ :=
  h.map g

/-- The same trees, or some more, in another form. -/
theorem mapTree (h : Prompt r δ) (f : δ → ε) (hf : ∀ d, leaves (f d) = leaves d) :
    Prompt r ε where
  ok := by
    intro ts a rest hok
    obtain ⟨d, hd, hahead⟩ := h.ok hok
    exact ⟨f d, hf d ▸ hd, hf d ▸ hahead⟩
  error := by
    intro ts e herror
    obtain ⟨taken, d, htaken, hprefix, hahead⟩ := h.error herror
    exact ⟨taken, f d, htaken, hf d ▸ hprefix, hahead⟩

/-- A reader that looks at the next token to choose between two others. -/
theorem choice (hr : ∀ ts, r ts = if first ts then r₁ ts else r₂ ts) (hfirst : HeadOnly first)
    (h₁ : Prompt r₁ δ) (h₂ : Prompt r₂ ε) : Prompt r (δ ⊕ ε) where
  ok := by
    intro ts a rest hok
    rw [hr] at hok
    split at hok
    · next hlook =>
      obtain ⟨d, rfl, hahead⟩ := h₁.ok hok
      refine ⟨.inl d, rfl, fun rest' hhead => ?_⟩
      rw [leaves_inl, hr, hfirst (head?_append_congr _ hhead), if_pos hlook, hahead rest' hhead]
    · next hlook =>
      obtain ⟨d, rfl, hahead⟩ := h₂.ok hok
      refine ⟨.inr d, rfl, fun rest' hhead => ?_⟩
      rw [leaves_inr, hr, hfirst (head?_append_congr _ hhead), if_neg hlook, hahead rest' hhead]
  error := by
    intro ts e herror
    rw [hr] at herror
    split at herror
    · next hlook =>
      obtain ⟨taken, d, rfl, hprefix, hahead⟩ := h₁.error herror
      refine ⟨taken, .inl d, rfl, hprefix, fun rest' hhead => ?_⟩
      rw [hr, hfirst (head?_append_congr _ hhead), if_pos hlook, hahead rest' hhead]
    · next hlook =>
      obtain ⟨taken, d, rfl, hprefix, hahead⟩ := h₂.error herror
      refine ⟨taken, .inr d, rfl, hprefix, fun rest' hhead => ?_⟩
      rw [hr, hfirst (head?_append_congr _ hhead), if_neg hlook, hahead rest' hhead]

/-- A reader without trees. -/
theorem stuck [Nonempty δ] (expected : Expected) : Prompt (stuck expected : Reader α) δ where
  ok := by
    intro ts a rest hok
    cases hok
  error := by
    intro ts e herror
    obtain ⟨d⟩ := ‹Nonempty δ›
    cases herror
    exact ⟨[], d, rfl, List.nil_prefix, fun _ _ => rfl⟩

theorem guarded [Nonempty δ] {expected : Expected}
    (hr : ∀ ts, r ts = if first ts then r₁ ts else Grammar.stuck expected ts)
    (hfirst : HeadOnly first) (h : Prompt r₁ δ) : Prompt r δ := by
  refine (choice hr hfirst h (stuck expected : Prompt _ δ)).mapTree (Sum.elim id id) ?_
  rintro (d | d) <;> rfl

/-- A reader that takes nothing. -/
theorem absent (a : α) : Prompt (fun ts => .ok (a, ts) : Reader α) (Option δ) where
  ok := by
    intro ts b rest hok
    cases hok
    exact ⟨none, rfl, fun _ _ => rfl⟩
  error := by
    intro ts e herror
    cases herror

theorem optional {a : α} (hr : ∀ ts, r ts = if first ts then r₁ ts else .ok (a, ts))
    (hfirst : HeadOnly first) (h : Prompt r₁ δ) : Prompt r (Option δ) := by
  refine (choice hr hfirst h (absent a : Prompt _ (Option δ))).mapTree (Sum.elim some id) ?_
  rintro (d | d) <;> rfl

theorem manyUntil {done : List Token → Bool} (h : Prompt r δ) (hr : Advances r)
    (hdone : HeadOnly done) : Prompt (manyUntil done r hr : Reader (List α)) (List δ) where
  ok := by
    intro ts as rest hok
    fun_induction Grammar.manyUntil done r hr ts generalizing as rest with
    | case1 ts hd =>
      cases hok
      refine ⟨[], rfl, fun rest' hhead => ?_⟩
      rw [leaves_nil, List.nil_append, Grammar.manyUntil, if_pos ((hdone hhead).trans hd)]
    | case2 => cases hok
    | case3 => cases hok
    | case4 ts hd a mid ha as' rest' hmany ih =>
      cases hok
      obtain ⟨d, rfl, hitem⟩ := h.ok ha
      obtain ⟨ds, rfl, hitems⟩ := ih hmany
      refine ⟨d :: ds, by rw [leaves_cons, List.append_assoc], fun rest'' hhead => ?_⟩
      have hgo : ¬done (leaves d ++ (leaves ds ++ rest'')) = true := by
        rwa [hdone (head?_append_congr _ (head?_append_congr _ hhead))]
      rw [leaves_cons, List.append_assoc,
        manyUntil_of_ok hgo (hitem _ (head?_append_congr _ hhead)), hitems rest'' hhead]
  error := by
    intro ts e herror
    fun_induction Grammar.manyUntil done r hr ts generalizing e with
    | case1 => cases herror
    | case2 ts hd e' herr =>
      cases herror
      obtain ⟨taken, d, rfl, hprefix, hitem⟩ := h.error herr
      refine ⟨taken, [d], rfl, by simpa using hprefix, fun rest' hhead => ?_⟩
      have hgo : ¬done (taken ++ rest') = true := by
        rwa [hdone (head?_append_congr _ hhead)]
      exact manyUntil_of_error hgo (hitem rest' hhead)
    | case3 ts hd a mid ha e' hmany ih =>
      cases herror
      obtain ⟨d, rfl, hitem⟩ := h.ok ha
      obtain ⟨taken, ds, rfl, hprefix, hitems⟩ := ih hmany
      refine ⟨leaves d ++ taken, d :: ds, List.append_assoc .., ?_, fun rest' hhead => ?_⟩
      · rw [leaves_cons]
        exact (List.prefix_append_right_inj _).2 hprefix
      have hgo : ¬done (leaves d ++ (taken ++ rest')) = true := by
        rwa [hdone (head?_append_congr _ (head?_append_congr _ hhead))]
      rw [List.append_assoc, manyUntil_of_ok hgo (hitem _ (head?_append_congr _ hhead)),
        hitems rest' hhead]
    | case4 => cases herror

end Prompt

/-! ## There are trees of every production -/

instance (kind : TokenKind) : Nonempty (Leaf kind) := ⟨⟨⟨kind, [], default⟩, rfl⟩⟩

instance : Nonempty NameLeaf := ⟨⟨⟨.identifier "", [], default⟩, "", rfl⟩⟩

instance : Nonempty BuiltInLeaf := ⟨⟨⟨.builtIn .string, [], default⟩, .string, rfl⟩⟩

instance : Nonempty TypeTree := ⟨.builtIn (Classical.arbitrary BuiltInLeaf)⟩

/-! ## Productions -/

theorem prompt_tokenAs (expected : Expected) (kind : TokenKind) :
    Prompt (tokenAs expected kind) (Leaf kind) := by
  refine .takeIf fun t a h => ?_
  split at h
  · next hkind => exact ⟨⟨t, hkind⟩, rfl⟩
  · cases h

theorem prompt_token (kind : TokenKind) : Prompt (token kind) (Leaf kind) :=
  prompt_tokenAs _ _

theorem prompt_ident (expected : Expected) : Prompt (ident expected) NameLeaf := by
  refine .takeIf fun t a h => ?_
  unfold identOf? at h
  split at h
  · next name hkind => exact ⟨⟨t, name, hkind⟩, rfl⟩
  · cases h

theorem prompt_builtIn (expected : Expected) :
    Prompt (takeIf expected builtInOf?) BuiltInLeaf := by
  refine .takeIf fun t a h => ?_
  unfold builtInOf? at h
  split at h
  · next b hkind => exact ⟨⟨t, b, hkind⟩, rfl⟩
  · cases h

theorem optionally_eq (kind : TokenKind) (ts : List Token) :
    optionally kind ts =
      if startsWith kind ts then ((fun _ => true) <$> token kind) ts else .ok (false, ts) := by
  cases ts with
  | nil => rfl
  | cons t ts =>
    by_cases hkind : t.kind = kind
    · simp [optionally, startsWith, hkind, map_apply, token, tokenAs, takeIf]
    · simp [optionally, startsWith, hkind]

theorem prompt_optionally (kind : TokenKind) : Prompt (optionally kind) (Option (Leaf kind)) :=
  .optional (optionally_eq kind) (headOnly_startsWith kind) ((prompt_token kind).map _)

theorem prompt_qualifiedName (expected : Expected) :
    Prompt (qualifiedName expected) DottedTree := by
  have hdot : Prompt dotName (Leaf (.punct .dot) × NameLeaf) :=
    (prompt_token _).bind fun _ => prompt_ident _
  exact (prompt_ident _).bind fun _ =>
    (hdot.manyUntil _ (headOnly_startsWith _).not).bindPure _

theorem prompt_layer : Prompt layer (KeyTree ⊕ BracketsTree) := by
  have hmap : Prompt mapLayer KeyTree :=
    (prompt_token _).bind fun _ => (prompt_token _).bind fun _ =>
      (prompt_tokenAs _ _).bind fun _ => (prompt_token _).bindPure _
  have harray : Prompt arrayLayer BracketsTree :=
    (prompt_token _).bind fun _ => (prompt_token _).bindPure _
  exact .choice layer_eq (headOnly_startsWith _) hmap harray

theorem prompt_leafType : Prompt leafType (BuiltInLeaf ⊕ DottedTree) :=
  .choice leafType_eq headOnly_atBuiltIn ((prompt_builtIn _).map _) ((prompt_qualifiedName _).map _)

theorem prompt_typeExpr : Prompt typeExpr TypeTree := by
  have h : Prompt typeExpr (List (KeyTree ⊕ BracketsTree) × (BuiltInLeaf ⊕ DottedTree)) :=
    (prompt_layer.manyUntil _ headOnly_atLayer.not).bind fun _ => prompt_leafType.bindPure _
  refine h.mapTree TypeTree.layeredEquiv.symm fun d => ?_
  rw [← TypeTree.leaves_layered]
  exact congrArg leaves (TypeTree.layeredEquiv.apply_symm_apply d)

theorem prompt_param : Prompt param ParamTree :=
  (prompt_ident _).bind fun _ => prompt_typeExpr.bindPure _

theorem prompt_params : Prompt params ParamsTree := by
  have hcomma : Prompt commaParam (Leaf (.punct .comma) × ParamTree) :=
    (prompt_token _).bind fun _ => prompt_param
  exact .optional params_eq (headOnly_startsWith _).not
    (prompt_param.bind fun _ => (hcomma.manyUntil _ (headOnly_startsWith _).not).bindPure _)

theorem prompt_method : Prompt method MethodTree :=
  (prompt_ident _).bind fun _ => (prompt_token _).bind fun _ => prompt_params.bind fun _ =>
    (prompt_token _).bind fun _ => prompt_typeExpr.bind fun _ => (prompt_optionally _).bindPure _

theorem prompt_field : Prompt field FieldTree :=
  (prompt_ident _).bind fun _ => prompt_typeExpr.bind fun _ => (prompt_optionally _).bindPure _

theorem prompt_body {member : Reader α} (h : Prompt member δ) (hmember : Advances member) :
    Prompt (body member hmember) (BodyTree δ) :=
  (prompt_token _).bind fun _ => (h.manyUntil _ (headOnly_startsWith _)).bind fun _ =>
    (prompt_token _).bindPure _

theorem prompt_namespaceDecl : Prompt namespaceDecl NamespaceTree :=
  (prompt_token _).bind fun _ => (prompt_ident _).bindPure _

theorem prompt_interfaceDecl : Prompt interfaceDecl InterfaceTree :=
  (prompt_token _).bind fun _ => (prompt_ident _).bind fun _ =>
    (prompt_body prompt_method _).bindPure _

theorem prompt_parentName : Prompt parentName ParentTree :=
  .optional parentName_eq (headOnly_startsWith _)
    ((prompt_token _).bind fun _ => (prompt_qualifiedName _).map _)

theorem prompt_structDecl : Prompt structDecl StructTree :=
  (prompt_token _).bind fun _ => (prompt_ident _).bind fun _ => prompt_parentName.bind fun _ =>
    (prompt_body prompt_field _).bindPure _

theorem prompt_enumDecl : Prompt enumDecl EnumTree :=
  (prompt_token _).bind fun _ => (prompt_ident _).bind fun _ =>
    (prompt_body (prompt_ident _) _).bindPure _

theorem prompt_element : Prompt element ElementTree := by
  have h : Prompt element (NamespaceTree ⊕ (InterfaceTree ⊕ (StructTree ⊕ EnumTree))) :=
    .choice element_eq (headOnly_startsWith _) (prompt_namespaceDecl.map _)
      (.choice (fun _ => rfl) (headOnly_startsWith _) (prompt_interfaceDecl.map _)
      (.choice (fun _ => rfl) (headOnly_startsWith _) (prompt_structDecl.map _)
      (.guarded (fun _ => rfl) (headOnly_startsWith _) (prompt_enumDecl.map _))))
  refine h.mapTree ElementTree.sumEquiv.symm ?_
  rintro (d | d | d | d) <;> rfl

theorem prompt_file : Prompt file SourceTree :=
  prompt_element.manyUntil _ headOnly_isEmpty

end InterfaceLang.Grammar
