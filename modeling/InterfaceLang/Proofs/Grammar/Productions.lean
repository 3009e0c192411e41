import InterfaceLang.Grammar.Productions
import InterfaceLang.Proofs.Grammar.Recognition

/-!
# The readers recognise the grammar

Each reader of the grammar recognises the trees of its production. The follow conditions are those
of greedy reading: a dotted name, and so a type, ends before anything but a dot; a member ends
before anything but a dot or an optional mark; parameters end before a closing parenthesis.

Results:
* `recognises_typeExpr`: the reader of types, which takes all layers and then the leaf, recognises
  the recursive production for types.
* `recognises_file`: the reader of files recognises the production for files.
-/

namespace InterfaceLang.Grammar

variable {α δ : Type} [Phrase δ]

/-! ## Leaves -/

theorem startsWith_eq_false_iff {kind : TokenKind} {ts : List Token} :
    startsWith kind ts = false ↔ NextNot [kind] ts := by
  cases ts <;> simp [startsWith]

/-- A tree whose first leaf is of one kind begins with this kind and no other. -/
theorem startsWith_pair {kind : TokenKind} (kind' : TokenKind)
    (d : Leaf kind × δ) (rest : List Token) :
    startsWith kind' (leaves d ++ rest) = decide (kind = kind') := by
  obtain ⟨keyword, _⟩ := d
  simp [startsWith, keyword.kind_eq]

theorem recognises_takeIf {expected : Expected} {test : Token → Option α} {value : δ → α}
    (token : δ → Token) (hleaves : ∀ d, leaves d = [token d])
    (htest : ∀ d, test (token d) = some (value d))
    (hof : ∀ t a, test t = some a → ∃ d, token d = t ∧ value d = a)
    (hinj : Function.Injective token) :
    Recognises (takeIf expected test) value fun _ => True where
  sound := by
    intro ts a rest hok
    cases ts with
    | nil => cases hok
    | cons t ts =>
      rw [takeIf] at hok
      split at hok
      · next hsome =>
        cases hok
        obtain ⟨d, rfl, rfl⟩ := hof t _ hsome
        exact ⟨d, by rw [hleaves]; rfl, rfl⟩
      · cases hok
  complete := by
    intro d rest _
    rw [hleaves, List.singleton_append, takeIf, htest]
  unique := by
    intro d d' rest rest' _ _ heq
    rw [hleaves, hleaves] at heq
    exact hinj (List.cons.inj heq).1

theorem recognises_tokenAs (expected : Expected) (kind : TokenKind) :
    Recognises (tokenAs expected kind) (Leaf.token : Leaf kind → Token) fun _ => True := by
  refine recognises_takeIf Leaf.token (fun _ => rfl) (fun l => if_pos l.kind_eq) ?_ ?_
  · intro t u h
    split at h
    · next hkind =>
      cases h
      exact ⟨⟨t, hkind⟩, rfl, rfl⟩
    · cases h
  · rintro ⟨t, _⟩ ⟨u, _⟩ rfl
    rfl

theorem recognises_token (kind : TokenKind) :
    Recognises (token kind) (Leaf.token : Leaf kind → Token) fun _ => True :=
  recognises_tokenAs _ _

theorem recognises_ident (expected : Expected) :
    Recognises (ident expected) NameLeaf.ident fun _ => True := by
  refine recognises_takeIf NameLeaf.token (fun _ => rfl) ?_ ?_ ?_
  · intro n
    rw [identOf?, n.kind_eq]
    rfl
  · intro t i h
    unfold identOf? at h
    split at h
    · next name hkind =>
      cases h
      exact ⟨⟨t, name, hkind⟩, rfl, rfl⟩
    · cases h
  · rintro ⟨t, name, hname⟩ ⟨u, other, hother⟩ rfl
    rw [hname] at hother
    cases hother
    rfl

theorem recognises_builtIn (expected : Expected) :
    Recognises (takeIf expected builtInOf?) BuiltInLeaf.builtIn fun _ => True := by
  refine recognises_takeIf BuiltInLeaf.token (fun _ => rfl) ?_ ?_ ?_
  · intro b
    rw [builtInOf?, b.kind_eq]
  · intro t b h
    unfold builtInOf? at h
    split at h
    · next hkind =>
      cases h
      exact ⟨⟨t, b, hkind⟩, rfl, rfl⟩
    · cases h
  · rintro ⟨t, b, hb⟩ ⟨u, c, hc⟩ rfl
    rw [hb] at hc
    cases hc
    rfl

/-- A mark that may be missing, where it does not come next again. -/
theorem recognises_optionally (kind : TokenKind) :
    Recognises (optionally kind) (Option.isSome : Option (Leaf kind) → Bool) (NextNot [kind]) where
  sound := by
    intro ts a rest hok
    cases ts with
    | nil =>
      cases hok
      exact ⟨none, rfl, rfl⟩
    | cons t ts =>
      rw [optionally] at hok
      split at hok
      · next hkind =>
        cases hok
        exact ⟨some ⟨t, hkind⟩, rfl, rfl⟩
      · cases hok
        exact ⟨none, rfl, rfl⟩
  complete := by
    rintro (_ | l) rest hrest
    · cases rest with
      | nil => rfl
      | cons t rest =>
        rw [nextNot_cons, List.mem_singleton] at hrest
        rw [leaves_none, List.nil_append, optionally, if_neg hrest]
        rfl
    · rw [leaves_some, leaves_leaf, List.singleton_append, optionally, if_pos l.kind_eq]
      rfl
  unique := by
    rintro (_ | l) (_ | l') rest rest' hrest hrest' heq
    · rfl
    · rw [leaves_none, List.nil_append, leaves_some, leaves_leaf, List.singleton_append] at heq
      rw [heq, nextNot_cons, l'.kind_eq] at hrest
      exact absurd List.mem_cons_self hrest
    · rw [leaves_none, List.nil_append, leaves_some, leaves_leaf, List.singleton_append] at heq
      rw [← heq, nextNot_cons, l.kind_eq] at hrest'
      exact absurd List.mem_cons_self hrest'
    · rw [(recognises_token kind).unique trivial trivial heq]

/-! ## Names -/

theorem recognises_dotName : Recognises dotName
    (fun d : Leaf (.punct .dot) × NameLeaf => d.2.ident) fun _ => True :=
  (recognises_token _).bind (fun _ => recognises_ident _) fun _ _ _ => trivial

theorem recognises_qualifiedName (expected : Expected) :
    Recognises (qualifiedName expected) DottedTree.ident (NextNot [.punct .dot]) := by
  have hparts : Recognises
      (manyUntil (fun ts => !startsWith (.punct .dot) ts) dotName advances_dotName)
      (List.map fun d : Leaf (.punct .dot) × NameLeaf => d.2.ident) (NextNot [.punct .dot]) := by
    refine recognises_dotName.manyUntil _ ?_ (fun _ _ => trivial) ?_
    · intro d rest
      simp [startsWith_pair]
    · intro rest hrest
      exact ⟨by rw [startsWith_eq_false_iff.2 hrest]; rfl, trivial⟩
  have h := (recognises_ident expected).bind (fun first => hparts.bindPure fun parts =>
    (⟨".".intercalate (first.name :: parts.map (·.name)), first.pos⟩ : Ident)) fun _ _ _ => trivial
  refine h.congr ?_
  rintro ⟨first, more⟩
  simp [DottedTree.ident, NameLeaf.ident, Function.comp_def]

/-! ## Types

A type is written as its layers and then its leaf. -/

/-- The layers of a type and its leaf. -/
def TypeTree.layered : TypeTree → List (KeyTree ⊕ BracketsTree) × (BuiltInLeaf ⊕ DottedTree)
  | builtIn b => ([], .inl b)
  | array brackets element => (.inr brackets :: element.layered.1, element.layered.2)
  | mapOf key value => (.inl key :: value.layered.1, value.layered.2)
  | named name => ([], .inr name)

/-- The type with the given layers and leaf. -/
def TypeTree.ofLayered (leaf : BuiltInLeaf ⊕ DottedTree) : List (KeyTree ⊕ BracketsTree) → TypeTree
  | [] => leaf.elim builtIn named
  | .inl key :: layers => mapOf key (ofLayered leaf layers)
  | .inr brackets :: layers => array brackets (ofLayered leaf layers)

/-- A type tree is its layers and its leaf. -/
def TypeTree.layeredEquiv :
    TypeTree ≃ List (KeyTree ⊕ BracketsTree) × (BuiltInLeaf ⊕ DottedTree) where
  toFun := layered
  invFun p := ofLayered p.2 p.1
  left_inv d := by
    induction d with
    | builtIn => rfl
    | array brackets element ih => exact congrArg (array brackets) ih
    | mapOf key value ih => exact congrArg (mapOf key) ih
    | named => rfl
  right_inv p := by
    obtain ⟨layers, leaf⟩ := p
    induction layers with
    | nil => cases leaf <;> rfl
    | cons layer layers ih =>
      obtain ⟨h₁, h₂⟩ := Prod.mk.inj ih
      cases layer <;> simp [ofLayered, layered, h₁, h₂]

theorem TypeTree.leaves_layered (d : TypeTree) : Phrase.leaves d.layered = Phrase.leaves d := by
  induction d with
  | builtIn => rfl
  | array brackets element ih =>
    rw [leaves_array, ← ih]
    exact List.append_assoc _ _ _
  | mapOf key value ih =>
    rw [leaves_mapOf, ← ih]
    exact List.append_assoc _ _ _
  | named => rfl

theorem recognises_arrayLayer :
    Recognises arrayLayer (fun _ : BracketsTree => Layer.array) fun _ => True :=
  (recognises_token _).bind (fun _ => (recognises_token _).bindPure fun _ => Layer.array)
    fun _ _ _ => trivial

theorem recognises_mapLayer : Recognises mapLayer (fun _ : KeyTree => Layer.mapOf) fun _ => True :=
  (recognises_token _).bind (fun _ => (recognises_token _).bind (fun _ =>
    (recognises_tokenAs _ _).bind (fun _ => (recognises_token _).bindPure fun _ => Layer.mapOf)
    fun _ _ _ => trivial) fun _ _ _ => trivial) fun _ _ _ => trivial

theorem layer_eq (ts : List Token) :
    layer ts = if startsWith (.keyword .mapKw) ts then mapLayer ts else arrayLayer ts := by
  unfold layer
  rw [bind_apply]
  cases ts with
  | nil => rfl
  | cons t ts =>
    by_cases hkind : t.kind = .keyword .mapKw
    · simp [peek, startsWith, hkind]
    · simp [peek, startsWith, hkind]

theorem recognises_layer : Recognises layer
    (Sum.elim (fun _ : KeyTree => Layer.mapOf) fun _ : BracketsTree => Layer.array)
    fun _ => True := by
  refine .choice layer_eq recognises_mapLayer recognises_arrayLayer ?_ ?_
  · exact fun d rest => startsWith_pair _ d rest
  · exact fun d rest _ => startsWith_pair _ d rest

/-- Whether the word for a built-in type comes next. -/
def atBuiltIn (ts : List Token) : Bool :=
  ts.head?.any fun t => (builtInOf? t).isSome

theorem leafType_eq (ts : List Token) :
    leafType ts =
      if atBuiltIn ts then (TypeExpr.builtIn <$> takeIf .type builtInOf?) ts
      else ((fun name => TypeExpr.named ⟨name.name, name.pos⟩) <$> qualifiedName .type) ts := by
  unfold leafType
  rw [bind_apply]
  cases ts with
  | nil => rfl
  | cons t ts => cases hkind : t.kind <;> simp [peek, atBuiltIn, builtInOf?, hkind]

theorem recognises_leafType : Recognises leafType
    (Sum.elim (fun b : BuiltInLeaf => TypeExpr.builtIn b.builtIn) fun name : DottedTree =>
      TypeExpr.named ⟨(DottedTree.ident name).name, (DottedTree.ident name).pos⟩)
    (NextNot [.punct .dot]) := by
  refine .choice leafType_eq (((recognises_builtIn _).map _).mono fun _ _ => trivial)
    ((recognises_qualifiedName _).map _) ?_ ?_
  · intro b rest
    simp [atBuiltIn, builtInOf?, b.kind_eq]
  · rintro ⟨first, _⟩ rest _
    simp [atBuiltIn, builtInOf?, first.kind_eq]

theorem foldr_wrap_layered (d : TypeTree) :
    (d.layered.1.map (Sum.elim (fun _ => Layer.mapOf) fun _ => Layer.array)).foldr Layer.wrap
      (d.layered.2.elim (fun b => TypeExpr.builtIn b.builtIn) fun name =>
        TypeExpr.named ⟨(DottedTree.ident name).name, (DottedTree.ident name).pos⟩) = d.type := by
  induction d with
  | builtIn => rfl
  | array brackets element ih => exact congrArg TypeExpr.array ih
  | mapOf key value ih => exact congrArg TypeExpr.mapOf ih
  | named => rfl

theorem recognises_typeExpr : Recognises typeExpr TypeTree.type (NextNot [.punct .dot]) := by
  have hlayers : Recognises (manyUntil (fun ts => !atLayer ts) layer advances_layer)
      (List.map (Sum.elim (fun _ : KeyTree => Layer.mapOf) fun _ : BracketsTree => Layer.array))
      fun rest => atLayer rest = false := by
    refine recognises_layer.manyUntil _ ?_ (fun _ _ => trivial) ?_
    · rintro (⟨keyword, _⟩ | ⟨bracket, _⟩) rest
      · simp [atLayer, startsWith, keyword.kind_eq]
      · simp [atLayer, startsWith, bracket.kind_eq]
    · intro rest hrest
      exact ⟨by rw [hrest]; rfl, trivial⟩
  have h := hlayers.bind
    (fun layers => recognises_leafType.bindPure fun leaf => layers.foldr Layer.wrap leaf) <| by
      rintro (b | ⟨first, _⟩) rest _
      · simp [atLayer, startsWith, b.kind_eq]
      · simp [atLayer, startsWith, first.kind_eq]
  exact (h.ofEquiv TypeTree.layeredEquiv TypeTree.leaves_layered).congr foldr_wrap_layered

/-! ## Members -/

theorem recognises_param : Recognises param ParamTree.decl (NextNot [.punct .dot]) :=
  (recognises_ident _).bind (fun name => recognises_typeExpr.bindPure fun type =>
    (⟨name, type⟩ : ParamDecl)) fun _ _ _ => trivial

theorem recognises_commaParam : Recognises commaParam
    (fun d : Leaf (.punct .comma) × ParamTree => ParamTree.decl d.2) (NextNot [.punct .dot]) :=
  (recognises_token _).bind (fun _ => recognises_param) fun _ _ _ => trivial

theorem params_eq (ts : List Token) :
    params ts =
      if !startsWith (.punct .rparen) ts then
        (do
          let first ← param
          let more ← manyUntil (fun ts => !startsWith (.punct .comma) ts) commaParam
            advances_commaParam
          pure (first :: more) : Reader (List ParamDecl)) ts
      else .ok ([], ts) := by
  unfold params
  rw [bind_apply]
  cases ts with
  | nil => rfl
  | cons t ts =>
    by_cases hkind : t.kind = .punct .rparen
    · simp [peek, startsWith, hkind]
      rfl
    · simp [peek, startsWith, hkind]

theorem recognises_params : Recognises params ParamsTree.decls
    fun rest => startsWith (.punct .rparen) rest = true := by
  have hmore : Recognises
      (manyUntil (fun ts => !startsWith (.punct .comma) ts) commaParam advances_commaParam)
      (List.map fun d : Leaf (.punct .comma) × ParamTree => ParamTree.decl d.2)
      (NextNot [.punct .comma, .punct .dot]) := by
    refine recognises_commaParam.manyUntil _ ?_ ?_ ?_
    · intro d rest
      simp [startsWith_pair]
    · rintro ⟨comma, _⟩ rest
      simp [comma.kind_eq]
    · intro rest hrest
      refine ⟨?_, hrest.mono (by simp)⟩
      rw [startsWith_eq_false_iff.2 (hrest.mono (by simp))]
      rfl
  have hsome := recognises_param.bind (fun first => hmore.bindPure fun more => first :: more) <| by
    intro ds rest hrest
    refine Recognises.follow_items ?_ ds (hrest.mono (by simp))
    rintro ⟨comma, _⟩ rest
    simp [comma.kind_eq]
  refine (Recognises.optional params_eq hsome ?_ ?_).congr ?_
  · rintro ⟨⟨name, _⟩, _⟩ rest
    simp [startsWith, name.kind_eq]
  · intro rest hrest
    cases rest with
    | nil => cases hrest
    | cons t rest =>
      have hkind : t.kind = .punct .rparen := by simpa [startsWith] using hrest
      simp [startsWith, hkind]
  · rintro (_ | ⟨first, more⟩) <;> rfl

/-- A type may be followed by an optional mark. -/
theorem nextNot_dot_mark (mark : Option (Leaf .optionalMark)) {rest : List Token}
    (hrest : NextNot [.punct .dot, .optionalMark] rest) :
    NextNot [.punct .dot] (leaves mark ++ rest) := by
  cases mark with
  | none => exact hrest.mono (by simp)
  | some l => simp [l.kind_eq]

theorem recognises_mark : Recognises (optionally .optionalMark)
    (Option.isSome : Option (Leaf .optionalMark) → Bool) (NextNot [.punct .dot, .optionalMark]) :=
  (recognises_optionally _).mono fun _ hrest => hrest.mono (by simp)

theorem recognises_method :
    Recognises method MethodTree.decl (NextNot [.punct .dot, .optionalMark]) := by
  refine (recognises_ident _).bind (fun name => (recognises_token _).bind (fun _ =>
    recognises_params.bind (fun params => (recognises_token _).bind (fun _ =>
    recognises_typeExpr.bind (fun returns => recognises_mark.bindPure fun optional =>
    (⟨name, params, returns, optional⟩ : MethodDecl)) ?_) ?_) ?_) ?_) ?_
  · exact fun mark rest hrest => nextNot_dot_mark mark hrest
  · exact fun _ _ _ => trivial
  · intro d rest _
    simp [startsWith_pair]
  · exact fun _ _ _ => trivial
  · exact fun _ _ _ => trivial

theorem recognises_field :
    Recognises field FieldTree.decl (NextNot [.punct .dot, .optionalMark]) :=
  (recognises_ident _).bind (fun name => recognises_typeExpr.bind (fun type =>
    recognises_mark.bindPure fun optional => (⟨name, type, optional⟩ : FieldDecl))
    fun mark _ hrest => nextNot_dot_mark mark hrest) fun _ _ _ => trivial

/-! ## Declarations -/

/-- A body recognises its members up to the closing brace. Every member begins with a name, which
is neither that brace nor anything that could go on a member before it. -/
theorem recognises_body {member : Reader α} {value : δ → α} {follow : List Token → Prop}
    (h : Recognises member value follow) (hmember : Advances member)
    (hname : ∀ d : δ, ∃ (n : NameLeaf) (ts : List Token), leaves d = n.token :: ts)
    (hfollow : ∀ t rest, (∃ name, t.kind = .identifier name) ∨ t.kind = .punct .rbrace →
      follow (t :: rest)) :
    Recognises (body member hmember)
      (fun d : BodyTree δ => (d.1.token.pos.line, d.2.1.map value)) fun _ => True := by
  have hmembers : Recognises (manyUntil (startsWith (.punct .rbrace)) member hmember)
      (List.map value) fun rest => startsWith (.punct .rbrace) rest = true := by
    refine h.manyUntil _ ?_ ?_ ?_
    · intro d rest
      obtain ⟨n, ts, hd⟩ := hname d
      simp [hd, startsWith, n.kind_eq]
    · intro d rest
      obtain ⟨n, ts, hd⟩ := hname d
      rw [hd]
      exact hfollow _ _ (.inl ⟨n.name, n.kind_eq⟩)
    · intro rest hrest
      refine ⟨hrest, ?_⟩
      cases rest with
      | nil => cases hrest
      | cons t rest => exact hfollow t rest (.inr (by simpa [startsWith] using hrest))
  refine (recognises_token _).bind (fun brace => hmembers.bind (fun members =>
    (recognises_token _).bindPure fun _ => (brace.pos.line, members)) ?_) ?_
  · intro brace rest _
    simp [startsWith, brace.kind_eq]
  · exact fun _ _ _ => trivial

/-- What must follow a method or a field holds of a name and of a closing brace. -/
theorem nextNot_member (t : Token) (rest : List Token)
    (h : (∃ name, t.kind = .identifier name) ∨ t.kind = .punct .rbrace) :
    NextNot [.punct .dot, .optionalMark] (t :: rest) := by
  rcases h with ⟨name, hkind⟩ | hkind
  · simp [hkind]
  · simp [hkind]

theorem recognises_namespaceDecl :
    Recognises namespaceDecl NamespaceTree.decl fun _ => True :=
  (recognises_token _).bind (fun keyword => (recognises_ident _).bindPure fun name =>
    (⟨name, keyword.pos⟩ : NamespaceDecl)) fun _ _ _ => trivial

theorem recognises_interfaceDecl :
    Recognises interfaceDecl InterfaceTree.decl fun _ => True := by
  have hbody := recognises_body recognises_method advances_method
    (fun d => ⟨d.1, _, rfl⟩) nextNot_member
  exact (recognises_token _).bind (fun keyword => (recognises_ident _).bind (fun name =>
    hbody.bindPure fun b => (⟨name, b.2, keyword.pos, b.1⟩ : InterfaceDecl)) fun _ _ _ => trivial)
    fun _ _ _ => trivial

theorem parentName_eq (ts : List Token) :
    parentName ts =
      if startsWith (.keyword .extendsKw) ts then
        (do
          let _ ← token (.keyword .extendsKw)
          some <$> qualifiedName .parentName : Reader (Option Ident)) ts
      else .ok (none, ts) := by
  unfold parentName
  rw [bind_apply]
  cases ts with
  | nil => rfl
  | cons t ts =>
    by_cases hkind : t.kind = .keyword .extendsKw
    · simp [peek, startsWith, hkind]
    · simp [peek, startsWith, hkind]
      rfl

theorem recognises_parentName : Recognises parentName
    (fun d : ParentTree => d.map fun p => DottedTree.ident p.2)
    (NextNot [.keyword .extendsKw, .punct .dot]) := by
  have hsome := (recognises_token (.keyword .extendsKw)).bind
    (fun _ => (recognises_qualifiedName .parentName).map some) fun _ _ _ => trivial
  refine (Recognises.optional parentName_eq hsome ?_ ?_).congr ?_
  · exact fun d rest => startsWith_pair _ d rest
  · intro rest hrest
    exact ⟨startsWith_eq_false_iff.2 (hrest.mono (by simp)), hrest.mono (by simp)⟩
  · rintro (_ | p) <;> rfl

theorem recognises_structDecl : Recognises structDecl StructTree.decl fun _ => True := by
  have hbody := recognises_body recognises_field advances_field
    (fun d => ⟨d.1, _, rfl⟩) nextNot_member
  refine (recognises_token _).bind (fun keyword => (recognises_ident _).bind (fun name =>
    recognises_parentName.bind (fun parent => hbody.bindPure fun b =>
    (⟨name, parent, b.2, keyword.pos, b.1⟩ : StructDecl)) ?_) ?_) ?_
  · rintro ⟨brace, _⟩ rest _
    simp [brace.kind_eq]
  · exact fun _ _ _ => trivial
  · exact fun _ _ _ => trivial

theorem recognises_enumDecl : Recognises enumDecl EnumTree.decl fun _ => True := by
  have hbody := recognises_body (recognises_ident .enumValue) (advances_ident .enumValue)
    (fun n => ⟨n, _, rfl⟩) fun _ _ _ => trivial
  exact (recognises_token _).bind (fun keyword => (recognises_ident _).bind (fun name =>
    hbody.bindPure fun b => (⟨name, b.2, keyword.pos, b.1⟩ : EnumDecl)) fun _ _ _ => trivial)
    fun _ _ _ => trivial

/-! ## Files -/

/-- The four kinds of elements as a sum. -/
def ElementTree.sumEquiv :
    ElementTree ≃ NamespaceTree ⊕ (InterfaceTree ⊕ (StructTree ⊕ EnumTree)) where
  toFun
    | namespaceDecl d => .inl d
    | interfaceDecl d => .inr (.inl d)
    | structDecl d => .inr (.inr (.inl d))
    | enumDecl d => .inr (.inr (.inr d))
  invFun
    | .inl d => namespaceDecl d
    | .inr (.inl d) => interfaceDecl d
    | .inr (.inr (.inl d)) => structDecl d
    | .inr (.inr (.inr d)) => enumDecl d
  left_inv d := by cases d <;> rfl
  right_inv d := by rcases d with d | d | d | d <;> rfl

theorem element_eq (ts : List Token) :
    element ts =
      if startsWith (.keyword .namespaceKw) ts then (Element.namespaceDecl <$> namespaceDecl) ts
      else if startsWith (.keyword .interfaceKw) ts then
        (Element.interfaceDecl <$> interfaceDecl) ts
      else if startsWith (.keyword .structKw) ts then (Element.structDecl <$> structDecl) ts
      else if startsWith (.keyword .enumKw) ts then (Element.enumDecl <$> enumDecl) ts
      else stuck .element ts := by
  unfold element
  rw [bind_apply]
  cases ts with
  | nil => rfl
  | cons t ts =>
    cases hkind : t.kind with
    | keyword k => cases k <;> simp [peek, startsWith, hkind]
    | _ => simp [peek, startsWith, hkind]

theorem recognises_element : Recognises element ElementTree.element fun _ => True := by
  refine ((Recognises.choice element_eq (recognises_namespaceDecl.map _) (.choice (fun _ => rfl)
    (recognises_interfaceDecl.map _) (.choice (fun _ => rfl) (recognises_structDecl.map _)
    (.guarded (fun _ => rfl) (recognises_enumDecl.map _) ?_) ?_ ?_) ?_ ?_) ?_ ?_).ofEquiv
    ElementTree.sumEquiv ?_).congr ?_
  · exact fun d rest => startsWith_pair _ d rest
  · exact fun d rest => startsWith_pair _ d rest
  · exact fun d rest _ => startsWith_pair _ d rest
  · exact fun d rest => startsWith_pair _ d rest
  · rintro (d | d) rest _
    · exact startsWith_pair _ d rest
    · exact startsWith_pair _ d rest
  · exact fun d rest => startsWith_pair _ d rest
  · rintro (d | d | d) rest _
    · exact startsWith_pair _ d rest
    · exact startsWith_pair _ d rest
    · exact startsWith_pair _ d rest
  · rintro (d | d | d | d) <;> rfl
  · rintro (d | d | d | d) <;> rfl

theorem recognises_file : Recognises file SourceTree.elements fun rest => rest = [] := by
  refine recognises_element.manyUntil _ ?_ (fun _ _ => trivial) ?_
  · rintro (d | d | d | d) rest <;> rfl
  · rintro rest rfl
    exact ⟨rfl, trivial⟩

end InterfaceLang.Grammar
