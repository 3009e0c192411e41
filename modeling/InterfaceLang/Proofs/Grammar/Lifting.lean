import InterfaceLang.Proofs.Grammar.Productions

/-!
# Directives between elements

With a production for directives, a file is a sequence of elements and directives. Lifting does not
read the grammar: it counts braces and looks at the tokens around a name. On a file it yet finds
exactly the directives, because inside an element no directive can begin, and after an element the
scan stands as at the start of the file.

Results:
* `lift_leaves`: on the tokens of a file, lifting gives its directives and keeps its elements.
* `exists_items_of_kept`: if what lifting keeps is a sequence of elements, then the stream is a
  sequence of elements and directives.
* `items_unique`: a stream is such a sequence in at most one way.
* `exists_pieces`: of any stream, lifting takes out pairs of a word and a path and nothing else.
-/

namespace InterfaceLang

namespace Grammar

/-- A quoted path. -/
structure PathLeaf where
  token : Token
  path : String
  kind_eq : token.kind = .stringLiteral path

instance : Phrase PathLeaf := ⟨fun p => [p.token]⟩

/-- A directive: the name `import` and a path. -/
abbrev DirectiveTree :=
  Leaf (.identifier "import") × PathLeaf

/-- The directive that a tree writes. -/
def DirectiveTree.directive : DirectiveTree → Directive
  | (word, path) => ⟨path.path, word.token.pos, path.token.stop⟩

/-- An element or a directive. -/
abbrev ItemTree :=
  ElementTree ⊕ DirectiveTree

/-- The elements of a file with directives. -/
def elementsOf (items : List ItemTree) : SourceTree :=
  items.filterMap Sum.getLeft?

/-- The directives of a file with directives. -/
def directivesOf (items : List ItemTree) : List Directive :=
  items.filterMap Sum.getRight? |>.map DirectiveTree.directive

end Grammar

namespace Directive

open Grammar

namespace Context

/-- A directive can begin here. -/
def Opens (c : Context) : Prop :=
  c.depth = 0 ∧ c.atStatement = true

/-- The context after several tokens that are kept. -/
def after (c : Context) (ts : List Token) : Context :=
  ts.foldl (fun c t => c.step t.kind) c

/-- No directive can begin at any of the tokens. -/
def Sealed (c : Context) : List Token → Prop
  | [] => True
  | t :: ts => ¬c.Opens ∧ (c.step t.kind).Sealed ts

/-- The context inside a declaration, with the given number of open braces. -/
def inside (depth : Nat) : Context :=
  ⟨depth, false, false⟩

theorem after_append (c : Context) (ts us : List Token) :
    c.after (ts ++ us) = (c.after ts).after us :=
  List.foldl_append

theorem sealed_append {c : Context} {ts us : List Token} :
    c.Sealed (ts ++ us) ↔ c.Sealed ts ∧ (c.after ts).Sealed us := by
  induction ts generalizing c with
  | nil => simp [Sealed, after]
  | cons t ts ih =>
    simp only [List.cons_append, Sealed, ih, and_assoc]
    rfl

theorem not_opens_inside (depth : Nat) : ¬(inside depth).Opens := by
  simp [Opens, inside]

end Context

/-! ## One token of a stream -/

/-- A token is lifted together with the path after it, or it is kept. -/
theorem lift_cons (c : Context) (t : Token) (ts : List Token) :
    (∃ u us d, ts = u :: us ∧ c.directive? t u = some d ∧
      lift c (t :: ts) = ⟨d :: (lift c us).directives, (lift c us).kept⟩) ∨
    lift c (t :: ts) =
      ⟨(lift (c.step t.kind) ts).directives, t :: (lift (c.step t.kind) ts).kept⟩ := by
  cases ts with
  | nil => exact .inr rfl
  | cons u us =>
    cases hd : c.directive? t u with
    | none => exact .inr (by rw [lift, hd])
    | some d => exact .inl ⟨u, us, d, rfl, hd, by rw [lift, hd]⟩

/-- What two tokens must be like to form a directive. -/
theorem directive?_eq_some_iff {c : Context} {t u : Token} {d : Directive} :
    c.directive? t u = some d ↔
      c.Opens ∧
        ∃ tree : DirectiveTree, leaves tree = [t, u] ∧ DirectiveTree.directive tree = d := by
  unfold Context.directive?
  constructor
  · intro h
    split at h
    · next hopen =>
      split at h
      · next path hpath =>
        cases h
        exact ⟨⟨hopen.1, hopen.2.1⟩, (⟨t, hopen.2.2⟩, ⟨u, path, hpath⟩), rfl, rfl⟩
      · cases h
    · cases h
  · rintro ⟨hopen, ⟨word, path⟩, hleaves, rfl⟩
    cases hleaves
    rw [if_pos ⟨hopen.1, hopen.2, word.kind_eq⟩, path.kind_eq]
    rfl

theorem lift_cons_of_not_opens {c : Context} (h : ¬c.Opens) (t : Token) (ts : List Token) :
    lift c (t :: ts) =
      ⟨(lift (c.step t.kind) ts).directives, t :: (lift (c.step t.kind) ts).kept⟩ := by
  rcases lift_cons c t ts with ⟨u, us, d, _, hd, _⟩ | heq
  · exact absurd (directive?_eq_some_iff.1 hd).1 h
  · exact heq

theorem lift_cons_of_keyword {c : Context} {t : Token} {k : Keyword} (h : t.kind = .keyword k)
    (ts : List Token) :
    lift c (t :: ts) =
      ⟨(lift (c.step t.kind) ts).directives, t :: (lift (c.step t.kind) ts).kept⟩ := by
  rcases lift_cons c t ts with ⟨u, us, d, _, hd, _⟩ | heq
  · obtain ⟨_, ⟨word, path⟩, hleaves, _⟩ := directive?_eq_some_iff.1 hd
    cases hleaves
    rw [word.kind_eq] at h
    cases h
  · exact heq

theorem lift_directive (d : DirectiveTree) (ts : List Token) :
    lift .start (leaves d ++ ts) =
      ⟨DirectiveTree.directive d :: (lift .start ts).directives, (lift .start ts).kept⟩ := by
  obtain ⟨word, path⟩ := d
  have hd : Context.start.directive? word.token path.token = some _ :=
    directive?_eq_some_iff.2 ⟨⟨rfl, rfl⟩, (word, path), rfl, rfl⟩
  show lift .start (word.token :: path.token :: ts) = _
  rw [lift, hd]

/-! ## Tokens at which no directive can begin -/

/-- Tokens at which no directive can begin are kept. -/
theorem lift_append_of_sealed {c : Context} {ts : List Token} (h : c.Sealed ts)
    (rest : List Token) :
    lift c (ts ++ rest) =
      ⟨(lift (c.after ts) rest).directives, ts ++ (lift (c.after ts) rest).kept⟩ := by
  induction ts generalizing c with
  | nil => rfl
  | cons t ts ih =>
    rw [List.cons_append, lift_cons_of_not_opens h.1, ih h.2]
    rfl

/-- If such tokens come first among those that are kept, then they come first in the stream. -/
theorem exists_append_of_sealed {c : Context} {ts us kept : List Token} (h : c.Sealed ts)
    (hkept : (lift c us).kept = ts ++ kept) :
    ∃ rest, us = ts ++ rest ∧ (lift (c.after ts) rest).kept = kept := by
  induction ts generalizing c us with
  | nil => exact ⟨us, rfl, hkept⟩
  | cons t ts ih =>
    cases us with
    | nil => cases hkept
    | cons u us =>
      rw [lift_cons_of_not_opens h.1] at hkept
      obtain ⟨rfl, htail⟩ := List.cons.inj hkept
      obtain ⟨rest, rfl, hrest⟩ := ih h.2 htail
      exact ⟨rest, rfl, hrest⟩

/-! ## Quiet tokens -/

/-- A token that is no brace and does not announce a namespace. -/
def Quiet (t : Token) : Prop :=
  t.kind ≠ .punct .lbrace ∧ t.kind ≠ .punct .rbrace ∧ t.kind ≠ .keyword .namespaceKw

/-- All leaves of the trees of a production are quiet. -/
def QuietTrees (δ : Type) [Phrase δ] : Prop :=
  ∀ d : δ, ∀ t ∈ leaves d, Quiet t

theorem step_inside_of_quiet {t : Token} (h : Quiet t) (depth : Nat) :
    (Context.inside depth).step t.kind = Context.inside depth := by
  obtain ⟨hl, hr, hn⟩ := h
  unfold Context.step Context.inside
  cases hkind : t.kind with
  | punct p => cases p <;> simp_all
  | _ => simp_all

theorem sealed_of_quiet {ts : List Token} (h : ∀ t ∈ ts, Quiet t) (depth : Nat) :
    (Context.inside depth).Sealed ts ∧
      (Context.inside depth).after ts = Context.inside depth := by
  induction ts with
  | nil => exact ⟨trivial, rfl⟩
  | cons t ts ih =>
    have hstep := step_inside_of_quiet (h t List.mem_cons_self) depth
    obtain ⟨hsealed, hafter⟩ := ih fun u hu => h u (List.mem_cons_of_mem _ hu)
    refine ⟨⟨Context.not_opens_inside depth, by rwa [hstep]⟩, ?_⟩
    show ((Context.inside depth).step t.kind).after ts = _
    rw [hstep, hafter]

namespace QuietTrees

variable {δ ε : Type} [Phrase δ] [Phrase ε]

theorem leaf {kind : TokenKind}
    (h : kind ≠ .punct .lbrace ∧ kind ≠ .punct .rbrace ∧ kind ≠ .keyword .namespaceKw) :
    QuietTrees (Leaf kind) := by
  intro l t ht
  rw [List.mem_singleton.1 ht, Quiet, l.kind_eq]
  exact h

theorem name : QuietTrees NameLeaf := by
  intro n t ht
  rw [List.mem_singleton.1 ht, Quiet, n.kind_eq]
  simp

theorem builtIn : QuietTrees BuiltInLeaf := by
  intro b t ht
  rw [List.mem_singleton.1 ht, Quiet, b.kind_eq]
  simp

theorem pair (h : QuietTrees δ) (h' : QuietTrees ε) : QuietTrees (δ × ε) := by
  intro d t ht
  rcases List.mem_append.1 ht with ht | ht
  · exact h d.1 t ht
  · exact h' d.2 t ht

theorem option (h : QuietTrees δ) : QuietTrees (Option δ) := by
  rintro (_ | d) t ht
  · cases ht
  · exact h d t ht

theorem list (h : QuietTrees δ) : QuietTrees (List δ) := by
  intro ds t ht
  obtain ⟨d, _, ht⟩ := List.mem_flatMap.1 ht
  exact h d t ht

theorem dotted : QuietTrees DottedTree :=
  name.pair ((leaf (by simp)).pair name).list

theorem type : QuietTrees TypeTree := by
  have hbrackets : QuietTrees BracketsTree := (leaf (by simp)).pair (leaf (by simp))
  have hkey : QuietTrees KeyTree :=
    (leaf (by simp)).pair ((leaf (by simp)).pair ((leaf (by simp)).pair (leaf (by simp))))
  intro d
  induction d with
  | builtIn b => exact builtIn b
  | array brackets element ih =>
    intro t ht
    rcases List.mem_append.1 ht with ht | ht
    · exact hbrackets brackets t ht
    · exact ih t ht
  | mapOf key value ih =>
    intro t ht
    rcases List.mem_append.1 ht with ht | ht
    · exact hkey key t ht
    · exact ih t ht
  | named name => exact dotted name

theorem param : QuietTrees ParamTree :=
  name.pair type

theorem params : QuietTrees ParamsTree :=
  (param.pair ((leaf (by simp)).pair param).list).option

theorem method : QuietTrees MethodTree :=
  name.pair ((leaf (by simp)).pair (params.pair ((leaf (by simp)).pair
    (type.pair (leaf (by simp)).option))))

theorem field : QuietTrees FieldTree :=
  name.pair (type.pair (leaf (by simp)).option)

theorem parent : QuietTrees ParentTree :=
  ((leaf (by simp)).pair dotted).option

end QuietTrees

/-! ## Elements -/

/-- Within a body no directive can begin, and after it the scan stands as at the start. -/
theorem sealed_body {δ : Type} [Phrase δ] (h : QuietTrees δ) (d : BodyTree δ) :
    (Context.inside 0).Sealed (leaves d) ∧ (Context.inside 0).after (leaves d) = .start := by
  obtain ⟨opening, members, closing⟩ := d
  obtain ⟨hsealed, hafter⟩ := sealed_of_quiet (h.list members) 1
  have hopen : (Context.inside 0).step opening.token.kind = Context.inside 1 := by
    rw [opening.kind_eq]
    rfl
  have hclose : (Context.inside 1).step closing.token.kind = Context.start := by
    rw [closing.kind_eq]
    rfl
  have hleaves : leaves (opening, members, closing) =
      opening.token :: (leaves members ++ [closing.token]) := rfl
  constructor
  · rw [hleaves]
    refine ⟨Context.not_opens_inside 0, ?_⟩
    rw [hopen, Context.sealed_append, hafter]
    exact ⟨hsealed, Context.not_opens_inside 1, trivial⟩
  · show ((Context.inside 0).step opening.token.kind).after (leaves members ++ [closing.token]) = _
    rw [hopen, Context.after_append, hafter]
    exact hclose

/-- A quiet header and a body after it. -/
theorem sealed_header_body {δ ε : Type} [Phrase δ] [Phrase ε] (hheader : QuietTrees δ)
    (hmember : QuietTrees ε) (header : δ) (body : BodyTree ε) :
    (Context.inside 0).Sealed (leaves header ++ leaves body) ∧
      (Context.inside 0).after (leaves header ++ leaves body) = .start := by
  obtain ⟨hsealed, hafter⟩ := sealed_of_quiet (hheader header) 0
  rw [Context.sealed_append, Context.after_append, hafter]
  obtain ⟨hsealed', hafter'⟩ := sealed_body hmember body
  exact ⟨⟨hsealed, hsealed'⟩, hafter'⟩

/-- An element begins with a keyword; after it no directive can begin until the element ends, and
then the scan stands as at the start. -/
theorem exists_sealed_element (e : ElementTree) :
    ∃ (t : Token) (k : Keyword) (ts : List Token), leaves e = t :: ts ∧ t.kind = .keyword k ∧
      (Context.start.step t.kind).Sealed ts ∧ (Context.start.step t.kind).after ts = .start := by
  cases e with
  | namespaceDecl d =>
    obtain ⟨keyword, name⟩ := d
    refine ⟨keyword.token, _, [name.token], rfl, keyword.kind_eq, ?_⟩
    rw [keyword.kind_eq]
    refine ⟨⟨?_, trivial⟩, ?_⟩
    · rintro ⟨_, hstatement⟩
      cases hstatement
    · show (Context.start.step (.keyword .namespaceKw)).step name.token.kind = .start
      rw [name.kind_eq]
      rfl
  | interfaceDecl d =>
    obtain ⟨keyword, name, body⟩ := d
    refine ⟨keyword.token, _, leaves name ++ leaves body, rfl, keyword.kind_eq, ?_⟩
    rw [keyword.kind_eq]
    exact sealed_header_body QuietTrees.name QuietTrees.method name body
  | structDecl d =>
    obtain ⟨keyword, name, parent, body⟩ := d
    refine ⟨keyword.token, _, leaves (name, parent) ++ leaves body, ?_, keyword.kind_eq, ?_⟩
    · rfl
    rw [keyword.kind_eq]
    exact sealed_header_body (QuietTrees.name.pair QuietTrees.parent) QuietTrees.field
      (name, parent) body
  | enumDecl d =>
    obtain ⟨keyword, name, body⟩ := d
    refine ⟨keyword.token, _, leaves name ++ leaves body, rfl, keyword.kind_eq, ?_⟩
    rw [keyword.kind_eq]
    exact sealed_header_body QuietTrees.name QuietTrees.name name body

theorem lift_element (e : ElementTree) (ts : List Token) :
    lift .start (leaves e ++ ts) =
      ⟨(lift .start ts).directives, leaves e ++ (lift .start ts).kept⟩ := by
  obtain ⟨t, k, us, hleaves, hkind, hsealed, hafter⟩ := exists_sealed_element e
  rw [hleaves, List.cons_append, lift_cons_of_keyword hkind, lift_append_of_sealed hsealed, hafter]
  rfl

/-! ## Files with directives -/

theorem lift_leaves (items : List ItemTree) :
    lift .start (leaves items) = ⟨directivesOf items, leaves (elementsOf items)⟩ := by
  induction items with
  | nil => rfl
  | cons item items ih =>
    rw [leaves_cons]
    cases item with
    | inl e =>
      rw [leaves_inl, lift_element, ih]
      rfl
    | inr d =>
      rw [leaves_inr, lift_directive, ih]
      rfl

theorem exists_items_of_kept {ts : List Token} {d : SourceTree}
    (h : (lift .start ts).kept = leaves d) : ∃ items : List ItemTree, leaves items = ts := by
  -- a directive or an element at the front makes the stream shorter
  induction hlen : ts.length using Nat.strongRecOn generalizing ts d with
  | _ n ih =>
    cases ts with
    | nil => exact ⟨[], rfl⟩
    | cons t ts =>
      rcases lift_cons .start t ts with ⟨u, us, dir, rfl, hdir, heq⟩ | heq
      · obtain ⟨_, tree, hleaves, _⟩ := directive?_eq_some_iff.1 hdir
        rw [heq] at h
        obtain ⟨items, hitems⟩ :=
          ih us.length (by simp only [← hlen, List.length_cons]; omega) h rfl
        exact ⟨.inr tree :: items, by rw [leaves_cons, leaves_inr, hleaves, hitems]; rfl⟩
      · rw [heq] at h
        cases d with
        | nil => cases h
        | cons e es =>
          obtain ⟨t', k, body, hleaves, _, hsealed, hafter⟩ := exists_sealed_element e
          rw [leaves_cons, hleaves, List.cons_append] at h
          obtain ⟨rfl, hkept⟩ := List.cons.inj h
          obtain ⟨rest, rfl, hrest⟩ := exists_append_of_sealed hsealed hkept
          rw [hafter] at hrest
          obtain ⟨items, hitems⟩ := ih rest.length
            (by simp only [← hlen, List.length_cons, List.length_append]; omega) hrest rfl
          exact ⟨.inl e :: items, by rw [leaves_cons, leaves_inl, hleaves, hitems]; rfl⟩

theorem directive_unique {d d' : DirectiveTree} {ts us : List Token}
    (h : leaves d ++ ts = leaves d' ++ us) : d = d' := by
  obtain ⟨⟨t, ht⟩, ⟨u, path, hu⟩⟩ := d
  obtain ⟨⟨t', ht'⟩, ⟨u', path', hu'⟩⟩ := d'
  obtain ⟨rfl, htail⟩ := List.cons.inj (h : t :: u :: ts = t' :: u' :: us)
  obtain ⟨rfl, _⟩ := List.cons.inj htail
  rw [hu] at hu'
  cases hu'
  rfl

/-- A stream is a sequence of elements and directives in at most one way. -/
theorem items_unique {items items' : List ItemTree} (h : leaves items = leaves items') :
    items = items' := by
  -- an element begins with a keyword and a directive with a name
  have hmixed : ∀ (e : ElementTree) (d : DirectiveTree) ts us, leaves e ++ ts ≠ leaves d ++ us := by
    rintro e ⟨word, path⟩ ts us heq
    obtain ⟨t, k, body, hleaves, hkind, _⟩ := exists_sealed_element e
    rw [hleaves] at heq
    rw [(List.cons.inj heq).1, word.kind_eq] at hkind
    cases hkind
  have hne : ∀ item : ItemTree, leaves item ≠ [] := by
    rintro (e | d) hnil
    · obtain ⟨t, k, body, hleaves, _⟩ := exists_sealed_element e
      rw [leaves_inl, hleaves] at hnil
      cases hnil
    · cases hnil
  induction items generalizing items' with
  | nil =>
    cases items' with
    | nil => rfl
    | cons item' items' => exact absurd (List.append_eq_nil_iff.1 h.symm).1 (hne item')
  | cons item items ih =>
    cases items' with
    | nil => exact absurd (List.append_eq_nil_iff.1 h).1 (hne item)
    | cons item' items' =>
      rw [leaves_cons, leaves_cons] at h
      have hitem : item = item' := by
        rcases item with e | d <;> rcases item' with e' | d'
        · rw [recognises_element.unique trivial trivial h]
        · exact absurd h (hmixed _ _ _ _)
        · exact absurd h.symm (hmixed _ _ _ _)
        · rw [directive_unique h]
      subst hitem
      rw [ih (List.append_cancel_left h)]

/-! ## Any stream -/

instance : Phrase Token := ⟨fun t => [t]⟩

/-- Lifting splits a stream into directives, which it takes out, and tokens, which it keeps. -/
theorem exists_pieces (c : Context) (ts : List Token) :
    ∃ pieces : List (Token ⊕ DirectiveTree), leaves pieces = ts ∧
      (lift c ts).kept = pieces.filterMap Sum.getLeft? ∧
      (lift c ts).directives = (pieces.filterMap Sum.getRight?).map DirectiveTree.directive := by
  fun_induction lift c ts with
  | case1 => exact ⟨[], rfl, rfl, rfl⟩
  | case2 c t => exact ⟨[.inl t], rfl, rfl, rfl⟩
  | case3 c t u ts d hd ih =>
    obtain ⟨_, tree, hleaves, rfl⟩ := directive?_eq_some_iff.1 hd
    obtain ⟨pieces, hpieces, hkept, hdirectives⟩ := ih
    refine ⟨.inr tree :: pieces, ?_, ?_, ?_⟩
    · rw [leaves_cons, leaves_inr, hleaves, hpieces]
      rfl
    · exact hkept
    · rw [hdirectives]
      rfl
  | case4 c t u ts hd ih =>
    obtain ⟨pieces, hpieces, hkept, hdirectives⟩ := ih
    refine ⟨.inl t :: pieces, ?_, ?_, ?_⟩
    · rw [leaves_cons, hpieces]
      rfl
    · rw [hkept]
      rfl
    · exact hdirectives

/-- Where there is nothing to import, nothing is taken out. -/
theorem kept_extract_of_imports_eq_nil {ts : List Token} (h : (extract ts).imports = []) :
    (extract ts).kept = ts := by
  have hlift : (lift .start ts).directives = [] := by
    change distinct [] (lift .start ts).directives = [] at h
    cases hds : (lift .start ts).directives with
    | nil => rfl
    | cons d ds =>
      rw [hds, distinct, if_neg List.not_mem_nil] at h
      cases h
  have hkept : ∀ (c : Context) ts, (lift c ts).directives = [] → (lift c ts).kept = ts := by
    intro c ts
    fun_induction lift c ts with
    | case1 => exact fun _ => rfl
    | case2 => exact fun _ => rfl
    | case3 => intro hnil; cases hnil
    | case4 c t u ts _ ih => exact fun hnil => congrArg (t :: ·) (ih hnil)
  exact hkept .start ts hlift

/-- An end mark stays where it is. -/
theorem lift_concat_of_eof {e : Token} (h : e.kind = .eof) (c : Context) (ts : List Token) :
    lift c (ts ++ [e]) = ⟨(lift c ts).directives, (lift c ts).kept ++ [e]⟩ := by
  have hnone : ∀ (c : Context) t, c.directive? t e = none := by
    intro c t
    unfold Context.directive?
    rw [h]
    split <;> rfl
  fun_induction lift c ts with
  | case1 => rfl
  | case2 c t =>
    show lift c [t, e] = _
    rw [lift, hnone]
    rfl
  | case3 c t u ts d hd ih =>
    show lift c (t :: u :: (ts ++ [e])) = _
    rw [lift, hd]
    simp only [ih]
  | case4 c t u ts hd ih =>
    show lift c (t :: u :: (ts ++ [e])) = _
    rw [lift, hd]
    show Lifted.mk (lift (c.step t.kind) (u :: ts ++ [e])).directives
      (t :: (lift (c.step t.kind) (u :: ts ++ [e])).kept) = _
    rw [ih]
    rfl

/-- Paths that are named again are left out. -/
theorem distinct_eq_eraseDupsBy (ds : List Directive) :
    distinct [] ds = ds.eraseDupsBy fun d d' => d.path == d'.path := by
  have hloop : ∀ seen ds,
      List.eraseDupsBy.loop (fun d d' : Directive => d.path == d'.path) ds seen =
      seen.reverse ++ distinct (seen.map (·.path)) ds := by
    intro seen ds
    induction ds generalizing seen with
    | nil => simp [List.eraseDupsBy.loop, distinct]
    | cons d ds ih =>
      rw [List.eraseDupsBy.loop.eq_def, distinct]
      by_cases hseen : d.path ∈ seen.map (·.path)
      · have hany : seen.any (fun d' => d.path == d'.path) = true := by
          obtain ⟨d', hd', heq⟩ := List.mem_map.1 hseen
          exact List.any_eq_true.2 ⟨d', hd', beq_iff_eq.2 heq.symm⟩
        simp only [hany, if_pos hseen, ih]
      · have hany : seen.any (fun d' => d.path == d'.path) = false := by
          refine List.any_eq_false.2 fun d' hd' heq => hseen ?_
          exact beq_iff_eq.1 heq ▸ List.mem_map_of_mem hd'
        simp only [hany, if_neg hseen, ih]
        simp
  simpa [List.eraseDupsBy] using (hloop [] ds).symm

end Directive

end InterfaceLang
