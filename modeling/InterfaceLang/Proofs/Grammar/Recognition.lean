import InterfaceLang.Grammar.Reader
import InterfaceLang.Proofs.Grammar.Derivation
import Mathlib.Logic.Equiv.Defs

/-!
# Readers that recognise trees

A reader recognises a type of trees if it accepts exactly the streams that begin with such a tree,
gives what the tree means, and leaves what follows it. Reading is greedy, so this depends on what
follows: after a dotted name, say, there must be no dot. Where the follow condition holds, a stream
also determines the tree that it begins with.

Results:
* `Recognises`: soundness, completeness and uniqueness of a reader, with one lemma per combinator:
  `bind` for sequences, `choice` and `guarded` for alternatives, `optional` for parts that may be
  missing, `manyUntil` for repetitions.
-/

namespace InterfaceLang.Grammar

variable {α β δ ε : Type} [Phrase δ] [Phrase ε]

/-- The next token, if there is one, is of none of the given kinds. -/
def NextNot (kinds : List TokenKind) (rest : List Token) : Prop :=
  ∀ t ∈ rest.head?, t.kind ∉ kinds

@[simp]
theorem nextNot_nil (kinds : List TokenKind) : NextNot kinds [] := by
  simp [NextNot]

@[simp]
theorem nextNot_cons (kinds : List TokenKind) (t : Token) (rest : List Token) :
    NextNot kinds (t :: rest) ↔ t.kind ∉ kinds := by
  simp [NextNot]

theorem NextNot.mono {kinds kinds' : List TokenKind} {rest : List Token} (h : NextNot kinds rest)
    (hsub : kinds' ⊆ kinds) : NextNot kinds' rest :=
  fun t ht hmem => h t ht (hsub hmem)

/-- A reader against a production: `value` is what a tree means, and `follow` is what must hold of
the tokens after it. -/
structure Recognises (r : Reader α) (value : δ → α) (follow : List Token → Prop) : Prop where
  sound : ∀ {ts a rest}, r ts = .ok (a, rest) → ∃ d, leaves d ++ rest = ts ∧ value d = a
  complete : ∀ d {rest}, follow rest → r (leaves d ++ rest) = .ok (value d, rest)
  unique : ∀ {d d' : δ} {rest rest'}, follow rest → follow rest' →
    leaves d ++ rest = leaves d' ++ rest' → d = d'

namespace Recognises

variable {r : Reader α} {value : δ → α} {follow follow' : List Token → Prop}

theorem mono (h : Recognises r value follow) (hsub : ∀ rest, follow' rest → follow rest) :
    Recognises r value follow' where
  sound := h.sound
  complete := fun d _ hrest => h.complete d (hsub _ hrest)
  unique := fun hrest hrest' => h.unique (hsub _ hrest) (hsub _ hrest')

theorem congr {value' : δ → α} (h : Recognises r value follow) (hvalue : ∀ d, value d = value' d) :
    Recognises r value' follow := by
  rwa [← funext hvalue]

/-! ## Combinators -/

/-- Two readers in turn recognise a sequence, if what follows the first may be a tree of the
second. -/
theorem bind {f : α → Reader β} {value' : α → ε → β} (h : Recognises r value follow)
    (hf : ∀ a, Recognises (f a) (value' a) follow')
    (hfollow : ∀ (e : ε) rest, follow' rest → follow (leaves e ++ rest)) :
    Recognises (r >>= f) (fun d : δ × ε => value' (value d.1) d.2) follow' where
  sound := by
    intro ts b rest hok
    rw [bind_apply] at hok
    split at hok
    · next a mid ha =>
      obtain ⟨d, rfl, rfl⟩ := h.sound ha
      obtain ⟨e, rfl, rfl⟩ := (hf _).sound hok
      exact ⟨(d, e), by rw [leaves_pair, List.append_assoc], rfl⟩
    · cases hok
  complete := by
    rintro ⟨d, e⟩ rest hrest
    rw [leaves_pair, List.append_assoc, bind_apply, h.complete d (hfollow e rest hrest)]
    exact (hf _).complete e hrest
  unique := by
    rintro ⟨d, e⟩ ⟨d', e'⟩ rest rest' hrest hrest' heq
    rw [leaves_pair, leaves_pair, List.append_assoc, List.append_assoc] at heq
    have hd : d = d' := h.unique (hfollow e rest hrest) (hfollow e' rest' hrest') heq
    subst hd
    have he : e = e' := (hf (value d)).unique hrest hrest' (List.append_cancel_left heq)
    rw [he]

theorem map (h : Recognises r value follow) (g : α → β) :
    Recognises (g <$> r) (fun d => g (value d)) follow where
  sound := by
    intro ts b rest hok
    rw [map_apply] at hok
    split at hok
    · next a mid ha =>
      cases hok
      obtain ⟨d, hd, rfl⟩ := h.sound ha
      exact ⟨d, hd, rfl⟩
    · cases hok
  complete := by
    intro d rest hrest
    rw [map_apply, h.complete d hrest]
  unique := h.unique

/-- A reader that ends by naming its result. -/
theorem bindPure (h : Recognises r value follow) (g : α → β) :
    Recognises (r >>= fun a => pure (g a)) (fun d => g (value d)) follow :=
  h.map g

/-- A reader that looks ahead recognises two alternatives, if looking ahead tells them apart. -/
theorem choice {r₁ r₂ : Reader α} {value' : ε → α} {first : List Token → Bool}
    (hr : ∀ ts, r ts = if first ts then r₁ ts else r₂ ts) (h₁ : Recognises r₁ value follow)
    (h₂ : Recognises r₂ value' follow) (hfirst : ∀ (d : δ) rest, first (leaves d ++ rest) = true)
    (hsecond : ∀ (e : ε) rest, follow rest → first (leaves e ++ rest) = false) :
    Recognises r (Sum.elim value value') follow where
  sound := by
    intro ts a rest hok
    rw [hr] at hok
    split at hok
    · obtain ⟨d, hd, rfl⟩ := h₁.sound hok
      exact ⟨.inl d, hd, rfl⟩
    · obtain ⟨e, he, rfl⟩ := h₂.sound hok
      exact ⟨.inr e, he, rfl⟩
  complete := by
    rintro (d | e) rest hrest
    · rw [leaves_inl, hr, hfirst, if_pos rfl, h₁.complete d hrest]
      rfl
    · rw [leaves_inr, hr, hsecond e rest hrest, if_neg Bool.false_ne_true, h₂.complete e hrest]
      rfl
  unique := by
    have hmixed : ∀ (d : δ) (e : ε) rest rest', follow rest' →
        leaves d ++ rest ≠ leaves e ++ rest' := by
      intro d e rest rest' hrest' heq
      have hlook := hfirst d rest
      rw [heq, hsecond e rest' hrest'] at hlook
      cases hlook
    rintro (d | e) (d' | e') rest rest' hrest hrest' heq
    · rw [h₁.unique hrest hrest' heq]
    · exact absurd heq (hmixed d e' rest rest' hrest')
    · exact absurd heq.symm (hmixed d' e rest' rest hrest)
    · rw [h₂.unique hrest hrest' heq]

/-- A reader that looks ahead and may get stuck at once. -/
theorem guarded {r₁ : Reader α} {first : List Token → Bool} {expected : Expected}
    (hr : ∀ ts, r ts = if first ts then r₁ ts else stuck expected ts)
    (h : Recognises r₁ value follow) (hfirst : ∀ (d : δ) rest, first (leaves d ++ rest) = true) :
    Recognises r value follow where
  sound := by
    intro ts a rest hok
    rw [hr] at hok
    split at hok
    · exact h.sound hok
    · cases hok
  complete := by
    intro d rest hrest
    rw [hr, hfirst, if_pos rfl, h.complete d hrest]
  unique := h.unique

/-- A reader that looks ahead recognises a part that may be missing. -/
theorem optional {r₁ : Reader α} {absent : α} {first : List Token → Bool}
    (hr : ∀ ts, r ts = if first ts then r₁ ts else .ok (absent, ts))
    (h : Recognises r₁ value follow) (hfirst : ∀ (d : δ) rest, first (leaves d ++ rest) = true)
    (hend : ∀ rest, follow' rest → first rest = false ∧ follow rest) :
    Recognises r (fun d : Option δ => d.elim absent value) follow' where
  sound := by
    intro ts a rest hok
    rw [hr] at hok
    split at hok
    · obtain ⟨d, hd, rfl⟩ := h.sound hok
      exact ⟨some d, hd, rfl⟩
    · cases hok
      exact ⟨none, rfl, rfl⟩
  complete := by
    rintro (_ | d) rest hrest
    · rw [leaves_none, List.nil_append, hr, (hend rest hrest).1, if_neg Bool.false_ne_true]
      rfl
    · rw [leaves_some, hr, hfirst, if_pos rfl, h.complete d (hend rest hrest).2]
      rfl
  unique := by
    have hmixed : ∀ (d : δ) rest rest', follow' rest' → leaves d ++ rest ≠ rest' := by
      intro d rest rest' hrest' heq
      have hlook := hfirst d rest
      rw [heq, (hend rest' hrest').1] at hlook
      cases hlook
    rintro (_ | d) (_ | d') rest rest' hrest hrest' heq
    · rfl
    · exact absurd heq.symm (hmixed d' rest' rest hrest)
    · exact absurd heq (hmixed d rest rest' hrest')
    · rw [h.unique (hend rest hrest).2 (hend rest' hrest').2 heq]

/-- The same trees in another form. -/
theorem ofEquiv (h : Recognises r value follow) (f : ε ≃ δ) (hf : ∀ e, leaves (f e) = leaves e) :
    Recognises r (fun e => value (f e)) follow where
  sound := by
    intro ts a rest hok
    obtain ⟨d, hd, rfl⟩ := h.sound hok
    refine ⟨f.symm d, ?_, ?_⟩
    · rw [← hf, f.apply_symm_apply, hd]
    · rw [f.apply_symm_apply]
  complete := by
    intro e rest hrest
    rw [← hf, h.complete (f e) hrest]
  unique := by
    intro e e' rest rest' hrest hrest' heq
    rw [← hf, ← hf] at heq
    exact f.injective (h.unique hrest hrest' heq)

/-- What may follow an item holds of the items that are left and what comes after them. -/
theorem follow_items (hnext : ∀ (d : δ) rest, follow (leaves d ++ rest)) (ds : List δ)
    {rest : List Token} (hrest : follow rest) : follow (leaves ds ++ rest) := by
  cases ds with
  | nil => exact hrest
  | cons d ds =>
    rw [leaves_cons, List.append_assoc]
    exact hnext d _

/-- Repetition recognises lists, if no item can be taken for the end, and items may follow items. -/
theorem manyUntil {done : List Token → Bool} (h : Recognises r value follow) (hr : Advances r)
    (hstart : ∀ (d : δ) rest, done (leaves d ++ rest) = false)
    (hnext : ∀ (d : δ) rest, follow (leaves d ++ rest))
    (hend : ∀ rest, follow' rest → done rest = true ∧ follow rest) :
    Recognises (manyUntil done r hr : Reader (List α)) (List.map value) follow' where
  sound := by
    intro ts as rest hok
    fun_induction Grammar.manyUntil done r hr ts generalizing as rest with
    | case1 ts hd =>
      cases hok
      exact ⟨[], rfl, rfl⟩
    | case2 => cases hok
    | case3 => cases hok
    | case4 ts hd a mid ha as' rest' hmany ih =>
      cases hok
      obtain ⟨d, rfl, rfl⟩ := h.sound ha
      obtain ⟨ds, rfl, rfl⟩ := ih hmany
      exact ⟨d :: ds, by rw [leaves_cons, List.append_assoc], rfl⟩
  complete := by
    intro ds rest hrest
    obtain ⟨hdone, hfollow⟩ := hend rest hrest
    induction ds with
    | nil =>
      unfold Grammar.manyUntil
      rw [leaves_nil, List.nil_append, if_pos hdone]
      rfl
    | cons d ds ih =>
      have hd := h.complete d (follow_items hnext ds hfollow)
      have hgo : ¬done (leaves d ++ (leaves ds ++ rest)) = true := by
        rw [hstart]
        exact Bool.false_ne_true
      rw [leaves_cons, List.append_assoc]
      unfold Grammar.manyUntil
      rw [if_neg hgo]
      split
      · next herr =>
        rw [hd] at herr
        cases herr
      · next hok =>
        rw [hd] at hok
        cases hok
        rw [ih]
        rfl
  unique := by
    -- where one list ends and the other goes on, the same token would begin an item and an end
    have hstop : ∀ (d : δ) ds rest rest', follow' rest → rest = leaves (d :: ds) ++ rest' →
        False := by
      intro d ds rest rest' hrest heq
      have hdone := (hend rest hrest).1
      rw [heq, leaves_cons, List.append_assoc, hstart] at hdone
      cases hdone
    intro ds ds' rest rest' hrest hrest' heq
    induction ds generalizing ds' with
    | nil =>
      cases ds' with
      | nil => rfl
      | cons d' ds' => exact (hstop d' ds' rest rest' hrest heq).elim
    | cons d ds ih =>
      cases ds' with
      | nil => exact (hstop d ds rest' rest hrest' heq.symm).elim
      | cons d' ds' =>
        rw [leaves_cons, leaves_cons, List.append_assoc, List.append_assoc] at heq
        have hd : d = d' := h.unique (follow_items hnext ds (hend rest hrest).2)
          (follow_items hnext ds' (hend rest' hrest').2) heq
        subst hd
        rw [ih (List.append_cancel_left heq)]

end Recognises

end InterfaceLang.Grammar
