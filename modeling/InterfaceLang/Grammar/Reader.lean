import InterfaceLang.Token

/-!
# Readers of token streams

A reader takes tokens from the front of a stream without trivia and returns a value and the
tokens that follow, or says where it is stuck and what it needed there. The end of a stream is the
empty list.

Results:
* `Reads`: a reader leaves a suffix of its stream, and is stuck at a suffix of it.
* `Advances`: it also takes at least one token. One lemma per combinator carries these over, and
  `manyUntil` needs the second to end.
-/

namespace InterfaceLang.Grammar

/-- What a reader needed where it is stuck. -/
inductive Expected where
  | element
  | namespaceName
  | interfaceName
  | methodName
  | parameterName
  | structName
  | parentName
  | fieldName
  | enumName
  | enumValue
  | nameAfterDot
  | type
  | mapKey
  | token (kind : TokenKind)
  deriving DecidableEq, Repr

namespace Expected

/-- The wording of what was needed. -/
def text : Expected → String
  | element => "'namespace', 'interface', 'struct' or 'enum'"
  | namespaceName => "a namespace name"
  | interfaceName => "an interface name"
  | methodName => "a method name or '\x7d'"
  | parameterName => "a parameter name"
  | structName => "a struct name"
  | parentName => "a parent struct name"
  | fieldName => "a field name or '\x7d'"
  | enumName => "an enum name"
  | enumValue => "an enum value or '\x7d'"
  | nameAfterDot => "an identifier after '.'"
  | type => "a type"
  | mapKey => "'string' (map keys are always string)"
  | token kind => kind.describe

end Expected

/-- A reader that cannot go on: what it needed, and the tokens from the offending one on. -/
structure Stuck where
  expected : Expected
  rest : List Token
  deriving DecidableEq, Repr

/-- Reads an `α` from the front of a token stream. -/
abbrev Reader (α : Type) :=
  StateT (List Token) (Except Stuck) α

variable {α β : Type}

/-! ## Basic readers -/

/-- Is stuck at once. -/
def stuck (expected : Expected) : Reader α :=
  fun ts => .error ⟨expected, ts⟩

/-- The kind of the next token, which stays in the stream. -/
def peek : Reader (Option TokenKind) :=
  fun ts => .ok (ts.head?.map (·.kind), ts)

/-- Takes the next token if `test` accepts it. -/
def takeIf (expected : Expected) (test : Token → Option α) : Reader α
  | [] => .error ⟨expected, []⟩
  | t :: ts =>
    match test t with
    | some a => .ok (a, ts)
    | none => .error ⟨expected, t :: ts⟩

/-- Takes a token of the given kind. -/
def tokenAs (expected : Expected) (kind : TokenKind) : Reader Token :=
  takeIf expected fun t => if t.kind = kind then some t else none

/-- Takes a token of the given kind, which is also what it asks for. -/
def token (kind : TokenKind) : Reader Token :=
  tokenAs (.token kind) kind

/-- Takes a token of the given kind if it comes next, and says whether it did. -/
def optionally (kind : TokenKind) : Reader Bool
  | [] => .ok (false, [])
  | t :: ts => if t.kind = kind then .ok (true, ts) else .ok (false, t :: ts)

/-- Whether the next token of a stream is of the given kind. -/
def startsWith (kind : TokenKind) (ts : List Token) : Bool :=
  ts.head?.any (·.kind = kind)

/-! ## Progress -/

/-- A reader takes tokens from the front only, also when it gets stuck. -/
structure Reads (r : Reader α) : Prop where
  suffix_of_ok : ∀ {ts a rest}, r ts = .ok (a, rest) → rest <:+ ts
  suffix_of_error : ∀ {ts e}, r ts = .error e → e.rest <:+ ts

/-- A reader that takes at least one token when it succeeds. -/
structure Advances (r : Reader α) : Prop extends Reads r where
  shorter : ∀ {ts a rest}, r ts = .ok (a, rest) → rest.length < ts.length

theorem bind_apply (r : Reader α) (f : α → Reader β) (ts : List Token) :
    (r >>= f) ts =
      match r ts with
      | .ok (a, rest) => f a rest
      | .error e => .error e := by
  show (r ts >>= fun p => f p.1 p.2) = _
  cases r ts <;> rfl

theorem map_apply (g : α → β) (r : Reader α) (ts : List Token) :
    (g <$> r) ts =
      match r ts with
      | .ok (a, rest) => .ok (g a, rest)
      | .error e => .error e := by
  show (r ts >>= fun p => pure (g p.1, p.2)) = _
  cases r ts <;> rfl

theorem reads_pure (a : α) : Reads (pure a : Reader α) where
  suffix_of_ok h := by
    cases h
    exact List.suffix_rfl
  suffix_of_error h := by cases h

theorem reads_peek : Reads peek where
  suffix_of_ok h := by
    cases h
    exact List.suffix_rfl
  suffix_of_error h := by cases h

theorem advances_stuck (expected : Expected) : Advances (stuck expected : Reader α) where
  suffix_of_ok h := by cases h
  suffix_of_error h := by
    cases h
    exact List.suffix_rfl
  shorter h := by cases h

theorem advances_takeIf (expected : Expected) (test : Token → Option α) :
    Advances (takeIf expected test) where
  suffix_of_ok {ts a rest} h := by
    cases ts with
    | nil => cases h
    | cons t ts =>
      rw [takeIf] at h
      split at h <;> cases h
      exact List.suffix_cons _ _
  suffix_of_error {ts e} h := by
    cases ts with
    | nil =>
      cases h
      exact List.suffix_rfl
    | cons t ts =>
      rw [takeIf] at h
      split at h <;> cases h
      exact List.suffix_rfl
  shorter {ts a rest} h := by
    cases ts with
    | nil => cases h
    | cons t ts =>
      rw [takeIf] at h
      split at h <;> cases h
      simp

theorem advances_tokenAs (expected : Expected) (kind : TokenKind) :
    Advances (tokenAs expected kind) :=
  advances_takeIf _ _

theorem advances_token (kind : TokenKind) : Advances (token kind) :=
  advances_takeIf _ _

theorem reads_optionally (kind : TokenKind) : Reads (optionally kind) where
  suffix_of_ok {ts a rest} h := by
    cases ts with
    | nil =>
      cases h
      exact List.suffix_rfl
    | cons t ts =>
      rw [optionally] at h
      split at h <;> cases h
      · exact List.suffix_cons _ _
      · exact List.suffix_rfl
  suffix_of_error {ts e} h := by
    cases ts with
    | nil => cases h
    | cons t ts =>
      rw [optionally] at h
      split at h <;> cases h

theorem Reads.bind {r : Reader α} {f : α → Reader β} (hr : Reads r) (hf : ∀ a, Reads (f a)) :
    Reads (r >>= f) where
  suffix_of_ok h := by
    rw [bind_apply] at h
    split at h
    · next hok => exact ((hf _).suffix_of_ok h).trans (hr.suffix_of_ok hok)
    · cases h
  suffix_of_error h := by
    rw [bind_apply] at h
    split at h
    · next hok => exact ((hf _).suffix_of_error h).trans (hr.suffix_of_ok hok)
    · next herr =>
      cases h
      exact hr.suffix_of_error herr

/-- The first of two readers takes a token. -/
theorem Advances.bind {r : Reader α} {f : α → Reader β} (hr : Advances r)
    (hf : ∀ a, Reads (f a)) : Advances (r >>= f) where
  toReads := hr.toReads.bind hf
  shorter h := by
    rw [bind_apply] at h
    split at h
    · next hok =>
      exact Nat.lt_of_le_of_lt ((hf _).suffix_of_ok h).length_le (hr.shorter hok)
    · cases h

/-- The second of two readers takes a token. -/
theorem Reads.bindAdvances {r : Reader α} {f : α → Reader β} (hr : Reads r)
    (hf : ∀ a, Advances (f a)) : Advances (r >>= f) where
  toReads := hr.bind fun a => (hf a).toReads
  shorter h := by
    rw [bind_apply] at h
    split at h
    · next hok =>
      exact Nat.lt_of_lt_of_le ((hf _).shorter h) (hr.suffix_of_ok hok).length_le
    · cases h

theorem Advances.map {r : Reader α} (hr : Advances r) (g : α → β) : Advances (g <$> r) where
  suffix_of_ok h := by
    rw [map_apply] at h
    split at h
    · next hok =>
      cases h
      exact hr.suffix_of_ok hok
    · cases h
  suffix_of_error h := by
    rw [map_apply] at h
    split at h
    · cases h
    · next herr =>
      cases h
      exact hr.suffix_of_error herr
  shorter h := by
    rw [map_apply] at h
    split at h
    · next hok =>
      cases h
      exact hr.shorter hok
    · cases h

/-! ## Repetition -/

/-- Reads items until `done` holds of what is left. -/
def manyUntil (done : List Token → Bool) (item : Reader α) (hitem : Advances item)
    (ts : List Token) : Except Stuck (List α × List Token) :=
  if done ts then .ok ([], ts)
  else
    match _h : item ts with
    | .error e => .error e
    | .ok (a, rest) =>
      match manyUntil done item hitem rest with
      | .error e => .error e
      | .ok (as, rest') => .ok (a :: as, rest')
termination_by ts.length
decreasing_by exact hitem.shorter _h

theorem reads_manyUntil (done : List Token → Bool) (item : Reader α) (hitem : Advances item) :
    Reads (manyUntil done item hitem : Reader (List α)) where
  suffix_of_ok {ts as rest} h := by
    fun_induction manyUntil done item hitem ts generalizing as rest with
    | case1 ts hd =>
      cases h
      exact List.suffix_rfl
    | case2 => cases h
    | case3 => cases h
    | case4 ts hd a rest' hok as' rest'' hmany ih =>
      cases h
      exact (ih hmany).trans (hitem.suffix_of_ok hok)
  suffix_of_error {ts e} h := by
    fun_induction manyUntil done item hitem ts generalizing e with
    | case1 => cases h
    | case2 ts hd e' herr =>
      cases h
      exact hitem.suffix_of_error herr
    | case3 ts hd a rest' hok e' hmany ih =>
      cases h
      exact (ih hmany).trans (hitem.suffix_of_ok hok)
    | case4 => cases h

theorem done_of_manyUntil {done : List Token → Bool} {item : Reader α} {hitem : Advances item}
    {ts rest : List Token} {as : List α} (h : manyUntil done item hitem ts = .ok (as, rest)) :
    done rest = true := by
  fun_induction manyUntil done item hitem ts generalizing as rest with
  | case1 ts hd =>
    cases h
    exact hd
  | case2 => cases h
  | case3 => cases h
  | case4 ts hd a rest' hok as' rest'' hmany ih =>
    cases h
    exact ih hmany

end InterfaceLang.Grammar
