import InterfaceLang.Token

/-!
# Import directives

A directive is the identifier `import` followed by a quoted path. It is recognised outside all
braces, where a statement may begin: at the start, after a closing brace, after a namespace and
its name, or after another directive. Lifting takes the directives out of a token stream and keeps
the other tokens; a path that is named again counts once, where it stands first.

Results:
* `kept_sublist`: the tokens that are kept are tokens of the stream, in their order.
* `nodup_path_distinct`: among the imports no path stands twice.
-/

namespace InterfaceLang

/-- An import of `path`, written at `pos`; `stop` is the offset after the closing quote. -/
structure Directive where
  path : String
  pos : Position
  stop : Nat
  deriving DecidableEq, Repr

namespace Directive

/-- The bytes from the word `import` to the closing quote. -/
def span (d : Directive) : Span :=
  ⟨d.pos.offset, d.stop - d.pos.offset⟩

/-- The word that begins a directive. -/
def word : String :=
  "import"

/-- What the tokens so far say about the next one. -/
structure Context where
  /-- The number of open braces. -/
  depth : Nat
  /-- A statement may begin here. -/
  atStatement : Bool
  /-- The last token was the keyword `namespace`. -/
  afterNamespace : Bool

namespace Context

/-- The start of a file. -/
def start : Context :=
  ⟨0, true, false⟩

/-- The context after a token that is kept. -/
def step (c : Context) (k : TokenKind) : Context where
  depth :=
    match k with
    | .punct .lbrace => c.depth + 1
    | .punct .rbrace => c.depth - 1
    | _ => c.depth
  atStatement :=
    match k with
    | .punct .rbrace => c.depth ≤ 1
    | .identifier _ => c.afterNamespace
    | _ => false
  afterNamespace := k = .keyword .namespaceKw

/-- The directive that the tokens `t` and `u` form in this context. -/
def directive? (c : Context) (t u : Token) : Option Directive :=
  if c.depth = 0 ∧ c.atStatement ∧ t.kind = .identifier word then
    match u.kind with
    | .stringLiteral path => some ⟨path, t.pos, u.stop⟩
    | _ => none
  else none

end Context

/-- A token stream taken apart. -/
structure Lifted where
  directives : List Directive
  kept : List Token

/-- Takes the directives out of a token stream that begins in the given context. -/
def lift (c : Context) : List Token → Lifted
  | [] => ⟨[], []⟩
  | [t] => ⟨[], [t]⟩
  | t :: u :: ts =>
    match c.directive? t u with
    | some d => ⟨d :: (lift c ts).directives, (lift c ts).kept⟩
    | none => ⟨(lift (c.step t.kind) (u :: ts)).directives,
        t :: (lift (c.step t.kind) (u :: ts)).kept⟩

/-- The directives whose path is named for the first time, `seen` being the paths before. -/
def distinct (seen : List String) : List Directive → List Directive
  | [] => []
  | d :: ds => if d.path ∈ seen then distinct seen ds else d :: distinct (d.path :: seen) ds

/-- The directives whose path was named before. -/
def repeated (seen : List String) : List Directive → List Directive
  | [] => []
  | d :: ds => if d.path ∈ seen then d :: repeated seen ds else repeated (d.path :: seen) ds

/-- The imports of a token stream, the repetitions among its directives, and the other tokens. -/
structure Extraction where
  imports : List Directive
  repetitions : List Directive
  kept : List Token

/-- Lifts the directives out of the tokens of a file. -/
def extract (ts : List Token) : Extraction :=
  let l := lift .start ts
  ⟨distinct [] l.directives, repeated [] l.directives, l.kept⟩

theorem kept_sublist (c : Context) (ts : List Token) : (lift c ts).kept.Sublist ts := by
  fun_induction lift c ts with
  | case1 => exact .slnil
  | case2 => exact .refl _
  | case3 c t u ts d h ih => exact .cons _ (.cons _ ih)
  | case4 c t u ts h ih => exact .cons_cons _ ih

theorem path_not_mem_of_mem_distinct {seen : List String} {ds : List Directive} {d : Directive}
    (h : d ∈ distinct seen ds) : d.path ∉ seen := by
  fun_induction distinct seen ds with
  | case1 => simp at h
  | case2 seen e ds he ih => exact ih h
  | case3 seen e ds he ih =>
    rcases List.mem_cons.1 h with rfl | h
    · exact he
    · exact fun hm => ih h (List.mem_cons_of_mem _ hm)

theorem nodup_path_distinct (seen : List String) (ds : List Directive) :
    ((distinct seen ds).map (·.path)).Nodup := by
  fun_induction distinct seen ds with
  | case1 => simp
  | case2 seen e ds he ih => exact ih
  | case3 seen e ds he ih =>
    rw [List.map_cons, List.nodup_cons]
    refine ⟨fun hm => ?_, ih⟩
    obtain ⟨d, hd, heq⟩ := List.mem_map.1 hm
    exact path_not_mem_of_mem_distinct hd (heq ▸ List.mem_cons_self)

end Directive

end InterfaceLang
