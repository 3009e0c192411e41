import InterfaceLang.Text.Split

/-!
# Paths

A path is a text that is read as a list of components: the root, the directory itself (only where a
relative path begins with it), the parent directory, and names. Two texts with the same components
are the same path. Normalising drops `.` and lets `..` take away the component before it; a `..`
that has nothing to take away stays, and a later one takes it away.

Results:
* `components_ofComponents`: plain components are read back from the text that shows them.
* `isNormal_normalize`: a normal form is a root or not, a `..` or not, and then names only.
-/

namespace InterfaceLang

/-- A part of a path. -/
inductive Component where
  | root
  | here
  | up
  | name (s : String)
  deriving DecidableEq, Repr

namespace Component

/-- The component that a segment between slashes stands for inside a path. -/
def ofSegment? (seg : List Char) : Option Component :=
  if seg = [] ∨ seg = ['.'] then none
  else if seg = ['.', '.'] then some up
  else some (name (String.ofList seg))

/-- The segment that shows a component. -/
def text : Component → String
  | root => ""
  | here => "."
  | up => ".."
  | name s => s

/-- A component that may stand anywhere: `..`, or a name that is neither `.` nor `..`. -/
def IsPlain : Component → Prop
  | up => True
  | name s => s.toList ≠ [] ∧ s.toList ≠ ['.'] ∧ s.toList ≠ ['.', '.'] ∧ '/' ∉ s.toList
  | _ => False

end Component

/-- A path as it is written. -/
structure Path where
  text : String
  deriving DecidableEq, Repr

namespace Path

/-- The component that only the beginning of a path can show. -/
def leading : List (List Char) → List Component
  | [] :: _ :: _ => [.root]
  | ['.'] :: _ => [.here]
  | _ => []

/-- The segments of a path: what its text holds between slashes. -/
def segments (p : Path) : List (List Char) :=
  Text.pieces '/' p.text.toList

/-- The components of a path. -/
def components (p : Path) : List Component :=
  leading p.segments ++ p.segments.filterMap Component.ofSegment?

/-- Whether two paths have the same components. -/
def same (p q : Path) : Bool :=
  p.components = q.components

/-- Whether a path begins at the root. -/
def isAbsolute (p : Path) : Bool :=
  p.components.head? = some .root

/-- The path that shows the given components. -/
def ofComponents : List Component → Path
  | .root :: cs => ⟨"/" ++ "/".intercalate (cs.map Component.text)⟩
  | cs => ⟨"/".intercalate (cs.map Component.text)⟩

/-- The directory that a path is in: the path without its last component. -/
def dir (p : Path) : Path :=
  ofComponents p.components.dropLast

/-- The path `q` seen from `p`; an absolute path is the same from everywhere. -/
def join (p q : Path) : Path :=
  if q.isAbsolute then q
  else if p.text = "" ∨ p.text.toList.getLast? = some '/' then ⟨p.text ++ q.text⟩
  else ⟨p.text ++ "/" ++ q.text⟩

/-! ## Normal forms -/

/-- Adds a component to a path in normal form, given with its last component first. -/
def push (stack : List Component) : Component → List Component
  | .here => stack
  | .up =>
    match stack with
    | [] => [.up]
    | .root :: rest => .up :: .root :: rest
    | _ :: rest => rest
  | c => c :: stack

/-- The components without `.`, and without the pairs that a `..` cancels. -/
def reduce (cs : List Component) : List Component :=
  (cs.foldl push []).reverse

/-- The path in normal form. -/
def normalize (p : Path) : Path :=
  ofComponents (reduce p.components)

/-- The file that the file at `p` means by the import path `target`. -/
def target (p : Path) (importPath : String) : Path :=
  (p.dir.join ⟨importPath⟩).normalize

/-- What may come before the names of a normal form. -/
def leads : List (List Component) :=
  [[], [.root], [.up], [.root, .up]]

/-- Components in normal form. -/
def IsNormal (cs : List Component) : Prop :=
  ∃ lead ∈ leads, ∃ names : List String, cs = lead ++ names.map .name

/-! ## Components and text -/

theorem isPlain_of_ofSegment? {seg : List Char} {c : Component}
    (hseg : '/' ∉ seg) (h : Component.ofSegment? seg = some c) : c.IsPlain := by
  unfold Component.ofSegment? at h
  split at h
  · cases h
  · split at h <;> cases h
    · trivial
    · simp_all [Component.IsPlain]

theorem ofSegment?_text {c : Component} (h : c.IsPlain) :
    Component.ofSegment? c.text.toList = some c := by
  cases c with
  | root => exact h.elim
  | here => exact h.elim
  | up => rfl
  | name s =>
    obtain ⟨h0, h1, h2, _⟩ := h
    simp [Component.ofSegment?, Component.text, h0, h1, h2]

theorem not_mem_text_of_isPlain {c : Component} (h : c.IsPlain) : '/' ∉ c.text.toList := by
  cases c with
  | root => exact h.elim
  | here => exact h.elim
  | up => decide
  | name s => exact h.2.2.2

theorem text_ne_nil_of_isPlain {c : Component} (h : c.IsPlain) : c.text.toList ≠ [] := by
  cases c with
  | root => exact h.elim
  | here => exact h.elim
  | up => decide
  | name s => exact h.1

theorem text_ne_dot_of_isPlain {c : Component} (h : c.IsPlain) : c.text.toList ≠ ['.'] := by
  cases c with
  | root => exact h.elim
  | here => exact h.elim
  | up => decide
  | name s => exact h.2.1

theorem filterMap_ofSegment?_text {cs : List Component} (h : ∀ c ∈ cs, c.IsPlain) :
    (cs.map fun c => c.text.toList).filterMap Component.ofSegment? = cs := by
  induction cs with
  | nil => rfl
  | cons c cs ih =>
    have hc := ofSegment?_text (h c List.mem_cons_self)
    simp [hc, ih fun d hd => h d (List.mem_cons_of_mem _ hd)]

theorem toList_intercalate_slash (ts : List String) :
    ("/".intercalate ts).toList = ['/'].intercalate (ts.map String.toList) := by
  simp [String.toList_intercalate]

theorem components_relative {cs : List Component} (h : ∀ c ∈ cs, c.IsPlain) :
    (ofComponents cs).components = cs := by
  cases cs with
  | nil => rfl
  | cons c cs =>
    have hc := h c List.mem_cons_self
    have hshape :
        (ofComponents (c :: cs)).text = "/".intercalate ((c :: cs).map Component.text) := by
      cases c with
      | root => exact hc.elim
      | _ => rfl
    have hp : (ofComponents (c :: cs)).segments =
        (c :: cs).map fun c => c.text.toList := by
      rw [segments, hshape, toList_intercalate_slash, Text.pieces_intercalate]
      · simp
      · simp
      · intro p hp
        simp only [List.map_map, List.mem_map, Function.comp_apply] at hp
        obtain ⟨d, hd, rfl⟩ := hp
        exact not_mem_text_of_isPlain (h d hd)
    have hlead : leading ((c :: cs).map fun c => c.text.toList) = [] := by
      unfold leading
      split
      · next heq => exact absurd (List.cons.inj heq).1 (text_ne_nil_of_isPlain hc)
      · next heq => exact absurd (List.cons.inj heq).1 (text_ne_dot_of_isPlain hc)
      · rfl
    unfold components
    rw [hp, hlead, filterMap_ofSegment?_text h]
    rfl

theorem components_absolute {cs : List Component} (h : ∀ c ∈ cs, c.IsPlain) :
    (ofComponents (.root :: cs)).components = .root :: cs := by
  have hp : (ofComponents (.root :: cs)).segments =
      [] :: Text.pieces '/' (['/'].intercalate (cs.map fun c => c.text.toList)) := by
    have : (ofComponents (.root :: cs)).text.toList =
        '/' :: ['/'].intercalate (cs.map fun c => c.text.toList) := by
      simp [ofComponents, Function.comp_def]
    rw [segments, this, Text.pieces, if_pos rfl]
  have hsegs : (Text.pieces '/' (['/'].intercalate (cs.map fun c => c.text.toList))).filterMap
      Component.ofSegment? = cs := by
    cases cs with
    | nil => rfl
    | cons c cs =>
      rw [Text.pieces_intercalate (by simp), filterMap_ofSegment?_text h]
      intro p hp
      obtain ⟨d, hd, rfl⟩ := List.mem_map.1 hp
      exact not_mem_text_of_isPlain (h d hd)
  have hlead : leading ([] :: Text.pieces '/' (['/'].intercalate
      (cs.map fun c => c.text.toList))) = [.root] := by
    cases hq : Text.pieces '/' (['/'].intercalate (cs.map fun c => c.text.toList)) with
    | nil => exact absurd hq (Text.pieces_ne_nil _ _)
    | cons => rfl
  unfold components
  rw [hp, hlead, List.filterMap_cons, hsegs]
  rfl

/-- Plain components, after the root or not, are read back from their text. -/
theorem components_ofComponents {cs : List Component} (rest : List Component)
    (h : ∀ c ∈ rest, c.IsPlain) (hcs : cs = rest ∨ cs = .root :: rest) :
    (ofComponents cs).components = cs := by
  rcases hcs with rfl | rfl
  · exact components_relative h
  · exact components_absolute h

/-! ## Normal forms are normal -/

/-- The components of a text: a leading one, then plain ones. -/
theorem components_shape (p : Path) :
    ∃ lead rest, p.components = lead ++ rest ∧ lead ∈ [[], [.root], [.here]] ∧
      ∀ c ∈ rest, c.IsPlain := by
  refine ⟨_, _, rfl, ?_, ?_⟩
  · unfold leading
    split <;> simp
  · intro c hc
    obtain ⟨seg, hseg, hc⟩ := List.mem_filterMap.1 hc
    exact isPlain_of_ofSegment? (Text.not_mem_of_mem_pieces hseg) hc

/-- A stack in normal form: its names, and below them a root, a `..`, both or neither. -/
def IsNormalStack (stack : List Component) : Prop :=
  ∃ lead ∈ leads, ∃ names : List String, stack = names.map .name ++ lead.reverse ∧
    ∀ s ∈ names, (Component.name s).IsPlain

theorem isNormalStack_push {stack : List Component} {c : Component} (h : IsNormalStack stack)
    (hc : c.IsPlain) : IsNormalStack (push stack c) := by
  obtain ⟨lead, hlead, names, rfl, hnames⟩ := h
  cases c with
  | root => exact hc.elim
  | here => exact hc.elim
  | name s => exact ⟨lead, hlead, s :: names, rfl, by simpa using ⟨hc, hnames⟩⟩
  | up =>
    cases names with
    | cons s names =>
      exact ⟨lead, hlead, names, rfl, fun t ht => hnames t (List.mem_cons_of_mem _ ht)⟩
    | nil =>
      simp only [leads, List.mem_cons, List.not_mem_nil, or_false] at hlead
      rcases hlead with rfl | rfl | rfl | rfl
      · exact ⟨[.up], by simp [leads], [], rfl, by simp⟩
      · exact ⟨[.root, .up], by simp [leads], [], rfl, by simp⟩
      · exact ⟨[], by simp [leads], [], rfl, by simp⟩
      · exact ⟨[.root], by simp [leads], [], rfl, by simp⟩

theorem isNormalStack_foldl {stack cs : List Component} (h : IsNormalStack stack)
    (hcs : ∀ c ∈ cs, c.IsPlain) : IsNormalStack (cs.foldl push stack) := by
  induction cs generalizing stack with
  | nil => exact h
  | cons c cs ih =>
    exact ih (isNormalStack_push h (hcs c List.mem_cons_self))
      fun d hd => hcs d (List.mem_cons_of_mem _ hd)

theorem isNormalStack_components (p : Path) : IsNormalStack (p.components.foldl push []) := by
  obtain ⟨lead, rest, hcomp, hlead, hrest⟩ := components_shape p
  rw [hcomp, List.foldl_append]
  refine isNormalStack_foldl ?_ hrest
  simp only [List.mem_cons, List.not_mem_nil, or_false] at hlead
  rcases hlead with rfl | rfl | rfl
  · exact ⟨[], by simp [leads], [], rfl, by simp⟩
  · exact ⟨[.root], by simp [leads], [], rfl, by simp⟩
  · exact ⟨[], by simp [leads], [], rfl, by simp⟩

theorem reduce_shape (p : Path) :
    ∃ lead ∈ leads, ∃ names : List String, reduce p.components = lead ++ names.map .name ∧
      ∀ s ∈ names, (Component.name s).IsPlain := by
  obtain ⟨lead, hlead, names, hstack, hnames⟩ := isNormalStack_components p
  refine ⟨lead, hlead, names.reverse, ?_, by simpa using hnames⟩
  rw [reduce, hstack]
  simp

theorem components_normalize (p : Path) : p.normalize.components = reduce p.components := by
  obtain ⟨lead, hlead, names, hred, hnames⟩ := reduce_shape p
  have hplain : ∀ c ∈ names.map Component.name, c.IsPlain := by simpa using hnames
  rw [normalize, hred]
  simp only [leads, List.mem_cons, List.not_mem_nil, or_false] at hlead
  rcases hlead with rfl | rfl | rfl | rfl
  · exact components_ofComponents _ hplain (.inl rfl)
  · exact components_ofComponents _ hplain (.inr rfl)
  · exact components_ofComponents (.up :: names.map .name)
      (by simpa using ⟨trivial, hnames⟩) (.inl rfl)
  · exact components_ofComponents (.up :: names.map .name)
      (by simpa using ⟨trivial, hnames⟩) (.inr rfl)

theorem isNormal_normalize (p : Path) : IsNormal p.normalize.components := by
  obtain ⟨lead, hlead, names, hred, _⟩ := reduce_shape p
  exact ⟨lead, hlead, names, by rw [components_normalize, hred]⟩

end Path

end InterfaceLang
