import InterfaceLang.Model.Document
import InterfaceLang.Proofs.Validation.Reordering

/-!
# Documents determine models

Two documents are the same value if they have the same items and the same entries; in which order
the entries of an object stand does not count. A model can be told from its document, up to what the
document leaves out: the name of the model's file and the positions of references. The kind of a
type is the one key of its object, so a built-in type is not taken for a declared one of that name,
and a method that returns nothing has a null where others have an object.

Results:
* `agrees_object_cons`: objects with the same keys agree if they agree at each of them.
* `TypeExpr.agrees_toDocument_iff`: types with the same document differ in positions only.
* `Model.document_determines`: models have the same document exactly if they differ only in the
  name of the file and in the positions of references.
-/

namespace InterfaceLang

namespace Document

/-- Two documents are the same value. -/
inductive Agrees : Document → Document → Prop
  | null : Agrees .null .null
  | bool (b : Bool) : Agrees (.bool b) (.bool b)
  | number (n : Nat) : Agrees (.number n) (.number n)
  | string (s : String) : Agrees (.string s) (.string s)
  | array {items items' : List Document} :
      List.Forall₂ Agrees items items' → Agrees (.array items) (.array items')
  | object {entries entries' : List (String × Document)} :
      (∀ key, Option.Rel Agrees (entries.lookup key) (entries'.lookup key)) →
      Agrees (.object entries) (.object entries')

/-! ## Values part by part -/

variable {a b : Document} {entries entries' : List (String × Document)} {key key' : String}

@[simp]
theorem agrees_bool_iff {b b' : Bool} : (bool b).Agrees (bool b') ↔ b = b' := by
  constructor
  · rintro ⟨⟩
    rfl
  · rintro rfl
    exact .bool b

@[simp]
theorem agrees_number_iff {n n' : Nat} : (number n).Agrees (number n') ↔ n = n' := by
  constructor
  · rintro ⟨⟩
    rfl
  · rintro rfl
    exact .number n

@[simp]
theorem agrees_string_iff {s s' : String} : (string s).Agrees (string s') ↔ s = s' := by
  constructor
  · rintro ⟨⟩
    rfl
  · rintro rfl
    exact .string s

theorem agrees_array_iff {items items' : List Document} :
    (array items).Agrees (array items') ↔ List.Forall₂ Agrees items items' := by
  constructor
  · rintro ⟨⟩
    assumption
  · exact .array

theorem agrees_object_iff :
    (object entries).Agrees (object entries') ↔
      ∀ key, Option.Rel Agrees (entries.lookup key) (entries'.lookup key) := by
  constructor
  · rintro ⟨⟩
    assumption
  · exact .object

@[simp]
theorem agrees_object_nil : (object []).Agrees (object []) :=
  .object fun _ => .none

/-- Objects agree if they agree at a key that stands in both of them once and in all other
entries. -/
theorem agrees_object_cons (h : entries.lookup key = none) (h' : entries'.lookup key = none) :
    (object ((key, a) :: entries)).Agrees (object ((key, b) :: entries')) ↔
      a.Agrees b ∧ (object entries).Agrees (object entries') := by
  rw [agrees_object_iff, agrees_object_iff]
  constructor
  · intro hall
    have hkey := hall key
    rw [List.lookup_cons_self, List.lookup_cons_self] at hkey
    refine ⟨?_, fun other => ?_⟩
    · cases hkey
      assumption
    · by_cases hother : other = key
      · rw [hother, h, h']
        exact .none
      · have hrest := hall other
        have hne : (other == key) = false := by simpa using hother
        simpa [List.lookup_cons, hne] using hrest
  · rintro ⟨hab, hrest⟩ other
    by_cases hother : other = key
    · rw [hother, List.lookup_cons_self, List.lookup_cons_self]
      exact .some hab
    · have hne : (other == key) = false := by simpa using hother
      simpa [List.lookup_cons, hne] using hrest other

/-- Objects with one entry each. -/
theorem agrees_object_singleton :
    (object [(key, a)]).Agrees (object [(key', b)]) ↔ key = key' ∧ a.Agrees b := by
  by_cases hkey : key = key'
  · subst hkey
    rw [agrees_object_cons rfl rfl]
    simp
  · have hne : (key == key') = false := by simpa using hkey
    simp only [hkey, false_and, iff_false, agrees_object_iff]
    intro hall
    have hat := hall key
    simp [List.lookup_cons, hne] at hat

/-- Lists of documents of things agree if the things are alike one by one. -/
theorem agrees_array_map {α β : Type} {f : α → Document} (shown : α → β)
    (h : ∀ x y, (f x).Agrees (f y) ↔ shown x = shown y) (l l' : List α) :
    (array (l.map f)).Agrees (array (l'.map f)) ↔ l.map shown = l'.map shown := by
  rw [agrees_array_iff, List.forall₂_map_left_iff, List.forall₂_map_right_iff]
  simp only [h]
  induction l generalizing l' with
  | nil => cases l' <;> simp
  | cons x l ih =>
    cases l' with
    | nil => simp
    | cons y l' => simp [ih]

end Document

/-! ## What documents show -/

/-- A field without the position of its reference. -/
def Field.shown (f : Field) : Field :=
  { f with type := f.type.bare }

/-- A struct without the positions of references. -/
def Struct.shown (s : Struct) : Struct :=
  { s with fields := s.fields.map Field.shown }

/-- A parameter without the position of its reference. -/
def Parameter.shown (p : Parameter) : Parameter :=
  { p with type := p.type.bare }

/-- A method without the positions of references. -/
def Method.shown (m : Method) : Method :=
  { m with parameters := m.parameters.map Parameter.shown, returns := m.returns.map TypeExpr.bare }

/-- An interface without the positions of references. -/
def Interface.shown (i : Interface) : Interface :=
  { i with methods := i.methods.map Method.shown }

/-- A model without the name of its file and without the positions of references. -/
def Model.shown (m : Model) : Model :=
  { m with
    file := ""
    interfaces := m.interfaces.map Interface.shown
    structs := m.structs.map Struct.shown }

open Document

theorem Position.agrees_toDocument_iff {p q : Position} :
    p.toDocument.Agrees q.toDocument ↔ p = q := by
  obtain ⟨file, line, column, offset⟩ := p
  obtain ⟨file', line', column', offset'⟩ := q
  simp [toDocument, agrees_object_cons, agrees_object_singleton]

theorem BuiltIn.text_inj {b b' : BuiltIn} : b.text = b'.text ↔ b = b' := by
  cases b <;> cases b' <;> decide

/-- Types with the same document differ in the position of the reference only. -/
theorem TypeExpr.agrees_toDocument_iff {t t' : TypeExpr} :
    t.toDocument.Agrees t'.toDocument ↔ t.bare = t'.bare := by
  induction t generalizing t' with
  | builtIn b =>
    cases t' <;> simp [toDocument, agrees_object_singleton, bare, mapRefs, BuiltIn.text_inj]
  | array e ih =>
    cases t' <;> simp [toDocument, agrees_object_singleton, bare, mapRefs, ih]
  | mapOf v ih =>
    cases t' <;> simp [toDocument, agrees_object_singleton, bare, mapRefs, ih]
  | named r =>
    cases t' <;> simp [toDocument, agrees_object_singleton, bare, mapRefs]

theorem Parameter.agrees_toDocument_iff (p p' : Parameter) :
    p.toDocument.Agrees p'.toDocument ↔ p.shown = p'.shown := by
  obtain ⟨name, type, pos⟩ := p
  obtain ⟨name', type', pos'⟩ := p'
  simp [toDocument, agrees_object_cons, agrees_object_singleton, shown,
    TypeExpr.agrees_toDocument_iff, Position.agrees_toDocument_iff]

/-- A method that returns nothing is told from every other one. -/
theorem Method.agrees_returnsDocument_iff (m m' : Method) :
    m.returnsDocument.Agrees m'.returnsDocument ↔
      m.returns.map TypeExpr.bare = m'.returns.map TypeExpr.bare := by
  unfold returnsDocument
  cases m.returns with
  | none =>
    cases m'.returns with
    | none => exact iff_of_true .null rfl
    | some t' => cases t' <;> exact iff_of_false nofun nofun
  | some t =>
    cases m'.returns with
    | none => cases t <;> exact iff_of_false nofun nofun
    | some t' => simp [TypeExpr.agrees_toDocument_iff]

theorem Method.agrees_toDocument_iff (m m' : Method) :
    m.toDocument.Agrees m'.toDocument ↔ m.shown = m'.shown := by
  have hreturns := agrees_returnsDocument_iff m m'
  have hparameters := agrees_array_map Parameter.shown Parameter.agrees_toDocument_iff
    m.parameters m'.parameters
  simp [toDocument, agrees_object_cons, agrees_object_singleton, shown, hreturns, hparameters,
    Position.agrees_toDocument_iff]

theorem Interface.agrees_toDocument_iff (i i' : Interface) :
    i.toDocument.Agrees i'.toDocument ↔ i.shown = i'.shown := by
  have hmethods := agrees_array_map Method.shown Method.agrees_toDocument_iff i.methods i'.methods
  simp [toDocument, agrees_object_cons, agrees_object_singleton, shown, hmethods,
    Position.agrees_toDocument_iff]

theorem Field.agrees_toDocument_iff (f f' : Field) :
    f.toDocument.Agrees f'.toDocument ↔ f.shown = f'.shown := by
  simp [toDocument, agrees_object_cons, agrees_object_singleton, shown,
    TypeExpr.agrees_toDocument_iff, Position.agrees_toDocument_iff]

theorem Struct.agrees_toDocument_iff (s s' : Struct) :
    s.toDocument.Agrees s'.toDocument ↔ s.shown = s'.shown := by
  have hfields := agrees_array_map Field.shown Field.agrees_toDocument_iff s.fields s'.fields
  simp [toDocument, agrees_object_cons, agrees_object_singleton, shown, hfields,
    Position.agrees_toDocument_iff]

theorem EnumValue.agrees_toDocument_iff (v v' : EnumValue) :
    v.toDocument.Agrees v'.toDocument ↔ v = v' := by
  obtain ⟨name, comment, pos⟩ := v
  obtain ⟨name', comment', pos'⟩ := v'
  simp [toDocument, agrees_object_cons, agrees_object_singleton, Position.agrees_toDocument_iff]

theorem Enum.agrees_toDocument_iff (e e' : Enum) :
    e.toDocument.Agrees e'.toDocument ↔ e = e' := by
  have hvalues := agrees_array_map id EnumValue.agrees_toDocument_iff e.values e'.values
  obtain ⟨name, ns, values, comment, pos⟩ := e
  obtain ⟨name', ns', values', comment', pos'⟩ := e'
  simp only [List.map_id] at hvalues
  simp [toDocument, agrees_object_cons, agrees_object_singleton, hvalues,
    Position.agrees_toDocument_iff]

/-- Two models have the same document exactly if they differ in nothing but the name of the file and
the positions of references. -/
theorem Model.document_determines (m m' : Model) :
    m.toDocument.Agrees m'.toDocument ↔ m.shown = m'.shown := by
  have hinterfaces := agrees_array_map Interface.shown Interface.agrees_toDocument_iff
    m.interfaces m'.interfaces
  have hstructs := agrees_array_map Struct.shown Struct.agrees_toDocument_iff m.structs m'.structs
  have henums := agrees_array_map id Enum.agrees_toDocument_iff m.enums m'.enums
  simp only [List.map_id] at henums
  simp [toDocument, agrees_object_cons, agrees_object_singleton, shown, hinterfaces, hstructs,
    henums]

end InterfaceLang
