/-!
# Splitting a text at a separator

`pieces sep cs` are the parts of `cs` between the occurrences of `sep`; there is always at least
one. Lines are the pieces between line feeds, path segments those between slashes.

Results:
* `not_mem_of_mem_pieces`: no piece holds the separator.
* `pieces_intercalate`: pieces without the separator are found again.
-/

namespace InterfaceLang.Text

/-- Adds a character to the front of the first piece. -/
def consFirst (c : Char) : List (List Char) → List (List Char)
  | [] => [[c]]
  | p :: ps => (c :: p) :: ps

/-- The parts of a text between the occurrences of `sep`. -/
def pieces (sep : Char) : List Char → List (List Char)
  | [] => [[]]
  | c :: cs => if c = sep then [] :: pieces sep cs else consFirst c (pieces sep cs)

/-- The lines of a text, without their line feeds. -/
def lines (cs : List Char) : List (List Char) :=
  pieces '\n' cs

theorem pieces_ne_nil (sep : Char) (cs : List Char) : pieces sep cs ≠ [] := by
  cases cs with
  | nil => simp [pieces]
  | cons c cs =>
    rw [pieces]
    split
    · simp
    · cases pieces sep cs <;> simp [consFirst]

theorem not_mem_of_mem_pieces {sep : Char} {cs p : List Char} (h : p ∈ pieces sep cs) :
    sep ∉ p := by
  induction cs generalizing p with
  | nil => simp_all [pieces]
  | cons c cs ih =>
    rw [pieces] at h
    split at h
    · rcases List.mem_cons.1 h with rfl | h
      · simp
      · exact ih h
    · next hc =>
      match hp : pieces sep cs with
      | [] => exact absurd hp (pieces_ne_nil sep cs)
      | q :: qs =>
        rw [hp] at h ih
        rcases List.mem_cons.1 h with rfl | h
        · simp [Ne.symm hc, ih List.mem_cons_self]
        · exact ih (List.mem_cons_of_mem _ h)

/-- A text without the separator is its only piece. -/
theorem pieces_of_not_mem {sep : Char} {p : List Char} (h : sep ∉ p) : pieces sep p = [p] := by
  induction p with
  | nil => rfl
  | cons c p ih =>
    rw [List.mem_cons, not_or] at h
    rw [pieces, if_neg (Ne.symm h.1), ih h.2]
    rfl

/-- The first piece ends at the first separator. -/
theorem pieces_append_cons {sep : Char} {p : List Char} (h : sep ∉ p) (cs : List Char) :
    pieces sep (p ++ sep :: cs) = p :: pieces sep cs := by
  induction p with
  | nil => simp [pieces]
  | cons c p ih =>
    rw [List.mem_cons, not_or] at h
    rw [List.cons_append, pieces, if_neg (Ne.symm h.1), ih h.2]
    rfl

theorem pieces_intercalate {sep : Char} {ps : List (List Char)} (hne : ps ≠ [])
    (h : ∀ p ∈ ps, sep ∉ p) : pieces sep ([sep].intercalate ps) = ps := by
  induction ps with
  | nil => exact absurd rfl hne
  | cons p ps ih =>
    have hp := h p List.mem_cons_self
    cases ps with
    | nil => simpa [List.intercalate] using pieces_of_not_mem hp
    | cons q qs =>
      have hcons : [sep].intercalate (p :: q :: qs) = p ++ sep :: [sep].intercalate (q :: qs) := by
        simp [List.intercalate, List.intersperse]
      rw [hcons, pieces_append_cons hp, ih (by simp) fun r hr => h r (List.mem_cons_of_mem _ hr)]

end InterfaceLang.Text
