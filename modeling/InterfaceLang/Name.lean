/-!
# Names

An identifier is a letter followed by letters, digits and underscores, all of ASCII. A qualified
name is a namespace, a dot and a bare name; `base` and `qualifier` split a name at its last dot.

Results:
* `base_qualify`: qualifying a name without dots leaves its last segment.
* `qualifier_qualify`: and the namespace is what stands before it.
-/

namespace InterfaceLang.Name

/-- A character that may begin an identifier. -/
def isLetter (c : Char) : Bool :=
  c.isAlpha

/-- A character that may continue an identifier. -/
def isWordChar (c : Char) : Bool :=
  c.isAlphanum || c = '_'

theorem isLetter_iff {c : Char} :
    isLetter c = true ↔ 65 ≤ c.toNat ∧ c.toNat ≤ 90 ∨ 97 ≤ c.toNat ∧ c.toNat ≤ 122 := by
  show (decide (c.val ≥ 'A'.val ∧ c.val ≤ 'Z'.val) ||
    (decide (c.val ≥ 'a'.val) && decide (c.val ≤ 'z'.val))) = true ↔ _
  simp [UInt32.le_iff_toNat_le]

theorem isWordChar_iff {c : Char} :
    isWordChar c = true ↔ isLetter c = true ∨ 48 ≤ c.toNat ∧ c.toNat ≤ 57 ∨ c = '_' := by
  show ((isLetter c || (decide (c.val ≥ '0'.val) && decide (c.val ≤ '9'.val))) ||
    decide (c = '_')) = true ↔ _
  simp [UInt32.le_iff_toNat_le, or_assoc]

/-- The identifier rule, on characters. -/
def isWord : List Char → Bool
  | [] => false
  | c :: cs => isLetter c && cs.all isWordChar

/-- The identifier rule. -/
def isIdentifier (name : String) : Bool :=
  isWord name.toList

/-- The last segment of a qualified name. -/
def base (name : String) : String :=
  String.ofList (name.toList.reverse.takeWhile (· ≠ '.')).reverse

/-- What stands before the last dot of a name, empty for a bare name. -/
def qualifier (name : String) : String :=
  String.ofList ((name.toList.reverse.dropWhile (· ≠ '.')).drop 1).reverse

/-- Puts a namespace in front of a name; the empty namespace changes nothing. -/
def qualify (ns name : String) : String :=
  if ns = "" then name else ns ++ "." ++ name

@[simp]
theorem qualify_empty (name : String) : qualify "" name = name := rfl

theorem toList_qualify {ns : String} (h : ns ≠ "") (name : String) :
    (qualify ns name).toList = ns.toList ++ '.' :: name.toList := by
  simp [qualify, h]

theorem takeWhile_reverse_of_not_mem {cs : List Char} (h : '.' ∉ cs) (ds : List Char) :
    (cs.reverse ++ '.' :: ds).takeWhile (· ≠ '.') = cs.reverse := by
  rw [List.takeWhile_append_of_pos (by simp; rintro _ hc rfl; exact h hc)]
  simp

theorem dropWhile_reverse_of_not_mem {cs : List Char} (h : '.' ∉ cs) (ds : List Char) :
    (cs.reverse ++ '.' :: ds).dropWhile (· ≠ '.') = '.' :: ds := by
  rw [List.dropWhile_append_of_pos (by simp; rintro _ hc rfl; exact h hc)]
  simp

theorem base_qualify {ns name : String} (hns : ns ≠ "") (h : '.' ∉ name.toList) :
    base (qualify ns name) = name := by
  rw [base, toList_qualify hns, List.reverse_append, List.reverse_cons, List.append_assoc]
  rw [List.singleton_append, takeWhile_reverse_of_not_mem h]
  simp

theorem qualifier_qualify {ns name : String} (hns : ns ≠ "") (h : '.' ∉ name.toList) :
    qualifier (qualify ns name) = ns := by
  rw [qualifier, toList_qualify hns, List.reverse_append, List.reverse_cons, List.append_assoc]
  rw [List.singleton_append, dropWhile_reverse_of_not_mem h]
  simp

end InterfaceLang.Name
