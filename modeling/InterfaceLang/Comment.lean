import InterfaceLang.Text.Blank
import InterfaceLang.Text.Split

/-!
# Comments above declarations

A declaration owns the run of comment lines directly above its line. A comment line is one that
begins, after blanks, with two slashes; a blank line, a line of code and the line given as floor
end the run. Lines are counted from 1, and a line that the text does not have counts as blank.
Whoever asks for a comment by number gives line and floor as 64-bit words.

Results:
* `block_eq_nil_of_le`: nothing is collected at or above the floor.
* `aboveByNumber_of_lt`: a floor other than the largest word is the floor that is meant.
-/

namespace InterfaceLang.Comment

/-- The text of a comment line, trimmed. -/
def text? (line : List Char) : Option (List Char) :=
  match Text.trim line with
  | '/' :: '/' :: rest => some (Text.trim rest)
  | _ => none

/-- The line with the given number. -/
def lineAt (lines : List (List Char)) (n : Nat) : List Char :=
  lines.getD (n - 1) []

/-- The comment lines directly above line `n` and below the line `floor`, from top to bottom. -/
def block (lines : List (List Char)) (floor : Nat) : Nat → List (List Char)
  | 0 => []
  | n + 1 =>
    if n ≤ floor then []
    else
      match text? (lineAt lines n) with
      | some text => block lines floor n ++ [text]
      | none => []

/-- The comment of what stands on the given line, its lines joined by line feeds. -/
def above (lines : List (List Char)) (floor line : Nat) : String :=
  "\n".intercalate ((block lines floor line).map String.ofList)

/-- The comment of what stands on the line with the given number. The first line that may belong to
it has the number after the floor; after the largest word comes 0, so the largest word as a floor
leaves no line out. -/
def aboveByNumber (lines : List (List Char)) (floor line : UInt64) : String :=
  above lines ((floor + 1).toNat - 1) line.toNat

theorem block_eq_nil_of_le (lines : List (List Char)) {floor line : Nat} (h : line ≤ floor + 1) :
    block lines floor line = [] := by
  cases line with
  | zero => rfl
  | succ n => simp [block, Nat.le_of_succ_le_succ h]

theorem aboveByNumber_of_lt (lines : List (List Char)) {floor : UInt64} (line : UInt64)
    (h : floor.toNat + 1 < UInt64.size) :
    aboveByNumber lines floor line = above lines floor.toNat line.toNat := by
  have hsucc : (floor + 1).toNat = floor.toNat + 1 := by
    rw [UInt64.toNat_add, UInt64.toNat_one]
    exact Nat.mod_eq_of_lt h
  rw [aboveByNumber, hsucc, Nat.add_sub_cancel]

end InterfaceLang.Comment
