import InterfaceLang.Proofs.Comment.Run

/-!
# Scanning for a comment by line numbers

Whoever asks for a comment by number gives the line and the floor as 64-bit words. The lines are
then looked at from the bottom to the top, and the texts are turned around at the end. Here every
number on the way is checked: there is no word after the largest one and none before zero. With a
floor that has a word after it the scan never needs a word that does not exist, however far the line
lies behind the end of the text, and what it collects is the longest run of comment lines above the
line.

A carriage return in front of a line feed is a blank at the end of its line, and the piece after the
last line feed is a line even if it is empty. Comment lines are trimmed and blank lines hold no
comment, so neither is seen.

Results:
* `scan?_eq_some`: the scan ends without leaving the words, with the run in reverse order.
* `aboveByNumber_run`: the comment of a line is the longest run above it, and a higher floor only
  takes lines from its top.
-/

namespace InterfaceLang.Comment

/-! ## Checked words -/

/-- The word after `n`, if there is one. -/
def succ? (n : UInt64) : Option UInt64 :=
  if n.toNat + 1 < UInt64.size then some (n + 1) else none

/-- The word before `n`, if there is one. -/
def pred? (n : UInt64) : Option UInt64 :=
  if n = 0 then none else some (n - 1)

theorem exists_succ? {n : UInt64} (h : n.toNat + 1 < UInt64.size) :
    ∃ k, succ? n = some k ∧ k.toNat = n.toNat + 1 := by
  refine ⟨n + 1, if_pos h, ?_⟩
  rw [UInt64.toNat_add, UInt64.toNat_one]
  exact Nat.mod_eq_of_lt h

theorem toNat_of_pred? {n k : UInt64} (h : pred? n = some k) : k.toNat + 1 = n.toNat := by
  unfold pred? at h
  split at h
  · cases h
  · next hzero =>
    cases h
    have hpos : 1 ≤ n.toNat :=
      Nat.one_le_iff_ne_zero.2 fun hn => hzero (UInt64.toNat_inj.1 (by simpa using hn))
    have hle : (1 : UInt64) ≤ n := by simpa [UInt64.le_iff_toNat_le] using hpos
    rw [UInt64.toNat_sub_of_le _ _ hle, UInt64.toNat_one]
    omega

theorem exists_pred? {n : UInt64} (h : 0 < n.toNat) : ∃ k, pred? n = some k := by
  refine ⟨n - 1, if_neg fun hzero => ?_⟩
  rw [hzero] at h
  cases h

/-! ## The scan -/

/-- Looks at the lines above `line` from the bottom to the top, as long as they are comment lines
below the floor, and adds their texts to those collected so far. There is no result if a number on
the way is not a word. -/
def scan? (lines : List (List Char)) (floor line : UInt64) (collected : List (List Char)) :
    Option (List (List Char)) :=
  match succ? floor with
  | none => none
  | some first =>
    if first < line then
      match _h : pred? line with
      | none => none
      | some current =>
        match pred? current with
        | none => none
        | some index =>
          match text? (lines.getD index.toNat []) with
          | some text => scan? lines floor current (collected ++ [text])
          | none => some collected
    else some collected
termination_by line.toNat
decreasing_by
  have hline := toNat_of_pred? _h
  omega

/-- The scan ends without leaving the words. What it adds are the comment lines directly above the
line, from the bottom to the top. -/
theorem scan?_eq_some {lines : List (List Char)} {floor : UInt64}
    (hfloor : floor.toNat + 1 < UInt64.size) (line : UInt64) (collected : List (List Char)) :
    scan? lines floor line collected =
      some (collected ++ (block lines floor.toNat line.toNat).reverse) := by
  obtain ⟨first, hfirst, hnext⟩ := exists_succ? hfloor
  -- the scan goes up, so the induction is on the line from which it starts
  induction hn : line.toNat generalizing line collected with
  | zero =>
    have hstop : ¬first < line := by
      rw [UInt64.lt_iff_toNat_lt]
      omega
    rw [scan?, hfirst]
    simp [hstop, block]
  | succ n ih =>
    by_cases hgo : first < line
    · have hlt := UInt64.lt_iff_toNat_lt.1 hgo
      obtain ⟨current, hcurrent⟩ := exists_pred? (n := line) (by omega)
      have hprev := toNat_of_pred? hcurrent
      obtain ⟨index, hindex⟩ := exists_pred? (n := current) (by omega)
      have hat : lines.getD index.toNat [] = lineAt lines n := by
        have hbefore := toNat_of_pred? hindex
        rw [lineAt]
        congr 1
        omega
      rw [scan?, hfirst]
      simp only [if_pos hgo]
      split
      · next hnone =>
        rw [hcurrent] at hnone
        cases hnone
      · next current' hcurrent' =>
        rw [hcurrent] at hcurrent'
        cases hcurrent'
        simp only [hindex, hat]
        rw [block, if_neg (show ¬n ≤ floor.toNat by omega)]
        cases htext : text? (lineAt lines n) with
        | none => simp
        | some text =>
          have hrest := ih current (collected ++ [text]) (by omega)
          simpa using hrest
    · have hle : n + 1 ≤ floor.toNat + 1 := by
        have hge := mt UInt64.lt_iff_toNat_lt.2 hgo
        omega
      rw [scan?, hfirst, block_eq_nil_of_le lines hle]
      simp [hgo]

/-! ## Comments by number -/

/-- The comment of a line, asked for by number, is made of the longest run of comment lines that
ends directly above the line and stays below the floor, from top to bottom. The scan that collects
it ends, and every number on its way is a word. A higher floor only takes lines from the top. -/
theorem aboveByNumber_run (source : String) {floor : UInt64}
    (hfloor : floor.toNat + 1 < UInt64.size) (line : UInt64) :
    ∃ texts top,
      IsRun (fun n => text? (lineAt (Text.lines source.toList) n)) floor.toNat line.toNat texts
        top ∧
      scan? (Text.lines source.toList) floor line [] = some texts.reverse ∧
      aboveByNumber (Text.lines source.toList) floor line =
        "\n".intercalate (texts.map String.ofList) ∧
      ∀ floor' : UInt64, floor ≤ floor' → floor'.toNat + 1 < UInt64.size →
        ∃ removed kept, texts = removed ++ kept ∧
          scan? (Text.lines source.toList) floor' line [] = some kept.reverse ∧
          aboveByNumber (Text.lines source.toList) floor' line =
            "\n".intercalate (kept.map String.ofList) := by
  have hresult : ∀ n : UInt64, n.toNat + 1 < UInt64.size →
      scan? (Text.lines source.toList) n line [] =
          some (block (Text.lines source.toList) n.toNat line.toNat).reverse ∧
        aboveByNumber (Text.lines source.toList) n line = "\n".intercalate
          ((block (Text.lines source.toList) n.toNat line.toNat).map String.ofList) := by
    intro n hn
    exact ⟨scan?_eq_some hn line [], aboveByNumber_of_lt _ line hn⟩
  obtain ⟨top, hrun⟩ := isRun_block (Text.lines source.toList) floor.toNat line.toNat
  refine ⟨_, top, hrun, (hresult floor hfloor).1, (hresult floor hfloor).2,
    fun floor' hle hfloor' => ?_⟩
  obtain ⟨top', hrun'⟩ := isRun_block (Text.lines source.toList) floor'.toNat line.toNat
  obtain ⟨removed, hsplit⟩ := hrun.suffix_of_le hrun' (UInt64.le_iff_toNat_le.1 hle)
  exact ⟨removed, _, hsplit.symm, hresult floor' hfloor'⟩

/-- Three comment lines above a struct: of a higher floor only the last one is left. -/
theorem aboveByNumber_run_of_title :
    ∃ (source : String) (texts : List (List Char)) (top : Nat),
      source = "// title\n//\n  // body \r\nstruct S \x7b \x7d" ∧
      IsRun (fun n => text? (lineAt (Text.lines source.toList) n)) 0 4 texts top ∧
      texts.map String.ofList = ["title", "", "body"] ∧
      aboveByNumber (Text.lines source.toList) 0 4 = "title\n\nbody" ∧
      aboveByNumber (Text.lines source.toList) 2 4 = "body" := by
  obtain ⟨source, hsource⟩ : ∃ source : String,
    source = "// title\n//\n  // body \r\nstruct S \x7b \x7d" := ⟨_, rfl⟩
  obtain ⟨texts, top, hrun, hscan, habove, hraise⟩ :=
    aboveByNumber_run source (show (0 : UInt64).toNat + 1 < UInt64.size by decide) 4
  obtain ⟨removed, kept, hsplit, hscan', habove'⟩ := hraise 2 (by decide) (by decide)
  have htexts : texts.map String.ofList = ["title", "", "body"] := by
    have hblock := (scan?_eq_some (by decide) 4 []).symm.trans hscan
    rw [← List.reverse_inj.1 (Option.some.inj hblock), hsource]
    decide +kernel
  have hkept : kept.map String.ofList = ["body"] := by
    have hblock := (scan?_eq_some (by decide) 4 []).symm.trans hscan'
    rw [← List.reverse_inj.1 (Option.some.inj hblock), hsource]
    decide +kernel
  refine ⟨source, texts, top, hsource, hrun, htexts, ?_, ?_⟩
  · rw [habove, htexts]
    rfl
  · rw [habove', hkept]
    rfl

end InterfaceLang.Comment
