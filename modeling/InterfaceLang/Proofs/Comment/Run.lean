import InterfaceLang.Comment

/-!
# Runs of comment lines

Whatever gives the text of a comment line by its number, the comment of a line is the longest run of
such lines that ends directly above it and stays below a floor. `IsRun` says so without going up
line by line.

Results:
* `IsRun.suffix_of_le`: a higher floor takes lines from the top of the run.
* `IsRun.unique`: a line has one such run.
* `isRun_block`: what is collected above a line is the run of the comment lines of the text.
-/

namespace InterfaceLang.Comment

/-- The lines from `top` up to the one above `line` have the given texts and lie below `floor`, and
the line above `top` does not go on this run. -/
structure IsRun {α : Type} (textOn? : Nat → Option α) (floor line : Nat) (texts : List α)
    (top : Nat) : Prop where
  ends : top + texts.length = line
  each : ∀ k text, texts[k]? = some text → floor < top + k ∧ textOn? (top + k) = some text
  longest : floor + 1 < top → textOn? (top - 1) = none

namespace IsRun

variable {α β : Type} {textOn? textOn?' : Nat → Option α} {floor floor' line top top' : Nat}
  {texts texts' : List α}

theorem nil (h : floor + 1 < line → textOn? (line - 1) = none) :
    IsRun textOn? floor line [] line where
  ends := rfl
  each := by simp
  longest := h

/-- One more line, directly below the run. -/
theorem concat {text : α} (h : IsRun textOn? floor line texts top) (hfloor : floor < line)
    (hline : textOn? line = some text) :
    IsRun textOn? floor (line + 1) (texts ++ [text]) top where
  ends := by
    have hends := h.ends
    simp only [List.length_append, List.length_singleton]
    omega
  each := by
    intro k text' hk
    have hends := h.ends
    by_cases hlt : k < texts.length
    · rw [List.getElem?_append_left hlt] at hk
      exact h.each k text' hk
    · rw [List.getElem?_append_right (by omega)] at hk
      obtain ⟨hzero, htext⟩ := List.getElem?_eq_some_iff.1 hk
      have hk' : top + k = line := by
        simp only [List.length_singleton] at hzero
        omega
      rw [hk']
      refine ⟨hfloor, ?_⟩
      rw [hline]
      simpa using htext
  longest := h.longest

/-- What is on the lines at or above the floor does not matter. -/
theorem congr (h : IsRun textOn? floor line texts top)
    (heq : ∀ n, floor < n → textOn? n = textOn?' n) : IsRun textOn?' floor line texts top where
  ends := h.ends
  each := by
    intro k text hk
    obtain ⟨hfloor, htext⟩ := h.each k text hk
    exact ⟨hfloor, (heq _ hfloor).symm.trans htext⟩
  longest := by
    intro htop
    rw [← heq _ (by omega)]
    exact h.longest htop

theorem map (f : α → β) (h : IsRun textOn? floor line texts top) :
    IsRun (fun n => (textOn? n).map f) floor line (texts.map f) top where
  ends := by
    rw [List.length_map]
    exact h.ends
  each := by
    intro k text hk
    rw [List.getElem?_map, Option.map_eq_some_iff] at hk
    obtain ⟨text', hk, rfl⟩ := hk
    obtain ⟨hfloor, htext⟩ := h.each k text' hk
    exact ⟨hfloor, by rw [htext, Option.map_some]⟩
  longest := by
    intro htop
    rw [h.longest htop, Option.map_none]

/-- With a higher floor a run begins at a lower line, or at the same. -/
theorem top_le (h : IsRun textOn? floor line texts top)
    (h' : IsRun textOn? floor' line texts' top') (hle : floor ≤ floor') : top ≤ top' := by
  refine Nat.le_of_not_lt fun hlt => ?_
  have hends := h.ends
  have hends' := h'.ends
  -- the line above `top` is on the other run, so it does not end the first one
  obtain ⟨text, htext⟩ : ∃ text, texts'[top - 1 - top']? = some text :=
    ⟨_, List.getElem?_eq_getElem (by omega)⟩
  obtain ⟨hfloor, hon⟩ := h'.each _ text htext
  have habove : top' + (top - 1 - top') = top - 1 := by omega
  rw [habove] at hfloor hon
  rw [h.longest (by omega)] at hon
  cases hon

/-- Raising the floor takes lines from the top of a run and no others. -/
theorem suffix_of_le (h : IsRun textOn? floor line texts top)
    (h' : IsRun textOn? floor' line texts' top') (hle : floor ≤ floor') : texts' <:+ texts := by
  have htop := h.top_le h' hle
  have hends := h.ends
  have hends' := h'.ends
  have hdrop : texts.drop (top' - top) = texts' := by
    have hlength : (texts.drop (top' - top)).length = texts'.length := by
      rw [List.length_drop]
      omega
    refine List.ext_getElem hlength fun k hk hk' => ?_
    have hon := (h.each (top' - top + k) _ (List.getElem?_eq_getElem (by omega))).2
    have hon' := (h'.each k _ (List.getElem?_eq_getElem hk')).2
    have hsame : top + (top' - top + k) = top' + k := by omega
    rw [hsame, hon'] at hon
    rw [List.getElem_drop]
    exact (Option.some.inj hon).symm
  rw [← hdrop]
  exact List.drop_suffix _ _

theorem unique (h : IsRun textOn? floor line texts top)
    (h' : IsRun textOn? floor line texts' top') : texts = texts' := by
  have hlonger := (h.suffix_of_le h' (Nat.le_refl _)).length_le
  exact (h'.suffix_of_le h (Nat.le_refl _)).eq_of_length_le hlonger

end IsRun

/-- What is collected above a line is the longest run of comment lines there. -/
theorem isRun_block (lines : List (List Char)) (floor line : Nat) :
    ∃ top, IsRun (fun n => text? (lineAt lines n)) floor line (block lines floor line) top := by
  induction line with
  | zero => exact ⟨0, .nil (by omega)⟩
  | succ n ih =>
    rw [block]
    by_cases hfloor : n ≤ floor
    · rw [if_pos hfloor]
      exact ⟨n + 1, .nil (by omega)⟩
    · rw [if_neg hfloor]
      cases htext : text? (lineAt lines n) with
      | none => exact ⟨n + 1, .nil fun _ => htext⟩
      | some text =>
        obtain ⟨top, htop⟩ := ih
        exact ⟨top, htop.concat (by omega) htext⟩

end InterfaceLang.Comment
