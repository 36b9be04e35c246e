import Linewise.Regex.Basic

/-!
# Boundaries stay in the text

The boundaries that are made of a match are among the end of the match, the ends of its captures and
the offset (`mem_boundariesAfter`). An automaton answers matches that lie between the offset and the
end of the text, so the boundaries of a regular expression do so as well
(`le_size_of_boundariesAt?`).
-/

namespace Linewise
namespace Regex

variable {t : Text} {offset : Nat}

/-- A boundary is where the match ends, the place the boundaries began with, or where a capture
ends. -/
theorem mem_boundariesAfter {stop last b : Nat} {closes : List (Option Nat)}
    (h : b ∈ boundariesAfter stop last closes) : b = stop ∨ b = last ∨ some b ∈ closes := by
  induction closes generalizing last with
  | nil =>
    rw [boundariesAfter, List.mem_singleton] at h
    omega
  | cons close closes ih =>
    rw [boundariesAfter, List.mem_cons] at h
    have hcases : b = stop ∨ b = max (close.getD last) last ∨ some b ∈ closes :=
      h.elim (fun hfirst => Or.inr (Or.inl hfirst)) ih
    rcases hcases with hstop | hfirst | hmem
    · exact Or.inl hstop
    · -- the boundary of the first capture is the place before it, or the end of the capture
      cases close with
      | none => exact Or.inr (Or.inl (hfirst.trans (Nat.max_self last)))
      | some place =>
        rcases Nat.le_total place last with hle | hle
        · exact Or.inr (Or.inl (hfirst.trans (Nat.max_eq_right hle)))
        · rw [hfirst.trans (Nat.max_eq_left hle)]
          exact Or.inr (Or.inr List.mem_cons_self)
    · exact Or.inr (Or.inr (List.mem_cons_of_mem _ hmem))

/-- The boundaries of a match that lies between the offset and the end of the text do so, too. -/
theorem Found.Between.mem_boundaries {found : Found} (h : found.Between t offset)
    (hle : offset ≤ t.size) {b : Nat} (hb : b ∈ boundariesAfter found.stop offset found.closes) :
    offset ≤ b ∧ b ≤ t.size := by
  rcases mem_boundariesAfter hb with rfl | rfl | hclose
  · exact ⟨h.offset_le, h.le_size⟩
  · exact ⟨Nat.le_refl _, hle⟩
  · exact h.closes b hclose

/-- Boundaries are made of a match, and only from an offset in the text. -/
theorem exists_of_boundariesAt? {m : Matcher} {bounds : List Nat}
    (h : m.boundariesAt? t offset = some bounds) :
    offset ≤ t.size ∧ ∃ found, m.matchAt? t offset = some found ∧
      boundariesAfter found.stop offset found.closes = bounds := by
  unfold Matcher.boundariesAt? at h
  split at h
  · cases h
  · next hlt => exact ⟨Nat.le_of_not_lt hlt, Option.map_eq_some_iff.mp h⟩

/-- **The boundaries of a match lie in the text.** -/
theorem le_size_of_boundariesAt? {r : Regex} {bounds : List Nat}
    (h : r.boundariesAt? t offset = some bounds) : ∀ b ∈ bounds, b ≤ t.size := by
  obtain ⟨hle, found, hfound, rfl⟩ := exists_of_boundariesAt? h
  have hbetween : found.Between t offset := r.automaton.reliable.between hle hfound
  exact fun b hb => (hbetween.mem_boundaries hle hb).2

end Regex
end Linewise
