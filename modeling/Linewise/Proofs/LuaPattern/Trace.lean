import Linewise.Proofs.LuaPattern.Turn

/-!
# Turn after turn

`run` answers how a match ends and gives up after a number of turns. Whether a match ends at all is
asked of the single turns: `stateAfter cfg n s` is the state after `n` turns, if the match has not
ended by then, and `EndsWithin` says that it has. Once a match has ended, a greater limit on the
number of turns does not change its answer (`run_of_endsWithin`).

The one way in which a match can fail to end is named here as well. A frontier takes no character.
If the element that passes a frontier is repeated, and begins in front of that very frontier, then
the machine meets the frontier again at the same character: it *circles* (`Circles`).
-/

namespace Linewise
namespace LuaPattern

variable {cfg : Setting} {s s' : State} {m n : Nat}

/-- The state after `n` turns, if the match has not ended by then. -/
def stateAfter (cfg : Setting) : Nat → State → Option State
  | 0, s => some s
  | n + 1, s =>
    match step cfg s with
    | .next s' => stateAfter cfg n s'
    | .done _ => none

/-- The match ends within `n` turns. -/
def EndsWithin (cfg : Setting) (n : Nat) (s : State) : Prop := stateAfter cfg n s = none

/-- A turn passes a frontier without leaving the character, and goes back to an element that begins
in front of the frontier. -/
def Circles (cfg : Setting) (s : State) : Prop :=
  ∃ s' place met, step cfg s = .next s' ∧ s.frontier = some (place, met) ∧ s'.cursor ≤ place ∧
    s'.position = s.position

@[simp] theorem stateAfter_zero (cfg : Setting) (s : State) : stateAfter cfg 0 s = some s := rfl

theorem stateAfter_succ_of_next (h : step cfg s = .next s') (n : Nat) :
    stateAfter cfg (n + 1) s = stateAfter cfg n s' := by
  rw [stateAfter, h]

theorem stateAfter_succ_of_done {verdict : Verdict} (h : step cfg s = .done verdict) (n : Nat) :
    stateAfter cfg (n + 1) s = none := by
  rw [stateAfter, h]

/-- Turns can be taken in two portions. -/
theorem stateAfter_add (h : stateAfter cfg m s = some s') (n : Nat) :
    stateAfter cfg (m + n) s = stateAfter cfg n s' := by
  induction m generalizing s with
  | zero =>
    cases h
    rw [Nat.zero_add]
  | succ m ih =>
    cases hstep : step cfg s with
    | next t =>
      rw [stateAfter_succ_of_next hstep] at h
      rw [show m + 1 + n = m + n + 1 by omega, stateAfter_succ_of_next hstep]
      exact ih h
    | done verdict =>
      rw [stateAfter_succ_of_done hstep] at h
      cases h

/-- What every turn keeps holds of every state of a match. -/
theorem stateAfter_induction {P : State → Prop}
    (hturn : ∀ s s', P s → step cfg s = .next s' → P s') (h : P s)
    (hn : stateAfter cfg n s = some s') : P s' := by
  induction n generalizing s with
  | zero =>
    cases hn
    exact h
  | succ n ih =>
    cases hstep : step cfg s with
    | next t =>
      rw [stateAfter_succ_of_next hstep] at hn
      exact ih (hturn s t h hstep) hn
    | done verdict =>
      rw [stateAfter_succ_of_done hstep] at hn
      cases hn

/-- A match that has ended has ended for good. -/
theorem EndsWithin.mono (h : EndsWithin cfg m s) (hle : m ≤ n) : EndsWithin cfg n s := by
  rw [EndsWithin] at h ⊢
  induction m generalizing n s with
  | zero => cases h
  | succ m ih =>
    obtain ⟨n, rfl⟩ : ∃ k, n = k + 1 := ⟨n - 1, by omega⟩
    cases hstep : step cfg s with
    | next t =>
      rw [stateAfter_succ_of_next hstep] at h ⊢
      exact ih h (Nat.le_of_succ_le_succ hle)
    | done verdict => exact stateAfter_succ_of_done hstep n

/-- What holds of the states up to the end of a match holds of all of them. -/
theorem forall_stateAfter {P : State → Prop} (hends : EndsWithin cfg m s)
    (h : ∀ n < m, ∀ s' ∈ stateAfter cfg n s, P s') :
    ∀ n s', stateAfter cfg n s = some s' → P s' := by
  intro n s' hn
  refine h n (Nat.lt_of_not_le fun hle => ?_) s' hn
  have hnone : stateAfter cfg n s = none := hends.mono hle
  rw [hn] at hnone
  cases hnone

/-- **A match that ends has its answer**: no greater limit on the number of turns changes it. -/
theorem run_of_endsWithin (h : EndsWithin cfg m s) (hle : m ≤ n) :
    run cfg n s = run cfg m s := by
  rw [EndsWithin] at h
  induction m generalizing n s with
  | zero => cases h
  | succ m ih =>
    obtain ⟨n, rfl⟩ : ∃ k, n = k + 1 := ⟨n - 1, by omega⟩
    rw [run, run]
    cases hstep : step cfg s with
    | next t =>
      rw [stateAfter_succ_of_next hstep] at h
      exact ih h (Nat.le_of_succ_le_succ hle)
    | done verdict => rfl

/-! ## From state to state -/

/-- A match that stands in the first state comes to the second one. -/
def Leads (cfg : Setting) (s s' : State) : Prop := ∃ n, stateAfter cfg n s = some s'

theorem Leads.refl (cfg : Setting) (s : State) : Leads cfg s s := ⟨0, rfl⟩

theorem Leads.trans {t : State} (h : Leads cfg s s') (h' : Leads cfg s' t) : Leads cfg s t := by
  obtain ⟨m, hm⟩ := h
  obtain ⟨n, hn⟩ := h'
  exact ⟨m + n, (stateAfter_add hm n).trans hn⟩

theorem leads_of_step (h : step cfg s = .next s') : Leads cfg s s' :=
  ⟨1, stateAfter_succ_of_next h 0⟩

/-- A match that stands in the state comes to an end, with the given verdict. -/
def Concludes (cfg : Setting) (s : State) (verdict : Verdict) : Prop :=
  ∃ n, EndsWithin cfg n s ∧ run cfg n s = verdict

theorem concludes_of_step {verdict : Verdict} (h : step cfg s = .done verdict) :
    Concludes cfg s verdict :=
  ⟨1, stateAfter_succ_of_done h 0, by rw [run, h]⟩

theorem run_add (h : stateAfter cfg m s = some s') (n : Nat) :
    run cfg (m + n) s = run cfg n s' := by
  induction m generalizing s with
  | zero =>
    cases h
    rw [Nat.zero_add]
  | succ m ih =>
    rw [show m + 1 + n = m + n + 1 by omega, run]
    cases hstep : step cfg s with
    | next t =>
      rw [stateAfter_succ_of_next hstep] at h
      exact ih h
    | done verdict =>
      rw [stateAfter_succ_of_done hstep] at h
      cases h

/-- A verdict is that of every state on the way to it. -/
theorem Leads.concludes {verdict : Verdict} (h : Leads cfg s s')
    (hend : Concludes cfg s' verdict) : Concludes cfg s verdict := by
  obtain ⟨m, hm⟩ := h
  obtain ⟨n, hn, hrun⟩ := hend
  refine ⟨m + n, ?_, (run_add hm n).trans hrun⟩
  rw [EndsWithin, stateAfter_add hm]
  exact hn

/-- A match comes to one end alone. -/
theorem Concludes.unique {verdict verdict' : Verdict} (h : Concludes cfg s verdict)
    (h' : Concludes cfg s verdict') : verdict = verdict' := by
  obtain ⟨m, hm, rfl⟩ := h
  obtain ⟨n, hn, rfl⟩ := h'
  rw [← run_of_endsWithin hm (Nat.le_max_left m n), run_of_endsWithin hn (Nat.le_max_right m n)]

/-- A match that has accepted has ended. -/
theorem concludes_of_run {bounds : List Nat} (h : run cfg n s = .accept bounds) :
    Concludes cfg s (.accept bounds) := by
  refine ⟨n, ?_, h⟩
  induction n generalizing s with
  | zero => cases h
  | succ n ih =>
    rw [run] at h
    cases hstep : step cfg s with
    | next t =>
      rw [hstep] at h
      rw [EndsWithin, stateAfter_succ_of_next hstep]
      exact ih h
    | done verdict => exact stateAfter_succ_of_done hstep n

/-- The verdict of a match is that of every state that it comes to. -/
theorem Leads.concludes_of {verdict : Verdict} (h : Leads cfg s s')
    (hend : Concludes cfg s verdict) : Concludes cfg s' verdict := by
  obtain ⟨m, hm⟩ := h
  obtain ⟨n, hn, hrun⟩ := hend
  have hends : EndsWithin cfg n s' := by
    rw [EndsWithin, ← stateAfter_add hm]
    exact hn.mono (Nat.le_add_left n m)
  refine ⟨n, hends, ?_⟩
  rw [← run_add hm, run_of_endsWithin hn (Nat.le_add_left n m), hrun]

end LuaPattern
end Linewise
