import Linewise.Proofs.Tokenizer.Progress

/-!
# The rest of a line

A line is scanned by one kind of step, again and again, until its end. From each scan on the way,
what is left of the line is scanned in the same manner, wherever that scan came from: this is the
*rest* of the line (`Scan.restBy`). A line is the rest from the scan with which it begins
(`Scan.line_eq_rest`), and the rest from one scan is its step and the rest behind it
(`Scan.restBy_of_step`).

The kind of step is left open, so that scans with other rules can be compared with `Scan.step`. All
that is asked of it is that it moves forward (`Scan.Forward`).

Two kinds of steps that differ only at some scans part there. In front of the first parting they are
in step, and behind the last one the first kind goes on as the second would. So they end a line
alike, in whatever respect, exactly if it makes no difference to the second kind from which of these
two scans it goes on (`Scan.onward_eq_iff`), and surely if none of the partings makes a difference
to it (`Scan.onward_of_harmless`).
-/

namespace Linewise

/-- The pass of a tokenizer over a text. -/
def Tokenizer.passOn (k : Tokenizer) (quick : Bool) (t : Text) : Pass := ⟨k.table, t, quick⟩

namespace Scan

variable {t : Text} {f : Scan → Scan × List Piece} {pass : Pass} {s : Scan}

/-- The rest of a line in a pass. -/
def rest (pass : Pass) (s : Scan) : Scan × List Piece := restBy pass.text (step pass) s

/-- **A line is the rest from where it begins.** -/
theorem line_eq_rest (pass : Pass) (root : Grammar) (c : Carry) :
    line pass root c = rest pass (start pass root c) := rfl

theorem restBy_eq (t : Text) (f : Scan → Scan × List Piece) (s : Scan) :
    restBy t f s =
      ((stepsBy t f t.size s).1,
        (stepsBy t f t.size s).2 ++ [(stepsBy t f t.size s).1.pendingPiece t t.size]) := rfl

/-- At the end of the line, all that is left is what is pending. -/
theorem restBy_of_size_le (h : t.size ≤ s.offset) :
    restBy t f s = (s, [s.pendingPiece t t.size]) := by
  rw [restBy_eq, stepsBy_of_size_le _ h, List.nil_append]

/-- **The rest from a scan is its step and the rest behind it.** -/
theorem restBy_of_step (hf : Forward t f) (hpending : s.pending ≤ s.offset)
    (hlt : s.offset < t.size) :
    restBy t f s = ((restBy t f (f s).1).1, (f s).2 ++ (restBy t f (f s).1).2) := by
  have hstep := hf s hpending hlt
  have hlt' := hstep.offset_lt
  obtain ⟨n, hn⟩ : ∃ n, t.size = n + 1 := ⟨t.size - 1, by omega⟩
  have hsteps : stepsBy t f t.size s =
      ((stepsBy t f t.size (f s).1).1, (f s).2 ++ (stepsBy t f t.size (f s).1).2) := by
    have henough := stepsBy_of_enough hf n 1 hstep.pending_le (show t.size ≤ _ by omega)
    rw [hn, stepsBy_succ n hlt, henough]
  rw [restBy_eq, restBy_eq, hsteps, List.append_assoc]

/-- What holds at the end of a line, and of each scan if it holds of all that are further on, holds
of every scan in the line. -/
@[elab_as_elim]
theorem ahead_induction {motive : (s : Scan) → s.offset ≤ t.size → Prop}
    (done : ∀ s hle, s.offset = t.size → motive s hle)
    (step : ∀ s hle, s.offset < t.size →
      (∀ s' hle', s.offset < s'.offset → motive s' hle') → motive s hle)
    (s : Scan) (hle : s.offset ≤ t.size) : motive s hle := by
  induction hn : t.size - s.offset using Nat.strong_induction_on generalizing s with
  | _ n ih =>
    rcases Nat.eq_or_lt_of_le hle with hend | hlt
    · exact done s hle hend
    · exact step s hle hlt fun s' hle' hlt' => ih (t.size - s'.offset) (by omega) s' hle' rfl

/-! ## Two kinds of steps -/

/-- A scan that has cut off pieces goes on to the end of the line. -/
def onward (t : Text) (f : Scan → Scan × List Piece) (p : Scan × List Piece) : Scan × List Piece :=
  ((restBy t f p.1).1, p.2 ++ (restBy t f p.1).2)

/-- One step of a scan that has cut off pieces. -/
def next (f : Scan → Scan × List Piece) (p : Scan × List Piece) : Scan × List Piece :=
  ((f p.1).1, p.2 ++ (f p.1).2)

/-- The partings within at most `n` steps of the kind `f`: where the scan stands before the step,
and where it stands behind it. -/
def partings (t : Text) (f : Scan → Scan × List Piece) (parts : Scan → Bool) :
    Nat → Scan × List Piece → List ((Scan × List Piece) × (Scan × List Piece))
  | 0, _ => []
  | n + 1, p =>
    if t.size ≤ p.1.offset then []
    else if parts p.1 then (p, next f p) :: partings t f parts n (next f p)
    else partings t f parts n (next f p)

/-- Going on from behind a step ends as going on from in front of it. -/
theorem onward_next (hf : Forward t f) {p : Scan × List Piece} (hpending : p.1.pending ≤ p.1.offset)
    (hlt : p.1.offset < t.size) : onward t f (next f p) = onward t f p := by
  have hrest := restBy_of_step hf hpending hlt
  rw [onward, onward, hrest, next]
  simp only [List.append_assoc]

/-- Where the two kinds of steps never part, there are no partings. -/
theorem partings_eq_nil {parts : Scan → Bool} {P : Scan → Prop}
    (h : ∀ s : Scan, P s → s.offset < t.size → parts s = false ∧ P (f s).1) (n : Nat)
    {p : Scan × List Piece} (hp : P p.1) : partings t f parts n p = [] := by
  induction n generalizing p with
  | zero => rfl
  | succ n ih =>
    rw [partings]
    by_cases hend : t.size ≤ p.1.offset
    · rw [if_pos hend]
    · obtain ⟨hparts, hnext⟩ := h p.1 hp (Nat.lt_of_not_le hend)
      rw [if_neg hend, hparts, if_neg Bool.false_ne_true]
      exact ih (p := next f p) hnext

section Partings

variable {g : Scan → Scan × List Piece} {parts : Scan → Bool} (hf : Forward t f) (hg : Forward t g)
  (hsame : ∀ s : Scan, s.pending ≤ s.offset → s.offset < t.size → parts s = false → g s = f s)
include hf hg hsame

omit hf in
/-- Where the two kinds of steps do not part, they go on alike. -/
theorem onward_of_same {p : Scan × List Piece} (hpending : p.1.pending ≤ p.1.offset)
    (hlt : p.1.offset < t.size) (h : parts p.1 = false) :
    onward t g (next f p) = onward t g p := by
  have hnext := onward_next hg hpending hlt
  rw [next, hsame p.1 hpending hlt h] at hnext
  exact hnext

/-- In front of the first parting, the second kind is in step. -/
theorem onward_head? (n : Nat) {p : Scan × List Piece} (hpending : p.1.pending ≤ p.1.offset) :
    onward t g p = onward t g ((partings t f parts n p).head?.elim p Prod.fst) := by
  induction n generalizing p with
  | zero => rfl
  | succ n ih =>
    rw [partings]
    by_cases hend : t.size ≤ p.1.offset
    · rw [if_pos hend]
      rfl
    rw [if_neg hend]
    have hlt : p.1.offset < t.size := Nat.lt_of_not_le hend
    by_cases hparts : parts p.1 = true
    · rw [if_pos hparts]
      rfl
    · have hsame := onward_of_same hg hsame hpending hlt (Bool.eq_false_iff.mpr hparts)
      have hrest := ih (p := next f p) (hf p.1 hpending hlt).pending_le
      rw [if_neg hparts]
      cases hhead : (partings t f parts n (next f p)).head? with
      | none => rfl
      | some first =>
        rw [hhead] at hrest
        rw [← hsame]
        exact hrest

/-- Behind the last parting, the first kind goes on like the second. -/
theorem onward_getLast? (n : Nat) {p : Scan × List Piece} (hpending : p.1.pending ≤ p.1.offset)
    (hn : t.size ≤ p.1.offset + n) :
    onward t f p = onward t g ((partings t f parts n p).getLast?.elim p Prod.snd) := by
  induction n generalizing p with
  | zero =>
    rw [onward, restBy_of_size_le hn]
    exact congrArg (fun rest => (rest.1, p.2 ++ rest.2)) (restBy_of_size_le hn).symm
  | succ n ih =>
    rw [partings]
    by_cases hend : t.size ≤ p.1.offset
    · rw [if_pos hend, onward, restBy_of_size_le hend]
      exact congrArg (fun rest => (rest.1, p.2 ++ rest.2)) (restBy_of_size_le hend).symm
    rw [if_neg hend]
    have hlt : p.1.offset < t.size := Nat.lt_of_not_le hend
    have hstep := hf p.1 hpending hlt
    have hlt' : p.1.offset < (next f p).1.offset := hstep.offset_lt
    rw [← onward_next hf hpending hlt, ih (p := next f p) hstep.pending_le (by omega)]
    by_cases hparts : parts p.1 = true
    · rw [if_pos hparts, List.getLast?_cons]
      cases (partings t f parts n (next f p)).getLast? with
      | none => rfl
      | some last => rfl
    · have hsame := onward_of_same hg hsame hpending hlt (Bool.eq_false_iff.mpr hparts)
      rw [if_neg hparts]
      cases (partings t f parts n (next f p)).getLast? with
      | none => exact hsame
      | some last => rfl

/-- If no parting makes a difference to the second kind, the first kind ends like it. -/
theorem onward_of_harmless {α : Type} (view : Scan × List Piece → α) (n : Nat)
    {p : Scan × List Piece} (hpending : p.1.pending ≤ p.1.offset) (hn : t.size ≤ p.1.offset + n)
    (hharmless : ∀ q ∈ partings t f parts n p, view (onward t g q.1) = view (onward t g q.2)) :
    view (onward t f p) = view (onward t g p) := by
  induction n generalizing p with
  | zero =>
    rw [onward, onward, restBy_of_size_le hn, restBy_of_size_le hn]
  | succ n ih =>
    rw [partings] at hharmless
    by_cases hend : t.size ≤ p.1.offset
    · rw [onward, onward, restBy_of_size_le hend, restBy_of_size_le hend]
    rw [if_neg hend] at hharmless
    have hlt : p.1.offset < t.size := Nat.lt_of_not_le hend
    have hstep := hf p.1 hpending hlt
    have hlt' : p.1.offset < (next f p).1.offset := hstep.offset_lt
    have hrest := ih (p := next f p) hstep.pending_le (by omega)
    rw [← onward_next hf hpending hlt]
    by_cases hparts : parts p.1 = true
    · rw [if_pos hparts] at hharmless
      have hbehind := hrest fun q hq => hharmless q (List.mem_cons_of_mem _ hq)
      exact hbehind.trans (hharmless _ List.mem_cons_self).symm
    · rw [if_neg hparts] at hharmless
      rw [hrest hharmless, onward_of_same hg hsame hpending hlt (Bool.eq_false_iff.mpr hparts)]

/-- **Two kinds of steps end a line alike exactly if it makes no difference to the second whether it
goes on from in front of the first parting or from behind the last one.** -/
theorem onward_eq_iff {α : Type} (view : Scan × List Piece → α) {p : Scan × List Piece}
    (hpending : p.1.pending ≤ p.1.offset) :
    view (onward t g p) = view (onward t f p) ↔
      ∀ first last, (partings t f parts t.size p).head? = some first →
        (partings t f parts t.size p).getLast? = some last →
        view (onward t g first.1) = view (onward t g last.2) := by
  rw [onward_head? hf hg hsame t.size hpending,
    onward_getLast? hf hg hsame t.size hpending (Nat.le_add_left _ _)]
  cases hlist : partings t f parts t.size p with
  | nil => simp
  | cons first rest =>
    obtain ⟨last, hlast⟩ : ∃ last, (first :: rest).getLast? = some last := ⟨_, List.getLast?_cons⟩
    rw [hlast]
    constructor
    · intro h first' last' hfirst hlast'
      cases hfirst
      cases hlast'
      exact h
    · exact fun h => h first last rfl rfl

end Partings

end Scan
end Linewise
