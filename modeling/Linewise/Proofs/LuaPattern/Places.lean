import Linewise.Proofs.LuaPattern.Turn
import Linewise.Proofs.Text.CharStart

/-!
# The places that a match remembers

A match remembers places in the text: where it stands, where it may return to, where it met a
frontier, and where it closed captures. It comes to a new place in one way alone, by an advance: to
the next character, or, right after a frontier, to the character at hand. So whatever holds of the
offset and is kept by advancing (`Places`) holds of every place that is ever remembered
(`Places.turns`), and of every boundary of the match (`Places.boundaries`).
-/

namespace Linewise
namespace LuaPattern

variable {cfg : Setting} {s s' : State} {P : Nat → Prop}

/-- Places in a text among which an advance stays. -/
structure Places (t : Text) (P : Nat → Prop) : Prop where
  /-- They lie in the text. -/
  le_size : ∀ p, P p → p ≤ t.size
  /-- An advance to the character at hand stays among them. -/
  here : ∀ p, P p → P (t.charStart p)
  /-- So does an advance to the next character. -/
  next : ∀ p, P p → p < t.size → P (t.charStart (p + 1))

/-- Every place that the machine remembers is one of `P`. -/
structure Remembers (P : Nat → Prop) (s : State) : Prop where
  /-- Where it stands. -/
  position : P s.position
  /-- Where it may return to. -/
  retry : ∀ point, s.retry = some point → P point
  /-- Where it met a frontier. -/
  met : ∀ place met, s.frontier = some (place, met) → P met
  /-- Where it closed captures. -/
  closes : ∀ close ∈ s.closes, P close

/-! ## One turn -/

theorem remembers_atStart {cursor offset : Nat} (h : P offset) :
    Remembers P (atStart cursor offset) :=
  ⟨h, by simp [atStart], by simp [atStart], by simp [atStart]⟩

theorem Remembers.skips (h : Remembers P s) (hskip : Skips cfg s s') : Remembers P s' := by
  cases hskip with
  | member => exact ⟨h.position, h.retry, h.met, h.closes⟩
  | openGroup => exact ⟨h.position, h.retry, h.met, h.closes⟩
  | openSet => exact ⟨h.position, h.retry, h.met, h.closes⟩
  | closeGroup =>
    refine ⟨h.position, h.retry, h.met, fun close hclose => ?_⟩
    rcases List.mem_append.mp hclose with hold | hnew
    · exact h.closes close hold
    · rw [List.mem_singleton.mp hnew]
      exact h.position
  | frontier =>
    refine ⟨h.position, h.retry, fun place met hsome => ?_, h.closes⟩
    obtain ⟨-, hmet⟩ := Prod.mk.inj (Option.some.inj hsome)
    rw [← hmet]
    exact h.position

theorem Remembers.completes {e : State} (h : Remembers P s) (he : Completes cfg s e) :
    Remembers P e := by
  cases he <;> exact ⟨h.position, h.retry, h.met, h.closes⟩

/-- Passing a frontier goes back to where it was met. If no advance is owed then, the machine stands
where it stood. -/
theorem Remembers.passes {p : State} (h : Remembers P s) (hp : Passes s p) :
    Remembers P p ∧ (p.rewound = false → p.position = s.position) := by
  cases hp with
  | free => exact ⟨h, fun _ => rfl⟩
  | held hsome =>
    exact ⟨⟨h.met _ _ hsome, h.retry, by simp, h.closes⟩, fun hfalse => absurd hfalse (by simp)⟩

theorem Remembers.quantify (h : Remembers P s) : Remembers P (quantify cfg s) := by
  obtain ⟨least, most, n, b, hq, -⟩ := quantify_eq cfg s
  rw [hq]
  exact ⟨h.position, h.retry, h.met, h.closes⟩

section

variable (hP : Places cfg.text P)
include hP

theorem Places.advance (h : Remembers P s)
    (hlt : s.rewound = false → s.position < cfg.text.size) : Remembers P (advance cfg s) := by
  refine ⟨?_, h.retry, h.met, h.closes⟩
  show P (cfg.text.charStart (if s.rewound then s.position else s.position + 1))
  split
  · exact hP.here _ h.position
  · next hrewound => exact hP.next _ h.position (hlt (by simpa using hrewound))

theorem Places.closing {e : State} (h : Remembers P e) (hpos : e.position < cfg.text.size)
    (hclose : Closes cfg e s') : Remembers P s' := by
  have htally : Remembers P (tally e) := ⟨h.position, h.retry, h.met, h.closes⟩
  -- what holds behind the frontier and the quantifier
  have behind : ∀ {p : State}, Passes (tally e) p → Remembers P (quantify cfg p) ∧
      ((quantify cfg p).rewound = false → (quantify cfg p).position < cfg.text.size) ∧
      p.position = (quantify cfg p).position ∧ p.retry = (quantify cfg p).retry := by
    intro p hp
    obtain ⟨hrem, hstay⟩ := htally.passes hp
    obtain ⟨least, most, n, b, hq, -⟩ := quantify_eq cfg p
    refine ⟨hrem.quantify, ?_, by rw [hq], by rw [hq]⟩
    rw [hq]
    intro hrewound
    show p.position < cfg.text.size
    rw [hstay hrewound]
    exact hpos
  cases hclose with
  | again hp hacc hlimit point hpoint =>
    obtain ⟨hrem, hlt, hposition, hretry⟩ := behind hp
    refine hP.advance ⟨hrem.position, fun place hplace => ?_, hrem.met, hrem.closes⟩ hlt
    rw [show point = some place from hplace] at hpoint
    rcases hpoint with hpoint | hpoint
    · rw [Option.some.inj hpoint, hposition]
      exact hrem.position
    · exact hrem.retry place (hretry ▸ hpoint.symm)
  | giveWay hp =>
    obtain ⟨hrem, hlt, -⟩ := behind hp
    exact hP.advance ⟨hrem.position, hrem.retry, hrem.met, hrem.closes⟩ hlt
  | taken hp =>
    obtain ⟨hrem, hlt, -⟩ := behind hp
    have hadv := hP.advance hrem hlt
    exact ⟨hadv.position, hadv.retry, hadv.met, hadv.closes⟩
  | left hp =>
    obtain ⟨hrem, -⟩ := behind hp
    exact ⟨hrem.position, hrem.retry, hrem.met, hrem.closes⟩

/-- **Every turn stays among the places.** -/
theorem Places.turns (h : Remembers P s) (hturn : Turns cfg s s') : Remembers P s' := by
  have hs : Remembers P { s with repeating := false } :=
    ⟨h.position, h.retry, h.met, h.closes⟩
  cases hturn with
  | back hpos hretry => exact ⟨h.retry _ hretry, by simp, h.met, h.closes⟩
  | skip hpos hread hskip => exact hs.skips hskip
  | close hpos hread he hclosed hclose =>
    refine hP.closing (hs.completes he) ?_ hclose
    have hle := hP.le_size _ h.position
    cases he <;> exact Nat.lt_of_le_of_ne hle hpos

end

/-! ## The whole match -/

theorem Remembers.of_conclude {bounds : List Nat} (h : Remembers P s)
    (hconclude : conclude cfg s = .accept bounds) : ∀ b ∈ bounds, P b := by
  unfold conclude at hconclude
  split at hconclude
  · cases hconclude
  · cases hconclude
    intro b hb
    rcases List.mem_append.mp hb with hold | hnew
    · exact h.closes b hold
    · rw [List.mem_singleton.mp hnew]
      exact h.position

theorem Remembers.of_exhausted {bounds : List Nat} (h : Remembers P s)
    (hexhausted : exhausted cfg s = .accept bounds) : ∀ b ∈ bounds, P b := by
  unfold exhausted at hexhausted
  split at hexhausted
  · cases hexhausted
  · next n _ =>
    have hrem : Remembers P
        { s with closes := s.closes ++ List.replicate n s.position, cursor := cfg.stop } := by
      refine ⟨h.position, h.retry, h.met, fun b hb => ?_⟩
      rcases List.mem_append.mp hb with hold | hnew
      · exact h.closes b hold
      · rw [List.eq_of_mem_replicate hnew]
        exact h.position
    exact hrem.of_conclude hexhausted

theorem Remembers.of_step {bounds : List Nat} (h : Remembers P s)
    (hstep : step cfg s = .done (.accept bounds)) : ∀ b ∈ bounds, P b := by
  rcases accept_of_step hstep with ⟨-, hend⟩ | ⟨-, -, hend⟩
  · exact h.of_conclude hend
  · exact h.of_exhausted hend

theorem Places.run (hP : Places cfg.text P) (hstop : cfg.stop ≤ cfg.pattern.length) (n : Nat)
    {bounds : List Nat} (h : Remembers P s) (hrun : run cfg n s = .accept bounds) :
    ∀ b ∈ bounds, P b := by
  induction n generalizing s with
  | zero => cases hrun
  | succ n ih =>
    rw [LuaPattern.run] at hrun
    split at hrun
    · next hstep =>
      rw [hrun] at hstep
      exact h.of_step hstep
    · next hstep => exact ih (hP.turns h (turns_of_step hstop hstep)) hrun

/-- A match has been run, from the state in which it begins. -/
theorem exists_run_of_boundariesAt? {pattern : Source} {t : Text} {offset : Nat}
    {bounds : List Nat} (h : boundariesAt? pattern t offset = some bounds) :
    ∃ cfg s, start pattern t offset = .ready cfg s ∧
      run cfg (turnLimit pattern t) s = .accept bounds := by
  unfold boundariesAt? at h
  split at h
  · next hverdict =>
    cases h
    unfold verdictAt at hverdict
    split at hverdict
    · cases hverdict
    · split at hverdict
      · cases hverdict
      · cases hverdict
      · next cfg s hstart => exact ⟨cfg, s, hstart, hverdict⟩
  · cases h
  · cases h

/-- **The boundaries of a match are among the places to which it can advance** from its offset. -/
theorem Places.boundaries {pattern : Source} {t : Text} {offset : Nat} {bounds : List Nat}
    (hP : Places t P) (hoffset : P offset) (h : boundariesAt? pattern t offset = some bounds) :
    ∀ b ∈ bounds, P b := by
  obtain ⟨cfg, s, hstart, hrun⟩ := exists_run_of_boundariesAt? h
  obtain ⟨-, ⟨cursor, rfl, -⟩, rfl, rfl, hstop, -⟩ := start_eq_ready hstart
  exact hP.run hstop _ (remembers_atStart hoffset) hrun

theorem places_le_size (t : Text) : Places t (· ≤ t.size) where
  le_size _ h := h
  here _ h := Text.charStart_le_size h
  next _ _ h := Text.charStart_le_size h

theorem places_atChar (t : Text) : Places t t.AtChar where
  le_size _ h := h.le_size
  here _ h := Text.atChar_charStart h.le_size
  next _ _ h := Text.atChar_charStart h

/-- **A match that begins in front of a character has all of its boundaries there.** -/
theorem atChar_of_boundariesAt? {pattern : Source} {t : Text} {offset : Nat} {bounds : List Nat}
    (hoffset : t.AtChar offset) (h : boundariesAt? pattern t offset = some bounds) :
    ∀ b ∈ bounds, t.AtChar b :=
  (places_atChar t).boundaries hoffset h

/-- **The boundaries of a match lie in the text.** -/
theorem le_size_of_boundariesAt? {pattern : Source} {t : Text} {offset : Nat} {bounds : List Nat}
    (h : boundariesAt? pattern t offset = some bounds) : ∀ b ∈ bounds, b ≤ t.size := by
  obtain ⟨cfg, s, hstart, -⟩ := exists_run_of_boundariesAt? h
  exact (places_le_size t).boundaries (start_eq_ready hstart).1 h

end LuaPattern
end Linewise
