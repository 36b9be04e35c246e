import Linewise.Proofs.LuaPattern.Trace

/-!
# States that read alike

A reading looks at the cursor, the position, whether the cursor is inside a set, and whether a
member of the set has accepted. Two states that agree in these are *alike*, and a reading does the
same at both: it moves their cursors alike, ends both matches or neither, and what it writes to
another field it writes to that field of both (`read_alike`). Only whether an element outside of a
set accepts also depends on whether a set was inverted.

Closing an element looks at more, but at a frontier that waits not at the number of times that the
element has matched, unless its quantifier limits it. So where one element is repeated behind a
frontier without a limit, so is the same element in another state (`close_again`).
-/

namespace Linewise
namespace LuaPattern

variable {cfg : Setting} {s b : State}

/-! ## Readings -/

/-- A reading cannot tell the two states apart. -/
structure Alike (s b : State) : Prop where
  /-- The same byte of the pattern is under the cursor. -/
  cursor : b.cursor = s.cursor
  /-- The same character is at hand. -/
  position : b.position = s.position
  /-- The cursor is inside a set at both, or at none. -/
  inSet : b.inSet = s.inSet
  /-- A member of the set has accepted at both, or at none. -/
  accepts : b.accepts = s.accepts

/-- Two values `x` and `y` have become `x'` and `y'`: the same was written over both, or both were
left alone. -/
def Written {α : Type} (x y x' y' : α) : Prop := y' = x' ∨ x' = x ∧ y' = y

theorem Written.trans {α : Type} {x y x' y' x'' y'' : α} (h : Written x y x' y')
    (h' : Written x' y' x'' y'') : Written x y x'' y'' := by
  rcases h' with hsame | ⟨rfl, rfl⟩
  · exact Or.inl hsame
  · exact h

/-- Values that were alike before are alike afterwards. -/
theorem Written.eq {α : Type} {x y x' y' : α} (h : Written x y x' y') (heq : y = x) : y' = x' := by
  rcases h with hsame | ⟨rfl, rfl⟩
  · exact hsame
  · exact heq

/-- What happens to the other fields when two states `s` and `b` have become `s'` and `b'`. -/
structure WrittenAlike (s b s' b' : State) : Prop where
  /-- Whether the set is inverted. -/
  inverted : Written s.inverted b.inverted s'.inverted b'.inverted
  /-- Where the element begins. -/
  elementStart : Written s.elementStart b.elementStart s'.elementStart b'.elementStart
  /-- The frontier that waits. -/
  frontier : Written s.frontier b.frontier s'.frontier b'.frontier
  /-- The limit is left alone. -/
  most : b'.most = b.most

theorem WrittenAlike.trans {s' b' s'' b'' : State} (h : WrittenAlike s b s' b')
    (h' : WrittenAlike s' b' s'' b'') : WrittenAlike s b s'' b'' where
  inverted := h.inverted.trans h'.inverted
  elementStart := h.elementStart.trans h'.elementStart
  frontier := h.frontier.trans h'.frontier
  most := h'.most.trans h.most

/-- What comes of the readings at two states. -/
inductive ReadsAlike (s b : State) : Reading → Reading → Prop where
  /-- Neither matches. -/
  | reject : ReadsAlike s b .reject .reject
  /-- Both are out of range. -/
  | fault : ReadsAlike s b .fault .fault
  /-- Both go on. -/
  | skip {s' b' : State} (h : Alike s' b') (hw : WrittenAlike s b s' b') :
      ReadsAlike s b (.skip s') (.skip b')
  /-- Both complete an element. -/
  | element {e e' : State} (hcursor : e'.cursor = e.cursor) (hposition : e'.position = e.position)
      (haccepts : b.inverted = s.inverted → e'.accepts = e.accepts)
      (hw : WrittenAlike s b e e') : ReadsAlike s b (.element e) (.element e')

theorem ReadsAlike.trans {s' b' : State} {x y : Reading} (h : ReadsAlike s' b' x y)
    (hw : WrittenAlike s b s' b') : ReadsAlike s b x y := by
  cases h with
  | reject => exact .reject
  | fault => exact .fault
  | skip h hw' => exact .skip h (hw.trans hw')
  | element hcursor hposition haccepts hw' =>
    exact .element hcursor hposition (fun hinv => haccepts (hw.inverted.eq hinv)) (hw.trans hw')

theorem finishRead_alike {s' b' : State} (h : Alike s' b') (hw : WrittenAlike s b s' b') :
    ReadsAlike s b (finishRead s') (finishRead b') := by
  by_cases hset : s'.inSet = true
  · rw [finishRead_of_inSet hset, finishRead_of_inSet (h.inSet.trans hset)]
    exact .skip h hw
  · have hout := Bool.eq_false_iff.mpr hset
    rw [finishRead_of_not_inSet hout, finishRead_of_not_inSet (h.inSet.trans hout)]
    refine .element h.cursor h.position (fun hinv => ?_)
      ⟨hw.inverted, hw.elementStart, hw.frontier, hw.most⟩
    show (if b'.inverted then !b'.accepts else b'.accepts) =
      if s'.inverted then !s'.accepts else s'.accepts
    rw [hw.inverted.eq hinv, h.accepts]

theorem readEscape_alike (h : Alike s b) :
    ReadsAlike s b (readEscape cfg s) (readEscape cfg b) := by
  unfold readEscape
  rw [h.position, h.cursor]
  split
  · exact .fault
  · dsimp only
    split
    · exact .reject
    · split
      · exact .skip ⟨rfl, rfl, h.inSet, h.accepts⟩
          ⟨Or.inr ⟨rfl, rfl⟩, Or.inr ⟨rfl, rfl⟩, Or.inl rfl, rfl⟩
      · exact finishRead_alike ⟨rfl, rfl, h.inSet, rfl⟩
          ⟨Or.inr ⟨rfl, rfl⟩, Or.inr ⟨rfl, rfl⟩, Or.inr ⟨rfl, rfl⟩, rfl⟩

theorem readLiteral_alike (h : Alike s b) (literal : UInt8) :
    ReadsAlike s b (readLiteral cfg s literal) (readLiteral cfg b literal) := by
  unfold readLiteral
  rw [h.position, h.cursor]
  split
  · exact .fault
  · exact finishRead_alike ⟨rfl, rfl, h.inSet, rfl⟩
      ⟨Or.inr ⟨rfl, rfl⟩, Or.inr ⟨rfl, rfl⟩, Or.inr ⟨rfl, rfl⟩, rfl⟩

theorem readSetOpening_alike (h : Alike s b) :
    ReadsAlike s b (readSetOpening cfg s) (readSetOpening cfg b) := by
  unfold readSetOpening
  dsimp only
  rw [h.cursor]
  split
  · exact .skip ⟨rfl, h.position, rfl, h.accepts⟩
      ⟨Or.inl rfl, Or.inl rfl, Or.inr ⟨rfl, rfl⟩, rfl⟩
  · exact .skip ⟨rfl, h.position, rfl, h.accepts⟩
      ⟨Or.inr ⟨rfl, rfl⟩, Or.inl rfl, Or.inr ⟨rfl, rfl⟩, rfl⟩

theorem readByte_alike (h : Alike s b) : ReadsAlike s b (readByte cfg s) (readByte cfg b) := by
  unfold readByte
  dsimp only
  rw [h.cursor, h.inSet]
  split
  · exact .reject
  · split
    · exact finishRead_alike ⟨rfl, h.position, rfl, rfl⟩
        ⟨Or.inr ⟨rfl, rfl⟩, Or.inr ⟨rfl, rfl⟩, Or.inr ⟨rfl, rfl⟩, rfl⟩
    · split
      · exact .skip ⟨rfl, h.position, rfl, h.accepts⟩
          ⟨Or.inr ⟨rfl, rfl⟩, Or.inr ⟨rfl, rfl⟩, Or.inr ⟨rfl, rfl⟩, rfl⟩
      · split
        · exact .skip ⟨rfl, h.position, rfl, h.accepts⟩
            ⟨Or.inr ⟨rfl, rfl⟩, Or.inl rfl, Or.inr ⟨rfl, rfl⟩, rfl⟩
        · split
          · exact readSetOpening_alike h
          · split
            · exact finishRead_alike ⟨rfl, h.position, rfl, h.accepts⟩
                ⟨Or.inr ⟨rfl, rfl⟩, Or.inr ⟨rfl, rfl⟩, Or.inr ⟨rfl, rfl⟩, rfl⟩
            · split
              · exact readEscape_alike h
              · exact readLiteral_alike h _

/-- **A reading does the same at states that are alike.** -/
theorem read_alike (h : Alike s b) : ReadsAlike s b (read cfg s) (read cfg b) := by
  unfold read
  have hcloses : closesSet? cfg b = closesSet? cfg s := by
    unfold closesSet?
    rw [h.cursor]
  have hmarked : ReadsAlike s b
      (readByte cfg
        (if cfg.pattern.byteAt s.cursor ≠ closeSet && !s.inSet then
          { s with elementStart := s.cursor } else s))
      (readByte cfg
        (if cfg.pattern.byteAt s.cursor ≠ closeSet && !s.inSet then
          { b with
            cursor := s.cursor
            inSet := s.inSet
            accepts := s.accepts
            elementStart := s.cursor } else b)) := by
    split
    · have hmark : Alike { s with elementStart := s.cursor }
          { b with
            cursor := s.cursor
            inSet := s.inSet
            accepts := s.accepts
            elementStart := s.cursor } := ⟨rfl, h.position, rfl, rfl⟩
      exact (readByte_alike hmark).trans ⟨Or.inr ⟨rfl, rfl⟩, Or.inl rfl, Or.inr ⟨rfl, rfl⟩, rfl⟩
    · exact readByte_alike h
  dsimp only
  rw [hcloses, h.inSet, h.accepts, h.cursor]
  split
  · split
    · exact .fault
    · exact .skip ⟨rfl, h.position, rfl, rfl⟩
        ⟨Or.inr ⟨rfl, rfl⟩, Or.inr ⟨rfl, rfl⟩, Or.inr ⟨rfl, rfl⟩, rfl⟩
    · exact hmarked
  · exact hmarked

/-! ## Repeated elements -/

/-- Whether a frontier that stands at `place` is passed at a position. -/
def admits (cfg : Setting) (place position : Nat) : Bool :=
  if position = 0 && cfg.pattern.byteAt (place + 3) = caret then false
  else
    let set := cfg.pattern.drop (place + 2)
    match if position = 0 then some false else probe set cfg.text (position - 1),
      probe set cfg.text position with
    | some before, some here => !before && here
    | _, _ => false

theorem passFrontier_eq_next_iff {p : State} {place met : Nat}
    (hsome : s.frontier = some (place, met)) :
    passFrontier cfg s = .next p ↔ admits cfg place s.position = true ∧
      p = { s with frontier := none, position := met, rewound := true } := by
  unfold passFrontier admits
  rw [hsome]
  dsimp only
  by_cases hguard :
      (decide (s.position = 0) && decide (cfg.pattern.byteAt (place + 3) = caret)) = true
  · rw [if_pos hguard, if_pos hguard]
    constructor
    · intro h
      cases h
    · rintro ⟨h, -⟩
      cases h
  · rw [if_neg hguard, if_neg hguard]
    cases (if s.position = 0 then some false
      else probe (cfg.pattern.drop (place + 2)) cfg.text (s.position - 1)) with
    | none => simp
    | some before =>
      cases probe (cfg.pattern.drop (place + 2)) cfg.text s.position with
      | none => simp
      | some here =>
        dsimp only
        by_cases hpass : (!before && here) = true
        · rw [if_pos hpass]
          constructor
          · intro h
            exact ⟨hpass, (Turn.next.inj h).symm⟩
          · rintro ⟨-, rfl⟩
            rfl
        · rw [if_neg hpass]
          constructor
          · intro h
            cases h
          · rintro ⟨h, -⟩
            exact absurd h hpass

/-- The quantifier under the cursor is the same whatever else there is. -/
theorem takeQuantifier_congr (cfg : Setting) (h : b.cursor = s.cursor) :
    (takeQuantifier cfg b).2 = (takeQuantifier cfg s).2 ∧
      (takeQuantifier cfg b).1.cursor = (takeQuantifier cfg s).1.cursor ∧
      Written s.most b.most (takeQuantifier cfg s).1.most (takeQuantifier cfg b).1.most := by
  unfold takeQuantifier
  dsimp only
  rw [h]
  split
  · exact ⟨rfl, rfl, Or.inl rfl⟩
  · split
    · exact ⟨rfl, rfl, Or.inl rfl⟩
    · split
      · exact ⟨rfl, rfl, Or.inl rfl⟩
      · split
        · exact ⟨rfl, rfl, Or.inl rfl⟩
        · exact ⟨rfl, h, Or.inr ⟨rfl, rfl⟩⟩

/-- The element behind which `e` stands passes a frontier and is repeated, without a limit. -/
structure Repeats (cfg : Setting) (e : State) (place met : Nat) : Prop where
  /-- It accepts. -/
  accepts : e.accepts = true
  /-- A frontier waits. -/
  frontier : e.frontier = some (place, met)
  /-- The frontier is passed. -/
  admits : admits cfg place e.position = true
  /-- There is no limit. -/
  unlimited : (takeQuantifier cfg e).1.most = none
  /-- The element does not give way to its successor. -/
  greedy : ∃ next, probe (cfg.pattern.drop (takeQuantifier cfg e).1.cursor) cfg.text met =
    some next ∧ ((takeQuantifier cfg e).2 || !next) = true

/-- How often the element has matched makes no difference to its being repeated. -/
theorem Repeats.congr {e e' : State} {place met : Nat} (h : Repeats cfg e place met)
    (hcursor : e'.cursor = e.cursor) (hposition : e'.position = e.position)
    (haccepts : e'.accepts = e.accepts) (hfrontier : e'.frontier = e.frontier)
    (hmost : e'.most = none) : Repeats cfg e' place met := by
  obtain ⟨hgreedy, hcursor', hlimit⟩ := takeQuantifier_congr cfg hcursor
  refine ⟨haccepts.trans h.accepts, hfrontier.trans h.frontier, ?_, ?_, ?_⟩
  · rw [hposition]
    exact h.admits
  · rcases hlimit with hsame | ⟨-, hleft⟩
    · exact hsame.trans h.unlimited
    · exact hleft.trans hmost
  · rw [hcursor', hgreedy]
    exact h.greedy

/-- What stands behind the frontier of a repeated element, in front of its quantifier. -/
def passed (e : State) (met : Nat) : State :=
  { tally e with frontier := none, position := met, rewound := true }

/-- The quantifier behind a frontier is the one that follows the element. -/
theorem quantify_passed (cfg : Setting) (e : State) (met : Nat) :
    (takeQuantifier cfg (passed e met)).2 = (takeQuantifier cfg e).2 ∧
      ∃ least fin, quantify cfg (passed e met) =
        { passed e met with
          least := least
          most := (takeQuantifier cfg e).1.most
          cursor := (takeQuantifier cfg e).1.cursor
          finished := fin } := by
  have hsame : (takeQuantifier cfg (passed e met)).2 = (takeQuantifier cfg e).2 ∧
      (takeQuantifier cfg (passed e met)).1.cursor = (takeQuantifier cfg e).1.cursor ∧
      Written e.most e.most (takeQuantifier cfg e).1.most
        (takeQuantifier cfg (passed e met)).1.most := takeQuantifier_congr cfg rfl
  obtain ⟨hgreedy, hcursor, hmost⟩ := hsame
  obtain ⟨least, most, n, hq, -⟩ := takeQuantifier_eq cfg (passed e met)
  rw [hq] at hcursor hmost
  have hmost' : most = (takeQuantifier cfg e).1.most := hmost.eq rfl
  have hcursor' : (passed e met).cursor + n = (takeQuantifier cfg e).1.cursor := hcursor
  refine ⟨hgreedy, least, decide ((takeQuantifier cfg e).1.cursor = cfg.stop), ?_⟩
  rw [quantify, hq, ← hcursor', ← hmost']

theorem again_of_keeps {q : State} {greedy next : Bool}
    (hprobe : probe (cfg.pattern.drop q.cursor) cfg.text q.position = some next)
    (hkeeps : (greedy || !next) = true) :
    again cfg q greedy =
      .next (advance cfg
        { q with
          retry := if next then some q.position else q.retry
          cursor := q.elementStart
          repeating := true }) := by
  rw [again, hprobe]
  dsimp only
  rw [if_pos hkeeps]

/-- An element that is repeated goes back to its start. -/
theorem close_of_repeats {e : State} {place met : Nat} (h : Repeats cfg e place met) :
    ∃ s', close cfg e = .next s' ∧ s'.cursor = e.elementStart ∧
      s'.position = cfg.text.charStart met := by
  have htally : (tally e).frontier = some (place, met) := h.frontier
  have hpass : passFrontier cfg (tally e) = .next (passed e met) :=
    (passFrontier_eq_next_iff htally).mpr ⟨h.admits, rfl⟩
  obtain ⟨hgreedy, least, fin, hq⟩ := quantify_passed cfg e met
  obtain ⟨next, hprobe, hkeeps⟩ := h.greedy
  rw [← hgreedy] at hkeeps
  have hagain : (e.accepts && belowLimit (quantify cfg (passed e met)).count
      (quantify cfg (passed e met)).most) = true := by
    rw [hq, h.accepts, h.unlimited]
    rfl
  rw [close_of_passes hpass, if_pos hagain, hq, again_of_keeps hprobe hkeeps]
  exact ⟨_, rfl, rfl, rfl⟩

/-- What has matched may only match again if there is no limit. -/
theorem eq_none_of_belowLimit {e : State} {most : Option Nat} (hacc : e.accepts = true)
    (hmost : most = none ∨ most = some 1) (h : belowLimit (tally e).count most = true) :
    most = none := by
  rcases hmost with hnone | hone
  · exact hnone
  · rw [hone, tally, belowLimit, hacc, if_pos rfl] at h
    have hlt : e.count + 1 < 1 := of_decide_eq_true h
    omega

/-- **An element that goes back behind a frontier is repeated.** There is no limit, since it has
matched once already. -/
theorem repeats_of_close {e s' : State} {place met : Nat} (hsome : e.frontier = some (place, met))
    (hmost : e.most = none ∨ e.most = some 1) (h : close cfg e = .next s')
    (hback : s'.cursor < e.cursor) :
    Repeats cfg e place met ∧ s'.cursor = e.elementStart ∧ s'.elementStart = e.elementStart ∧
      s'.position = cfg.text.charStart met ∧ s'.inSet = e.inSet ∧ s'.inverted = e.inverted ∧
      s'.accepts = false ∧ s'.most = none := by
  obtain ⟨hgreedy, least, fin, hq⟩ := quantify_passed cfg e met
  have hle : e.cursor ≤ (takeQuantifier cfg e).1.cursor := by
    obtain ⟨least', most, n, hquantifier, -⟩ := takeQuantifier_eq cfg e
    rw [hquantifier]
    exact Nat.le_add_right _ _
  have htally : (tally e).frontier = some (place, met) := hsome
  cases hpass : passFrontier cfg (tally e) with
  | done verdict =>
    rw [close_of_done hpass] at h
    cases h
  | next p =>
    obtain ⟨hadmits, hp⟩ := (passFrontier_eq_next_iff htally).mp hpass
    have hp' : p = passed e met := hp
    subst hp'
    rw [close_of_passes hpass, hq] at h
    split at h
    · next hagain =>
      obtain ⟨hacc, hbelow⟩ := Bool.and_eq_true_iff.mp hagain
      have hnone := eq_none_of_belowLimit hacc (most_takeQuantifier cfg hmost) hbelow
      unfold again at h
      split at h
      · cases h
      · next next hprobe =>
        split at h
        · next hkeeps =>
          cases h
          rw [hgreedy] at hkeeps
          exact ⟨⟨hacc, hsome, hadmits, hnone, next, hprobe, hkeeps⟩, rfl, rfl, rfl, rfl, rfl, rfl,
            hnone⟩
        · cases h
          exact absurd (Nat.lt_of_succ_lt hback) (Nat.not_lt_of_le hle)
    · unfold settle at h
      split at h
      · cases h
      · dsimp only at h
        split at h
        · cases h
          exact absurd hback (Nat.not_lt_of_le hle)
        · cases h
          exact absurd hback (Nat.not_lt_of_le hle)

end LuaPattern
end Linewise
