import Linewise.LuaPattern.Machine

/-!
# What one reading can do

`read` looks at one byte of the pattern, or two, and there are only a few things that can come of
it. They are listed here once, so that what is proved about every turn of the machine does not have
to open its definitions again.

* `Skips cfg s s'`: the reading at `s` goes on at `s'`. A member of a set is behind the cursor, a
  group mark is, a set is open, or a frontier waits.
* `Completes cfg s e`: the reading at `s` completes the element that `e` stands behind. It is a set,
  a `]` outside of a set, or any other single element. Only the last kind marks its own start; a set
  marked it at its bracket, and a `]` outside of a set does not mark anything.

Both say how far the cursor moves, which bytes it moves over, and that it stays inside the pattern.
Apart from the fields that they name, nothing changes.
-/

namespace Linewise
namespace LuaPattern

/-- A byte that is not `0` stands inside the pattern. -/
theorem Source.lt_length_of_byteAt_ne {p : Source} {i : Nat} (h : p.byteAt i ≠ 0) :
    i < p.length := by
  rcases Nat.lt_or_ge i p.length with hlt | hge
  · exact hlt
  · refine absurd ?_ h
    rw [Source.byteAt, List.getD_eq_getElem?_getD, List.getElem?_eq_none hge]
    rfl

/-- What one reading takes of a set, with what is accepted then: a byte that does not end the set,
if an earlier member accepts, or else a member, which is an escape with the byte behind it, or a
byte of its own. -/
inductive TakesMember (cfg : Setting) (s : State) : Bool → Nat → Prop where
  /-- An earlier member accepts. -/
  | passed (hacc : s.accepts = true) (hends : closesSet? cfg s = some false) :
      TakesMember cfg s s.accepts 1
  /-- A byte of its own. -/
  | byte (b : Bool) (hacc : s.accepts = false) (hpercent : cfg.pattern.byteAt s.cursor ≠ percent)
      (hclose : cfg.pattern.byteAt s.cursor ≠ closeSet) : TakesMember cfg s b 1
  /-- An escape. -/
  | escape (b : Bool) (hacc : s.accepts = false) (hat : cfg.pattern.byteAt s.cursor = percent) :
      TakesMember cfg s b 2

/-- What one reading takes outside of a set, if it completes an element: an escape with the byte
behind it, or a byte that means nothing else. -/
inductive TakesSingle (cfg : Setting) (s : State) : Nat → Prop where
  /-- A byte of its own. -/
  | byte (hpercent : cfg.pattern.byteAt s.cursor ≠ percent)
      (hopen : cfg.pattern.byteAt s.cursor ≠ openSet)
      (hgroup : cfg.pattern.byteAt s.cursor ≠ closeGroup) : TakesSingle cfg s 1
  /-- An escape. -/
  | escape (hat : cfg.pattern.byteAt s.cursor = percent) : TakesSingle cfg s 2

/-- The reading at a state goes on at another one. -/
inductive Skips (cfg : Setting) (s : State) : State → Prop where
  /-- A member of a set was read, or passed over because an earlier one accepts. -/
  | member (b : Bool) (n : Nat) (hset : s.inSet = true) (hpos : 0 < n)
      (hle : s.cursor + n ≤ cfg.pattern.length) (htakes : TakesMember cfg s b n) :
      Skips cfg s { s with accepts := b, cursor := s.cursor + n }
  /-- A group begins. -/
  | openGroup (hset : s.inSet = false) (hle : s.cursor < cfg.pattern.length)
      (hat : cfg.pattern.byteAt s.cursor = LuaPattern.openGroup) :
      Skips cfg s { s with elementStart := s.cursor, cursor := s.cursor + 1 }
  /-- A group ends. -/
  | closeGroup (hset : s.inSet = false) (hle : s.cursor < cfg.pattern.length)
      (hat : cfg.pattern.byteAt s.cursor = LuaPattern.closeGroup) :
      Skips cfg s
        { s with
          closes := s.closes ++ [s.position]
          elementStart := s.cursor + 1
          cursor := s.cursor + 1 }
  /-- A set opens, inverted or not. -/
  | openSet (inv : Bool) (n : Nat) (hset : s.inSet = false) (hpos : 0 < n)
      (hinv : s.inverted = true → inv = true) (hle : s.cursor + n ≤ cfg.pattern.length)
      (hat : cfg.pattern.byteAt s.cursor = LuaPattern.openSet)
      (hbytes : n = 1 ∨ n = 2 ∧ cfg.pattern.byteAt (s.cursor + 1) = caret) :
      Skips cfg s
        { s with
          inSet := true
          inverted := inv
          elementStart := s.cursor
          cursor := s.cursor + n }
  /-- A frontier was met. -/
  | frontier (hle : s.cursor + 2 ≤ cfg.pattern.length)
      (hat : cfg.pattern.byteAt s.cursor = percent)
      (hkind : Ascii.toLower (cfg.pattern.byteAt (s.cursor + 1)) = frontierLetter)
      (hacc : s.inSet = true → s.accepts = false) :
      Skips cfg s
        { s with
          elementStart := if s.inSet then s.elementStart else s.cursor
          frontier := some (s.cursor, s.position)
          cursor := s.cursor + 2 }

/-- The reading at a state completes an element. -/
inductive Completes (cfg : Setting) (s : State) : State → Prop where
  /-- A set closes. -/
  | set (b : Bool) (hset : s.inSet = true) (hle : s.cursor < cfg.pattern.length)
      (hat : cfg.pattern.byteAt s.cursor = closeSet)
      (hends : s.accepts = true → closesSet? cfg s = some true) :
      Completes cfg s { s with inSet := false, accepts := b, cursor := s.cursor + 1 }
  /-- A `]` outside of a set stands for itself. -/
  | bracket (b : Bool) (hset : s.inSet = false) (hle : s.cursor < cfg.pattern.length)
      (hat : cfg.pattern.byteAt s.cursor = closeSet) :
      Completes cfg s { s with accepts := b, cursor := s.cursor + 1 }
  /-- A byte or a class outside of a set. -/
  | single (b : Bool) (n : Nat) (hset : s.inSet = false) (hpos : 0 < n)
      (hle : s.cursor + n ≤ cfg.pattern.length)
      (hat : cfg.pattern.byteAt s.cursor ≠ closeSet) (htakes : TakesSingle cfg s n) :
      Completes cfg s { s with elementStart := s.cursor, accepts := b, cursor := s.cursor + n }

/-- What can come of the reading at a state. -/
inductive Reads (cfg : Setting) (s : State) : Reading → Prop where
  /-- The pattern cannot match. -/
  | reject : Reads cfg s .reject
  /-- Something was read out of range. -/
  | fault : Reads cfg s .fault
  /-- The reading goes on. -/
  | skip {s' : State} (h : Skips cfg s s') : Reads cfg s (.skip s')
  /-- An element is complete. -/
  | element {e : State} (h : Completes cfg s e) : Reads cfg s (.element e)

theorem finishRead_of_inSet {s : State} (h : s.inSet = true) : finishRead s = .skip s := by
  rw [finishRead, if_pos h]

theorem finishRead_of_not_inSet {s : State} (h : s.inSet = false) :
    finishRead s = .element { s with accepts := if s.inverted then !s.accepts else s.accepts } := by
  rw [finishRead, if_neg (by simp [h])]

variable {cfg : Setting} {s : State}

/-! ## Inside a set -/

/-- Where a `]` ends the set, it does not follow a `%`. -/
theorem byteAt_of_closesSet? (h : closesSet? cfg s = some true) :
    cfg.pattern.byteAt s.cursor = closeSet ∧
      ∃ before, s.cursor = before + 1 ∧ cfg.pattern.byteAt before ≠ percent := by
  unfold closesSet? at h
  split at h
  · next hat =>
    refine ⟨hat, ?_⟩
    split at h
    · cases h
    · next before hcursor => exact ⟨before, hcursor, by simpa using h⟩
  · cases h

/-- What completes a reading inside a set is only a member. -/
theorem reads_member (hset : s.inSet = true) (b : Bool) (n : Nat) (hpos : 0 < n)
    (hle : s.cursor + n ≤ cfg.pattern.length) (htakes : TakesMember cfg s b n) :
    Reads cfg s (finishRead { s with accepts := b, cursor := s.cursor + n }) := by
  have hfinish : finishRead { s with accepts := b, cursor := s.cursor + n } =
      .skip { s with accepts := b, cursor := s.cursor + n } := finishRead_of_inSet hset
  rw [hfinish]
  exact .skip (.member b n hset hpos hle htakes)

theorem reads_escape_of_inSet (hset : s.inSet = true) (hacc : s.accepts = false)
    (hat : cfg.pattern.byteAt s.cursor = percent) : Reads cfg s (readEscape cfg s) := by
  unfold readEscape
  split
  · exact .fault
  · dsimp only
    split
    · exact .reject
    · next hkind =>
      have hle : s.cursor + 2 ≤ cfg.pattern.length := Source.lt_length_of_byteAt_ne hkind
      split
      · next hletter =>
        have hskip := Skips.frontier (s := s) hle hat hletter fun _ => hacc
        rw [if_pos hset] at hskip
        exact .skip hskip
      · exact reads_member hset _ 2 Nat.two_pos hle (.escape _ hacc hat)

theorem reads_byte_of_inSet (hset : s.inSet = true)
    (hends : s.accepts = true → closesSet? cfg s = some true) : Reads cfg s (readByte cfg s) := by
  -- a member is only read if no earlier one accepts
  have idle : cfg.pattern.byteAt s.cursor ≠ closeSet → s.accepts = false := by
    intro hne
    rw [Bool.eq_false_iff]
    exact fun hacc => hne (byteAt_of_closesSet? (hends hacc)).1
  unfold readByte
  dsimp only
  split
  · exact .reject
  · next hzero =>
    have hlt := Source.lt_length_of_byteAt_ne hzero
    split
    · next hdot =>
      have hne : ∀ c, dot ≠ c → cfg.pattern.byteAt s.cursor ≠ c := fun c hc => hdot ▸ hc
      exact reads_member hset true 1 Nat.one_pos hlt
        (.byte _ (idle (hne _ (by decide))) (hne _ (by decide)) (hne _ (by decide)))
    · -- the three bytes that have a meaning only outside of a set
      rw [if_neg (by simp [hset]), if_neg (by simp [hset]), if_neg (by simp [hset])]
      split
      · next hat =>
        rw [hset, Bool.and_true, decide_eq_true_eq] at hat
        rw [finishRead_of_not_inSet rfl]
        exact .element (.set _ hset hlt hat hends)
      · next hclose =>
        rw [hset, Bool.and_true, decide_eq_true_eq] at hclose
        split
        · next hat => exact reads_escape_of_inSet hset (idle hclose) hat
        · next hpercent =>
          unfold readLiteral
          split
          · exact .fault
          · exact reads_member hset _ 1 Nat.one_pos hlt (.byte _ (idle hclose) hpercent hclose)

/-! ## Outside of a set

The state that is read from has marked the start of its element, unless the byte is a `]`. -/

/-- What completes a reading outside of a set is an element. -/
theorem reads_single (hset : s.inSet = false) (hat : cfg.pattern.byteAt s.cursor ≠ closeSet)
    (b : Bool) (n : Nat) (hpos : 0 < n) (hle : s.cursor + n ≤ cfg.pattern.length)
    (htakes : TakesSingle cfg s n) :
    Reads cfg s
      (finishRead
        { s with elementStart := s.cursor, accepts := b, cursor := s.cursor + n }) := by
  have hfinish : finishRead
        { s with elementStart := s.cursor, accepts := b, cursor := s.cursor + n } =
      .element
        { s with
          elementStart := s.cursor
          accepts := if s.inverted then !b else b
          cursor := s.cursor + n } := finishRead_of_not_inSet hset
  rw [hfinish]
  exact .element (.single _ n hset hpos hle hat htakes)

theorem reads_escape_marked (hset : s.inSet = false)
    (hat : cfg.pattern.byteAt s.cursor = percent) :
    Reads cfg s (readEscape cfg { s with elementStart := s.cursor }) := by
  have hne : cfg.pattern.byteAt s.cursor ≠ closeSet := by
    rw [hat]
    decide
  unfold readEscape
  split
  · exact .fault
  · dsimp only
    split
    · exact .reject
    · next hkind =>
      have hle : s.cursor + 2 ≤ cfg.pattern.length := Source.lt_length_of_byteAt_ne hkind
      split
      · next hletter =>
        have hskip := Skips.frontier (s := s) hle hat hletter fun hin =>
          absurd (hset.symm.trans hin) Bool.false_ne_true
        rw [if_neg (by simp [hset])] at hskip
        exact .skip hskip
      · exact reads_single hset hne _ 2 Nat.two_pos hle (.escape hat)

theorem reads_setOpening_marked (hset : s.inSet = false) (hlt : s.cursor < cfg.pattern.length)
    (hat : cfg.pattern.byteAt s.cursor = openSet) :
    Reads cfg s (readSetOpening cfg { s with elementStart := s.cursor }) := by
  unfold readSetOpening
  dsimp only
  split
  · next hcaret =>
    have hle : s.cursor + 2 ≤ cfg.pattern.length := by
      refine Source.lt_length_of_byteAt_ne ?_
      rw [hcaret]
      decide
    exact .skip (.openSet true 2 hset Nat.two_pos (fun _ => rfl) hle hat (Or.inr ⟨rfl, hcaret⟩))
  · exact .skip (.openSet s.inverted 1 hset Nat.one_pos id hlt hat (Or.inl rfl))

theorem reads_byte_marked (hset : s.inSet = false)
    (hat : cfg.pattern.byteAt s.cursor ≠ closeSet) :
    Reads cfg s (readByte cfg { s with elementStart := s.cursor }) := by
  unfold readByte
  dsimp only
  split
  · exact .reject
  · next hzero =>
    have hlt := Source.lt_length_of_byteAt_ne hzero
    split
    · next hdot =>
      have hne : ∀ c, dot ≠ c → cfg.pattern.byteAt s.cursor ≠ c := fun c hc => hdot ▸ hc
      exact reads_single hset hat true 1 Nat.one_pos hlt
        (.byte (hne _ (by decide)) (hne _ (by decide)) (hne _ (by decide)))
    · -- outside of a set, the guards are about the byte alone
      have guard : ∀ c, (decide (cfg.pattern.byteAt s.cursor = c) && !s.inSet) = true ↔
          cfg.pattern.byteAt s.cursor = c := by
        intro c
        rw [hset, Bool.not_false, Bool.and_true, decide_eq_true_eq]
      split
      · next hopen => exact .skip (.openGroup hset hlt ((guard _).mp hopen))
      · split
        · next hclose => exact .skip (.closeGroup hset hlt ((guard _).mp hclose))
        · next hgroup =>
          split
          · next hopen => exact reads_setOpening_marked hset hlt ((guard _).mp hopen)
          · next hopen =>
            rw [if_neg (by simp [hset])]
            split
            · next hpercent => exact reads_escape_marked hset hpercent
            · next hpercent =>
              unfold readLiteral
              split
              · exact .fault
              · exact reads_single hset hat _ 1 Nat.one_pos hlt
                  (.byte hpercent (mt (guard _).mpr hopen) (mt (guard _).mpr hgroup))

/-- A `]` outside of a set is read as a literal, and the start of its element is not marked. -/
theorem reads_byte_bracket (hset : s.inSet = false)
    (hat : cfg.pattern.byteAt s.cursor = closeSet) : Reads cfg s (readByte cfg s) := by
  have hlt : s.cursor < cfg.pattern.length := by
    refine Source.lt_length_of_byteAt_ne ?_
    rw [hat]
    decide
  have hliteral : readByte cfg s = readLiteral cfg s closeSet := by
    unfold readByte
    rw [hat]
    simp [hset, closeSet, dot, openGroup, closeGroup, openSet, percent]
  rw [hliteral, readLiteral]
  split
  · exact .fault
  · next c _ =>
    have hfinish : finishRead { s with accepts := closeSet == c, cursor := s.cursor + 1 } =
        .element
          { s with
            accepts := if s.inverted then !(closeSet == c) else closeSet == c
            cursor := s.cursor + 1 } := finishRead_of_not_inSet hset
    rw [hfinish]
    exact .element (.bracket _ hset hlt hat)

/-! ## Every reading -/

/-- **A reading does one of the things listed.** -/
theorem reads (hlt : s.cursor < cfg.pattern.length) : Reads cfg s (read cfg s) := by
  unfold read
  dsimp only
  by_cases hset : s.inSet = true
  · -- inside a set nothing is marked
    have hmark : ¬(decide (cfg.pattern.byteAt s.cursor ≠ closeSet) && !s.inSet) = true := by
      simp [hset]
    rw [if_neg hmark]
    split
    · next hmode =>
      have hacc : s.accepts = true := (Bool.and_eq_true_iff.mp hmode).2
      split
      · exact .fault
      · next hends => exact .skip (.member s.accepts 1 hset Nat.one_pos hlt (.passed hacc hends))
      · next hends => exact reads_byte_of_inSet hset fun _ => hends
    · next hmode => exact reads_byte_of_inSet hset fun hacc => absurd (by simp [hset, hacc]) hmode
  · have hset' : s.inSet = false := by simpa using hset
    rw [if_neg (by simp [hset'])]
    by_cases hat : cfg.pattern.byteAt s.cursor = closeSet
    · rw [if_neg (by simp [hat])]
      exact reads_byte_bracket hset' hat
    · rw [if_pos (by simp [hat, hset'])]
      exact reads_byte_marked hset' hat

theorem skips_of_read {s' : State} (hlt : s.cursor < cfg.pattern.length)
    (h : read cfg s = .skip s') : Skips cfg s s' := by
  have hreads := reads hlt
  rw [h] at hreads
  cases hreads with
  | skip hskip => exact hskip

theorem completes_of_read {e : State} (hlt : s.cursor < cfg.pattern.length)
    (h : read cfg s = .element e) : Completes cfg s e := by
  have hreads := reads hlt
  rw [h] at hreads
  cases hreads with
  | element helem => exact helem

/-- What a completed element leaves alone, and where it may begin. -/
theorem completes_eq {e : State} (he : Completes cfg s e) :
    ∃ inSet accepts elementStart n,
      e = { s with
        inSet := inSet, accepts := accepts, elementStart := elementStart, cursor := s.cursor + n } ∧
      inSet = false ∧ 0 < n ∧ s.cursor + n ≤ cfg.pattern.length ∧
      (elementStart = s.elementStart ∨ elementStart = s.cursor) := by
  cases he with
  | set a hset hle =>
    exact ⟨false, a, s.elementStart, 1, rfl, rfl, Nat.one_pos, hle, Or.inl rfl⟩
  | bracket a hset hle hat =>
    exact ⟨s.inSet, a, s.elementStart, 1, rfl, hset, Nat.one_pos, hle, Or.inl rfl⟩
  | single a n hset hn hle hat =>
    exact ⟨s.inSet, a, s.cursor, n, rfl, hset, hn, hle, Or.inr rfl⟩

end LuaPattern
end Linewise
