import Linewise.Proofs.LuaPattern.Reading

/-!
# What one turn can do

A turn at the end of the input goes back to the remembered point. Any other turn that does not end
the match reads, and if that completes an element, closes it. Closing counts the match, tests the
pending frontier and takes the quantifier. Then one of three things happens:

* the element is repeated from its start (`Closes.again`);
* a lazy element gives way to its successor (`Closes.giveWay`);
* the element is settled, and the last character is taken if it was accepted (`Closes.taken`), or
  left if it was not (`Closes.left`).

`turns_of_step` says that these are all. A statement about every turn is proved by going through
them, with `Skips` for the readings that complete nothing.
-/

namespace Linewise
namespace LuaPattern

variable {cfg : Setting} {s s' : State}

/-! ## Counting, frontier, quantifier -/

/-- The element just read, counted if it was accepted. -/
def tally (e : State) : State :=
  { e with count := if e.accepts then e.count + 1 else e.count, accepts := false }

/-- The state behind the quantifier at the cursor. -/
def quantify (cfg : Setting) (s : State) : State :=
  { (takeQuantifier cfg s).1 with finished := (takeQuantifier cfg s).1.cursor = cfg.stop }

/-- A pending frontier is passed, or there is none. -/
inductive Passes (s : State) : State → Prop where
  /-- There is no frontier. -/
  | free (h : s.frontier = none) : Passes s s
  /-- The frontier is passed: the position goes back to where it was met. -/
  | held {place met : Nat} (h : s.frontier = some (place, met)) :
      Passes s { s with frontier := none, position := met, rewound := true }

theorem passes_of_passFrontier (h : passFrontier cfg s = .next s') : Passes s s' := by
  unfold passFrontier at h
  split at h
  · next hnone =>
    cases h
    exact .free hnone
  · next hsome =>
    split at h
    · cases h
    · dsimp only at h
      split at h
      · split at h
        · cases h
          exact .held hsome
        · cases h
      · cases h

/-- Taking a quantifier changes the limits and the cursor, which moves by a byte at most. -/
theorem takeQuantifier_eq (cfg : Setting) (s : State) :
    ∃ least most n, (takeQuantifier cfg s).1 =
        { s with least := least, most := most, cursor := s.cursor + n } ∧
      (most = none ∨ most = some 1 ∨ most = s.most) ∧
      (n = 0 ∨ n = 1 ∧ s.cursor < cfg.pattern.length) := by
  have inside : ∀ {c : UInt8}, cfg.pattern.byteAt s.cursor = c → c ≠ 0 →
      s.cursor < cfg.pattern.length := by
    intro c hat hne
    rw [← hat] at hne
    exact Source.lt_length_of_byteAt_ne hne
  unfold takeQuantifier
  dsimp only
  split
  · next hat =>
    exact ⟨0, none, 1, rfl, Or.inl rfl, Or.inr ⟨rfl, inside hat (by decide)⟩⟩
  · split
    · next hat =>
      exact ⟨0, none, 1, rfl, Or.inl rfl, Or.inr ⟨rfl, inside hat (by decide)⟩⟩
    · split
      · next hat =>
        exact ⟨1, none, 1, rfl, Or.inl rfl, Or.inr ⟨rfl, inside hat (by decide)⟩⟩
      · split
        · next hat =>
          exact ⟨0, some 1, 1, rfl, Or.inr (Or.inl rfl), Or.inr ⟨rfl, inside hat (by decide)⟩⟩
        · exact ⟨s.least, s.most, 0, rfl, Or.inr (Or.inr rfl), Or.inl rfl⟩

/-- Where the limit of an element is none or `1`, it is so behind the quantifier too. -/
theorem most_takeQuantifier (cfg : Setting) (h : s.most = none ∨ s.most = some 1) :
    (takeQuantifier cfg s).1.most = none ∨ (takeQuantifier cfg s).1.most = some 1 := by
  obtain ⟨least, most, n, hq, hmost, -⟩ := takeQuantifier_eq cfg s
  rw [hq]
  rcases hmost with hnone | hone | hleft
  · exact Or.inl hnone
  · exact Or.inr hone
  · exact hleft ▸ h

/-- What stands behind a quantifier differs from what stood in front of it in the limits, in the
cursor, and in the flag for the end of the pattern. -/
theorem quantify_eq (cfg : Setting) (s : State) :
    ∃ least most n b, quantify cfg s =
        { s with least := least, most := most, cursor := s.cursor + n, finished := b } ∧
      (most = none ∨ most = some 1 ∨ most = s.most) ∧
      (n = 0 ∨ n = 1 ∧ s.cursor < cfg.pattern.length) := by
  obtain ⟨least, most, n, h, hmost, hn⟩ := takeQuantifier_eq cfg s
  exact ⟨least, most, n, _, by rw [quantify, h], hmost, hn⟩

/-! ## Closing an element -/

/-- The state behind an element that is done with, in which the next element begins. -/
def settled (s : State) (cursor : Nat) : State :=
  { s with least := 1, most := some 1, count := 0, elementStart := cursor, inverted := false }

/-- Closing the element that was just read goes on at a state. -/
inductive Closes (cfg : Setting) (e : State) : State → Prop where
  /-- The element is repeated. The character at hand may become the remembered point. -/
  | again {p : State} (hp : Passes (tally e) p) (hacc : e.accepts = true)
      (hlimit : belowLimit (quantify cfg p).count (quantify cfg p).most = true)
      (point : Option Nat) (hpoint : point = some p.position ∨ point = p.retry) :
      Closes cfg e
        (advance cfg
          { quantify cfg p with
            retry := point
            cursor := (quantify cfg p).elementStart
            repeating := true })
  /-- The element is lazy and gives way to its successor, of which one byte is passed over. -/
  | giveWay {p : State} (hp : Passes (tally e) p) (hacc : e.accepts = true)
      (hlt : (quantify cfg p).cursor < cfg.pattern.length)
      (hpass : passFrontier cfg (tally e) = .next p)
      (hlimit : belowLimit (quantify cfg p).count (quantify cfg p).most = true)
      (hlazy : (takeQuantifier cfg p).2 = false)
      (hnext : probe (cfg.pattern.drop (quantify cfg p).cursor) cfg.text (quantify cfg p).position =
        some true) :
      Closes cfg e
        (advance cfg
          { quantify cfg p with
            cursor := (quantify cfg p).cursor + 1
            finished := (quantify cfg p).cursor + 1 = cfg.stop })
  /-- The element is settled and the character is taken. -/
  | taken {p : State} (hp : Passes (tally e) p) (hacc : e.accepts = true) :
      Closes cfg e (settled (advance cfg (quantify cfg p)) (quantify cfg p).cursor)
  /-- The element is settled and the character is left. -/
  | left {p : State} (hp : Passes (tally e) p) :
      Closes cfg e (settled (quantify cfg p) (quantify cfg p).cursor)

/-- No element at all accepts nothing. -/
theorem probe_nil_ne_some_true (t : Text) (offset : Nat) : probe [] t offset ≠ some true := by
  unfold probe start
  by_cases h : t.size < offset
  · rw [if_pos h]
    exact Option.some_ne_none true |>.symm
  · rw [if_neg h]
    simp [probeFrom, Source.byteAt, caret]

theorem closes_of_again {e p : State} (hpass : passFrontier cfg (tally e) = .next p)
    (hacc : e.accepts = true)
    (hlimit : belowLimit (quantify cfg p).count (quantify cfg p).most = true)
    (h : again cfg (quantify cfg p) (takeQuantifier cfg p).2 = .next s') : Closes cfg e s' := by
  have hp := passes_of_passFrontier hpass
  obtain ⟨least, most, n, b, hq, -⟩ := quantify_eq cfg p
  unfold again at h
  split at h
  · cases h
  · next next hprobe =>
    split at h
    · cases h
      refine .again hp hacc hlimit _ ?_
      cases next with
      | true => exact Or.inl (by rw [if_pos rfl, hq])
      | false => exact Or.inr (by rw [if_neg Bool.false_ne_true, hq])
    · next hlazy =>
      cases h
      obtain ⟨hgreedy, hnext⟩ : (takeQuantifier cfg p).2 = false ∧ next = true := by
        simpa using hlazy
      rw [hnext] at hprobe
      refine .giveWay hp hacc ?_ hpass hlimit hgreedy hprobe
      -- the successor accepts, so there is one
      rcases Nat.lt_or_ge (quantify cfg p).cursor cfg.pattern.length with hlt | hge
      · exact hlt
      · rw [List.drop_eq_nil_of_le hge] at hprobe
        exact absurd hprobe (probe_nil_ne_some_true _ _)

theorem closes_of_settle {e p : State} (hp : Passes (tally e) p)
    (h : settle cfg (quantify cfg p) e.accepts = .next s') : Closes cfg e s' := by
  unfold settle at h
  split at h
  · cases h
  · dsimp only at h
    split at h
    · next htake =>
      cases h
      have hacc : e.accepts = true := by
        rw [Bool.and_eq_true] at htake
        exact htake.2
      exact .taken hp hacc
    · cases h
      exact .left hp

/-- What closing does behind the frontier. -/
theorem close_of_passes {e p : State} (hpass : passFrontier cfg (tally e) = .next p) :
    close cfg e =
      if e.accepts && belowLimit (quantify cfg p).count (quantify cfg p).most then
        again cfg (quantify cfg p) (takeQuantifier cfg p).2
      else settle cfg (quantify cfg p) e.accepts := by
  unfold tally at hpass
  unfold close
  dsimp only
  rw [hpass]
  rfl

theorem close_of_done {e : State} {verdict : Verdict}
    (hpass : passFrontier cfg (tally e) = .done verdict) : close cfg e = .done verdict := by
  unfold tally at hpass
  unfold close
  dsimp only
  rw [hpass]

/-- **Closing an element does one of four things.** -/
theorem closes_of_close {e : State} (h : close cfg e = .next s') : Closes cfg e s' := by
  cases hpass : passFrontier cfg (tally e) with
  | done verdict =>
    rw [close_of_done hpass] at h
    cases h
  | next p =>
    rw [close_of_passes hpass] at h
    split at h
    · next hagain =>
      rw [Bool.and_eq_true] at hagain
      exact closes_of_again hpass hagain.1 hagain.2 h
    · exact closes_of_settle (passes_of_passFrontier hpass) h

/-- No frontier waits behind an element that was closed. -/
theorem Closes.frontier_eq_none {e : State} (h : Closes cfg e s') : s'.frontier = none := by
  have behind : ∀ {p : State}, Passes (tally e) p → (quantify cfg p).frontier = none := by
    intro p hp
    obtain ⟨least, most, n, b, hq, -⟩ := quantify_eq cfg p
    rw [hq]
    cases hp with
    | free hnone => exact hnone
    | held => rfl
  cases h with
  | again hp => exact behind hp
  | giveWay hp => exact behind hp
  | taken hp => exact behind hp
  | left hp => exact behind hp

/-! ## One turn -/

/-- One turn goes from a state to another one. -/
inductive Turns (cfg : Setting) (s : State) : State → Prop where
  /-- The input has run out, and the machine goes back to the remembered point. -/
  | back {point : Nat} (hpos : s.position = cfg.text.size) (hretry : s.retry = some point)
      (hreturns : s.returns < cfg.returnLimit) (hfinished : s.finished = false) :
      Turns cfg s
        { s with
          retry := none
          returns := s.returns + 1
          position := point
          cursor := s.cursor + 1
          repeating := false }
  /-- The reading completes no element. -/
  | skip {s' : State} (hpos : s.position ≠ cfg.text.size)
      (hread : read cfg { s with repeating := false } = .skip s')
      (h : Skips cfg { s with repeating := false } s') : Turns cfg s s'
  /-- The reading completes an element, which is closed. -/
  | close {e s' : State} (hpos : s.position ≠ cfg.text.size)
      (hread : read cfg { s with repeating := false } = .element e)
      (he : Completes cfg { s with repeating := false } e) (hclose : close cfg e = .next s')
      (h : Closes cfg e s') : Turns cfg s s'

theorem cursor_lt_of_step (h : step cfg s = .next s') : s.cursor < cfg.stop := by
  unfold step at h
  split at h
  · cases h
  · next hstop => exact Nat.lt_of_not_le hstop

/-- **A turn that does not end the match does one of three things.** -/
theorem turns_of_step (hstop : cfg.stop ≤ cfg.pattern.length) (h : step cfg s = .next s') :
    Turns cfg s s' := by
  have hlt : s.cursor < cfg.pattern.length := Nat.lt_of_lt_of_le (cursor_lt_of_step h) hstop
  unfold step at h
  rw [if_neg (Nat.not_le_of_lt (cursor_lt_of_step h))] at h
  split at h
  · next hpos =>
    unfold atEnd at h
    split at h
    · cases h
    · next hfinished =>
      split at h
      · cases h
      · next hretry =>
        split at h
        · next hreturns =>
          cases h
          exact .back hpos hretry hreturns (Bool.eq_false_iff.mpr hfinished)
        · cases h
  · next hpos =>
    split at h
    · cases h
    · cases h
    · next hread =>
      cases h
      exact .skip hpos hread (skips_of_read hlt hread)
    · next hread => exact .close hpos hread (completes_of_read hlt hread) h (closes_of_close h)

/-! ## The end of a match -/

theorem passFrontier_ne_accept {bounds : List Nat} :
    passFrontier cfg s ≠ .done (.accept bounds) := by
  intro h
  unfold passFrontier at h
  split at h
  · cases h
  · split at h
    · cases h
    · dsimp only at h
      split at h
      · split at h <;> cases h
      · cases h

theorem again_ne_accept {greedy : Bool} {bounds : List Nat} :
    again cfg s greedy ≠ .done (.accept bounds) := by
  intro h
  unfold again at h
  split at h
  · cases h
  · split at h <;> cases h

theorem settle_ne_accept {recent : Bool} {bounds : List Nat} :
    settle cfg s recent ≠ .done (.accept bounds) := by
  intro h
  unfold settle at h
  split at h <;> cases h

theorem close_ne_accept {e : State} {bounds : List Nat} :
    close cfg e ≠ .done (.accept bounds) := by
  intro h
  cases hpass : passFrontier cfg (tally e) with
  | done verdict =>
    rw [close_of_done hpass] at h
    exact passFrontier_ne_accept (hpass.trans h)
  | next p =>
    rw [close_of_passes hpass] at h
    split at h
    · exact again_ne_accept h
    · exact settle_ne_accept h

/-- A match is only ever accepted where the pattern is used up, or where the input has run out and
the rest of the pattern is optional. -/
theorem accept_of_step {bounds : List Nat} (h : step cfg s = .done (.accept bounds)) :
    (cfg.stop ≤ s.cursor ∨ s.finished = true) ∧ conclude cfg s = .accept bounds ∨
      s.cursor < cfg.stop ∧ s.position = cfg.text.size ∧ exhausted cfg s = .accept bounds := by
  unfold step at h
  split at h
  · next hstop => exact Or.inl ⟨Or.inl hstop, Turn.done.inj h⟩
  · next hstop =>
    split at h
    · next hpos =>
      unfold atEnd at h
      split at h
      · next hfinished =>
        split at h
        · exact Or.inl ⟨Or.inr hfinished, Turn.done.inj h⟩
        · cases h
      · -- forgetting the point changes nothing about the end
        refine Or.inr ⟨Nat.lt_of_not_le hstop, hpos, ?_⟩
        split at h
        · exact Turn.done.inj h
        · dsimp only at h
          split at h
          · cases h
          · exact Turn.done.inj h
    · split at h
      · cases h
      · cases h
      · cases h
      · exact absurd h close_ne_accept

/-! ## The beginning of a match -/

/-- The state in which a match begins at `offset`, with the cursor behind an anchor if there is
one. -/
def atStart (cursor offset : Nat) : State where
  cursor
  position := offset
  inSet := false
  inverted := false
  frontier := none
  rewound := false
  elementStart := 0
  retry := none
  returns := 0
  least := 1
  most := some 1
  count := 0
  accepts := false
  finished := false
  repeating := false
  closes := []

theorem start_eq_ready {pattern : Source} {text : Text} {offset : Nat}
    (h : start pattern text offset = .ready cfg s) :
    offset ≤ text.size ∧ (∃ cursor, s = atStart cursor offset ∧ cursor ≤ pattern.length) ∧
      cfg.pattern = pattern ∧ cfg.text = text ∧ cfg.stop ≤ pattern.length ∧
      cfg.returnLimit = (pattern.length + 1) * (text.size - offset + 1) := by
  have hstop : ∀ b : Bool,
      (if b then pattern.length - 1 else pattern.length) ≤ pattern.length := by
    intro b
    cases b with
    | true => exact Nat.sub_le _ _
    | false => exact Nat.le_refl _
  unfold start at h
  split at h
  · cases h
  · next hle =>
    dsimp only at h
    split at h
    · cases h
    · cases h
      refine ⟨Nat.le_of_not_lt hle, ⟨_, rfl, ?_⟩, rfl, rfl, ?_, rfl⟩
      · split
        · next hcaret =>
          refine Source.lt_length_of_byteAt_ne ?_
          rw [beq_iff_eq.mp hcaret]
          decide
        · exact Nat.zero_le _
      · exact hstop _

end LuaPattern
end Linewise
