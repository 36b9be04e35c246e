import Mathlib.Tactic.Ring
import Linewise.Proofs.LuaPattern.Bounds
import Linewise.Proofs.LuaPattern.Trace

/-!
# A match that does not circle ends

Three things go back and forth in a match: the cursor, the position and the number of returns. What
keeps a match from going on for ever is the order in which they do.

## 1.  Barriers

Returns are limited, and between two returns the position never goes back. While it stays, the
cursor can still go back: right after a frontier an advance leaves the character at hand, and a
greedy element that is repeated there is read again. This uses the frontier up, though. Behind it
stands a *barrier* that the cursor does not pass until the position moves: the next frontier that is
met stands further on in the pattern. `Barrier cfg b s` says that `b` is one.

## 2.  The rank

The rank of a state is a number of four digits: the returns that are left, the bytes in front of the
machine, how far the barrier can still move (twice, and once more while an advance is owed to a
frontier), and how far the cursor can. Every turn that does not circle lowers it
(`exists_barrier_of_turns`): a higher digit falls, or it stays and a lower one falls.

## 3.  The bound

A rank lies below the cube of the area of pattern and text, and so does the number of turns
(`endsWithin_of_not_circles`).
-/

namespace Linewise
namespace LuaPattern

variable {cfg : Setting} {s s' : State} {b : Nat}

/-! ## 1.  Barriers -/

/-- The cursor does not go back in front of `b` before the position moves. -/
structure Barrier (cfg : Setting) (b : Nat) (s : State) : Prop where
  /-- The cursor is behind the barrier. -/
  le_cursor : b ≤ s.cursor
  /-- It is in the pattern. -/
  cursor_le : s.cursor ≤ cfg.pattern.length
  /-- So is the start of the element. -/
  elementStart_le : s.elementStart ≤ cfg.pattern.length
  /-- An element that can be repeated without leaving the character begins behind the barrier. -/
  le_elementStart : s.rewound = true → b ≤ s.elementStart
  /-- A frontier that waits stands between the barrier and the cursor, and was met at the character
  at hand. -/
  frontier : ∀ place met, s.frontier = some (place, met) →
    b ≤ place ∧ place < s.cursor ∧ met = s.position ∧ s.position ≠ cfg.text.size
  /-- The returns are limited. -/
  returns_le : s.returns ≤ cfg.returnLimit

/-- A state without a frontier and without an advance owed to one has the barrier `0`. -/
theorem barrier_zero (hcursor : s.cursor ≤ cfg.pattern.length)
    (hstart : s.elementStart ≤ cfg.pattern.length) (hfrontier : s.frontier = none)
    (hreturns : s.returns ≤ cfg.returnLimit) : Barrier cfg 0 s where
  le_cursor := Nat.zero_le _
  cursor_le := hcursor
  elementStart_le := hstart
  le_elementStart _ := Nat.zero_le _
  frontier := by simp [hfrontier]
  returns_le := hreturns

/-! ## 2.  The rank -/

/-- How far a barrier can still move, and whether an advance is owed to a frontier. -/
def slack (cfg : Setting) (b : Nat) (rewound : Bool) : Nat :=
  2 * (cfg.pattern.length - b) + (if rewound then 1 else 0)

/-- The rank of a state with a barrier. -/
def rank (cfg : Setting) (b : Nat) (s : State) : Nat :=
  (((cfg.returnLimit - s.returns) * (cfg.text.size + 1) + (cfg.text.size - s.position)) *
      (2 * cfg.pattern.length + 2) + slack cfg b s.rewound) *
    (cfg.pattern.length + 1) + (cfg.pattern.length - s.cursor)

/-- Two numbers in the same base: the higher digits decide, and then the lowest one. -/
theorem digits_lt {x x' y y' base : Nat} (hbase : y' < base) (h : x' < x ∨ x' = x ∧ y' < y) :
    x' * base + y' < x * base + y := by
  rcases h with hhigh | ⟨rfl, hlow⟩
  · calc x' * base + y' < x' * base + base := Nat.add_lt_add_left hbase _
      _ = (x' + 1) * base := by rw [Nat.succ_mul]
      _ ≤ x * base := Nat.mul_le_mul_right _ hhigh
      _ ≤ x * base + y := Nat.le_add_right _ _
  · exact Nat.add_lt_add_left hlow _

theorem slack_lt (cfg : Setting) (b : Nat) (rewound : Bool) :
    slack cfg b rewound < 2 * cfg.pattern.length + 2 := by
  rw [slack]
  split <;> omega

/-- A return lowers the rank, whatever else happens. -/
theorem rank_lt_of_returns {b' : Nat} (hlimit : s.returns < cfg.returnLimit)
    (h : s'.returns = s.returns + 1) : rank cfg b' s' < rank cfg b s := by
  refine digits_lt (by omega) (Or.inl (digits_lt (slack_lt _ _ _) (Or.inl
    (digits_lt (by omega) (Or.inl ?_)))))
  omega

/-- An advance lowers the rank, whatever the barrier. -/
theorem rank_lt_of_position {b' : Nat} (hle : s'.position ≤ cfg.text.size)
    (hreturns : s'.returns = s.returns) (h : s.position < s'.position) :
    rank cfg b' s' < rank cfg b s := by
  refine digits_lt (by omega) (Or.inl (digits_lt (slack_lt _ _ _) (Or.inl
    (digits_lt (by omega) (Or.inr ⟨by rw [hreturns], ?_⟩)))))
  omega

/-- Where the position stays, less slack lowers the rank. -/
theorem rank_lt_of_slack {b' : Nat} (hposition : s'.position = s.position)
    (hreturns : s'.returns = s.returns) (h : slack cfg b' s'.rewound < slack cfg b s.rewound) :
    rank cfg b' s' < rank cfg b s := by
  refine digits_lt (by omega) (Or.inl (digits_lt (slack_lt _ _ _) (Or.inr ⟨?_, h⟩)))
  rw [hposition, hreturns]

/-- Where the position stays and there is no more slack, a step forward in the pattern lowers the
rank. -/
theorem rank_lt_of_cursor {b' : Nat} (hposition : s'.position = s.position)
    (hreturns : s'.returns = s.returns) (hslack : slack cfg b' s'.rewound ≤ slack cfg b s.rewound)
    (hle : s'.cursor ≤ cfg.pattern.length) (h : s.cursor < s'.cursor) :
    rank cfg b' s' < rank cfg b s := by
  rcases Nat.lt_or_eq_of_le hslack with hlt | heq
  · exact rank_lt_of_slack hposition hreturns hlt
  · refine digits_lt (by omega) (Or.inr ⟨?_, by omega⟩)
    rw [hposition, hreturns, heq]

/-! ### One turn -/

/-- A step forward in the pattern at the same character keeps the barrier. -/
theorem Barrier.forward (h : Barrier cfg b s) (hfrontier : s'.frontier = s.frontier)
    (hposition : s'.position = s.position) (hreturns : s'.returns = s.returns)
    (hrewound : s'.rewound = s.rewound) (hlt : s.cursor < s'.cursor)
    (hle : s'.cursor ≤ cfg.pattern.length) (hstart_le : s'.elementStart ≤ cfg.pattern.length)
    (hstart : s.rewound = true → b ≤ s'.elementStart) :
    Barrier cfg b s' ∧ rank cfg b s' < rank cfg b s := by
  refine ⟨⟨Nat.le_trans h.le_cursor (Nat.le_of_lt hlt), hle, hstart_le, ?_, ?_, ?_⟩, ?_⟩
  · rw [hrewound]
    exact hstart
  · intro place met hsome
    obtain ⟨hb, hplace, hmet, hend⟩ := h.frontier place met (hfrontier ▸ hsome)
    rw [hposition]
    exact ⟨hb, Nat.lt_trans hplace hlt, hmet, hend⟩
  · rw [hreturns]
    exact h.returns_le
  · exact rank_lt_of_cursor hposition hreturns (Nat.le_of_eq (by rw [hrewound])) hle hlt

/-- A reading that completes nothing keeps the barrier. -/
theorem barrier_of_skips (h : Barrier cfg b s) (hpos : s.position ≠ cfg.text.size)
    (hskip : Skips cfg s s') : Barrier cfg b s' ∧ rank cfg b s' < rank cfg b s := by
  have hcursor := h.le_cursor
  cases hskip with
  | member a n hset hn hle =>
    exact h.forward rfl rfl rfl rfl (Nat.lt_add_of_pos_right hn) hle h.elementStart_le
      h.le_elementStart
  | openGroup hset hle =>
    exact h.forward rfl rfl rfl rfl (Nat.lt_succ_self _) hle h.cursor_le fun _ => hcursor
  | closeGroup hset hle =>
    exact h.forward rfl rfl rfl rfl (Nat.lt_succ_self _) hle hle
      fun _ => Nat.le_succ_of_le hcursor
  | openSet inv n hset hn hinv hle =>
    exact h.forward rfl rfl rfl rfl (Nat.lt_add_of_pos_right hn) hle h.cursor_le
      fun _ => hcursor
  | frontier hle hat hkind =>
    refine ⟨⟨Nat.le_add_right_of_le hcursor, hle, ?_, ?_, ?_, h.returns_le⟩, ?_⟩
    · show (if s.inSet then s.elementStart else s.cursor) ≤ cfg.pattern.length
      split
      · exact h.elementStart_le
      · exact h.cursor_le
    · intro hrewound
      show b ≤ if s.inSet then s.elementStart else s.cursor
      split
      · exact h.le_elementStart hrewound
      · exact hcursor
    · intro place met hsome
      obtain ⟨hplace, hmet⟩ := Prod.mk.inj (Option.some.inj hsome)
      subst hplace hmet
      exact ⟨hcursor, Nat.lt_add_of_pos_right (by decide), rfl, hpos⟩
    · exact rank_lt_of_cursor rfl rfl (Nat.le_refl _) hle (Nat.lt_add_of_pos_right (by decide))

/-- `q` stands behind the element that is read at `s`, with the barrier `b'`. -/
structure Behind (cfg : Setting) (b : Nat) (s : State) (b' : Nat) (q : State) : Prop where
  /-- The barrier is behind it. -/
  le_cursor : b' ≤ q.cursor
  /-- The element took some of the pattern. -/
  lt_cursor : s.cursor < q.cursor
  /-- It ends in the pattern. -/
  cursor_le : q.cursor ≤ cfg.pattern.length
  /-- It begins there. -/
  elementStart_le : q.elementStart ≤ cfg.pattern.length
  /-- No frontier waits any more. -/
  frontier : q.frontier = none
  /-- The character is the same. -/
  position : q.position = s.position
  /-- The machine has not returned. -/
  returns : q.returns = s.returns
  /-- There is no more slack. -/
  slack_le : slack cfg b' q.rewound ≤ slack cfg b s.rewound
  /-- If an advance is owed to a frontier, the element begins behind the barrier, unless it begins
  in front of the frontier that it was read with. -/
  start : q.rewound = true → b' ≤ q.elementStart ∨
    ∃ place met, s.frontier = some (place, met) ∧ q.elementStart ≤ place

/-- Behind a frontier that was pending, the barrier has moved. -/
theorem exists_behind_of_passes {e p : State} (h : Barrier cfg b s)
    (he : Completes cfg { s with repeating := false } e) (hp : Passes (tally e) p) :
    ∃ b', Behind cfg b s b' (quantify cfg p) := by
  obtain ⟨inSet, accepts, elementStart, n, rfl, hset, hn, hle, hstart⟩ := completes_eq he
  obtain ⟨least, most, m, fin, hq, -, hm⟩ := quantify_eq cfg p
  have hcursor := h.le_cursor
  have hstart_le : elementStart ≤ cfg.pattern.length := by
    rcases hstart with rfl | rfl
    · exact h.elementStart_le
    · exact h.cursor_le
  have hle' : p.cursor + m ≤ cfg.pattern.length := by
    have hp_cursor : p.cursor = s.cursor + n := by cases hp <;> rfl
    rcases hm with rfl | ⟨rfl, hm⟩
    · rw [hp_cursor]
      exact hle
    · exact hm
  rw [hq]
  cases hp with
  | free hnone =>
    refine ⟨b, Nat.le_add_right_of_le (Nat.le_add_right_of_le hcursor),
      Nat.lt_add_right _ (Nat.lt_add_of_pos_right hn), hle', hstart_le, hnone, rfl, rfl,
      Nat.le_refl _, fun hrewound => Or.inl ?_⟩
    show b ≤ elementStart
    rcases hstart with rfl | rfl
    · exact h.le_elementStart hrewound
    · exact hcursor
  | @held place met hsome =>
    obtain ⟨hb, hplace, hmet, -⟩ := h.frontier place met hsome
    refine ⟨place + 1, Nat.le_add_right_of_le (Nat.le_add_right_of_le hplace),
      Nat.lt_add_right _ (Nat.lt_add_of_pos_right hn), hle', hstart_le, rfl, hmet, rfl, ?_,
      fun _ => ?_⟩
    · -- that the barrier moves behind the frontier pays for the advance that is owed
      show slack cfg (place + 1) true ≤ slack cfg b s.rewound
      have hinside : place < cfg.pattern.length := Nat.lt_of_lt_of_le hplace h.cursor_le
      rw [slack, slack, if_pos rfl]
      omega
    · rcases Nat.lt_or_ge place elementStart with hlt | hge
      · exact Or.inl hlt
      · exact Or.inr ⟨place, met, hsome, hge⟩

/-- An advance either moves, and then no barrier is needed any more, or it stays because it was owed
to a frontier, and then there is less slack. -/
theorem exists_barrier_of_advance {q : State} {b' : Nat} (h : Barrier cfg b s)
    (hq : Behind cfg b s b' q) (hposition : s'.position = (advance cfg q).position)
    (hle : s'.position ≤ cfg.text.size) (hrewound : s'.rewound = false)
    (hfrontier : s'.frontier = q.frontier) (hreturns : s'.returns = q.returns)
    (hcursor : s'.cursor ≤ cfg.pattern.length) (hstart : s'.elementStart ≤ cfg.pattern.length)
    (hb' : q.rewound = true → s'.position = s.position → b' ≤ s'.cursor) :
    ∃ b', Barrier cfg b' s' ∧ rank cfg b' s' < rank cfg b s := by
  rw [hq.frontier] at hfrontier
  rw [hq.returns] at hreturns
  have hlimit : s'.returns ≤ cfg.returnLimit := by
    rw [hreturns]
    exact h.returns_le
  have hforward := cfg.text.le_charStart (if q.rewound then q.position else q.position + 1)
  have hadvance : s'.position =
      cfg.text.charStart (if q.rewound then q.position else q.position + 1) := hposition
  rw [← hadvance, hq.position] at hforward
  rcases Nat.lt_or_ge s.position s'.position with hmoved | hback
  · exact ⟨0, barrier_zero hcursor hstart hfrontier hlimit,
      rank_lt_of_position hle hreturns hmoved⟩
  · by_cases howed : q.rewound = true
    · rw [if_pos howed] at hforward
      have hsame : s'.position = s.position := Nat.le_antisymm hback hforward
      refine ⟨b', ⟨hb' howed hsame, hcursor, hstart, ?_, ?_, hlimit⟩, ?_⟩
      · simp [hrewound]
      · simp [hfrontier]
      · refine rank_lt_of_slack hsame hreturns (Nat.lt_of_lt_of_le ?_ hq.slack_le)
        rw [hrewound, howed, slack, slack]
        simp
    · rw [if_neg howed] at hforward
      omega

/-- **Every turn that does not circle lowers the rank**, behind some barrier. -/
theorem exists_barrier_of_step (h : Barrier cfg b s) (hin : InText cfg s)
    (hstop : cfg.stop ≤ cfg.pattern.length) (hstep : step cfg s = .next s')
    (hcircle : ¬ Circles cfg s) :
    ∃ b', Barrier cfg b' s' ∧ rank cfg b' s' < rank cfg b s := by
  have hturn := turns_of_step hstop hstep
  have hle := (inText_of_turns hin hturn).position_le
  cases hturn with
  | back hpos hretry hreturns =>
    have hfrontier : s.frontier = none := by
      cases hcase : s.frontier with
      | none => rfl
      | some pair =>
        obtain ⟨-, -, -, hne⟩ := h.frontier pair.1 pair.2 hcase
        exact absurd hpos hne
    have hcursor := cursor_lt_of_step hstep
    exact ⟨0, barrier_zero (Nat.le_trans hcursor hstop) h.elementStart_le hfrontier hreturns,
      rank_lt_of_returns hreturns rfl⟩
  | skip hpos hread hskip =>
    have hs : Barrier cfg b { s with repeating := false } :=
      ⟨h.le_cursor, h.cursor_le, h.elementStart_le, h.le_elementStart, h.frontier, h.returns_le⟩
    have hforward := barrier_of_skips hs hpos hskip
    exact ⟨b, hforward⟩
  | close hpos hread he hclosed hclose =>
    cases hclose with
    | again hp hacc hlimit point hpoint =>
      obtain ⟨b', hq⟩ := exists_behind_of_passes h he hp
      refine exists_barrier_of_advance h hq rfl hle rfl rfl rfl hq.elementStart_le
        hq.elementStart_le fun howed hsame => ?_
      rcases hq.start howed with hstart | ⟨place, met, hsome, hplace⟩
      · exact hstart
      · exact absurd ⟨_, place, met, hstep, hsome, hplace, hsame⟩ hcircle
    | giveWay hp hacc hlt =>
      obtain ⟨b', hq⟩ := exists_behind_of_passes h he hp
      exact exists_barrier_of_advance h hq rfl hle rfl rfl rfl hlt hq.elementStart_le
        fun _ _ => Nat.le_succ_of_le hq.le_cursor
    | taken hp hacc =>
      obtain ⟨b', hq⟩ := exists_behind_of_passes h he hp
      exact exists_barrier_of_advance h hq rfl hle rfl rfl rfl hq.cursor_le hq.cursor_le
        fun _ _ => hq.le_cursor
    | left hp =>
      obtain ⟨b', hq⟩ := exists_behind_of_passes h he hp
      refine ⟨b', ⟨hq.le_cursor, hq.cursor_le, hq.cursor_le, fun _ => hq.le_cursor, ?_, ?_⟩, ?_⟩
      · have hnone := hq.frontier
        simp [settled, hnone]
      · rw [settled]
        exact hq.returns ▸ h.returns_le
      · exact rank_lt_of_cursor hq.position hq.returns hq.slack_le hq.cursor_le hq.lt_cursor

/-! ## 3.  The bound -/

/-- A match in which no turn circles ends before its rank is used up. -/
theorem endsWithin_of_rank_lt (hstop : cfg.stop ≤ cfg.pattern.length) {n : Nat}
    (h : Barrier cfg b s) (hin : InText cfg s) (hn : rank cfg b s < n)
    (hcircle : ∀ m s', stateAfter cfg m s = some s' → ¬ Circles cfg s') : EndsWithin cfg n s := by
  rw [EndsWithin]
  induction n generalizing b s with
  | zero => cases hn
  | succ n ih =>
    cases hstep : step cfg s with
    | done verdict => exact stateAfter_succ_of_done hstep n
    | next s' =>
      obtain ⟨b', hb', hlt⟩ := exists_barrier_of_step h hin hstop hstep (hcircle 0 s rfl)
      rw [stateAfter_succ_of_next hstep]
      refine ih hb' (inText_of_turns hin (turns_of_step hstop hstep)) (by omega) fun m t ht => ?_
      refine hcircle (m + 1) t ?_
      rw [stateAfter_succ_of_next hstep]
      exact ht

/-- A number with a digit in front of it lies below the next number in front of nothing. -/
theorem digits_lt_mul {x y high base : Nat} (hx : x < high) (hy : y < base) :
    x * base + y < high * base := by
  calc x * base + y < x * base + base := Nat.add_lt_add_left hy _
    _ = (x + 1) * base := by rw [Nat.succ_mul]
    _ ≤ high * base := Nat.mul_le_mul_right _ hx

/-- **A rank at the start of a match lies below the cube.** -/
theorem rank_lt_cube (hlimit : cfg.returnLimit ≤ (cfg.pattern.length + 1) * (cfg.text.size + 1)) :
    rank cfg b s < ((cfg.pattern.length + 2) * (cfg.text.size + 2)) ^ 3 := by
  have hpos : cfg.text.size - s.position < cfg.text.size + 1 := by omega
  have hcursor : cfg.pattern.length - s.cursor < cfg.pattern.length + 1 := by omega
  have hreturns : cfg.returnLimit - s.returns < cfg.returnLimit + 1 := by omega
  have hrank : rank cfg b s < (cfg.returnLimit + 1) * (cfg.text.size + 1) *
      (2 * cfg.pattern.length + 2) * (cfg.pattern.length + 1) :=
    digits_lt_mul (digits_lt_mul (digits_lt_mul hreturns hpos) (slack_lt _ _ _)) hcursor
  have harea : (cfg.pattern.length + 2) * (cfg.text.size + 2) =
      (cfg.pattern.length + 1) * (cfg.text.size + 1) + (cfg.pattern.length + 1) +
        (cfg.text.size + 1) + 1 := by ring
  refine Nat.lt_of_lt_of_le hrank ?_
  calc (cfg.returnLimit + 1) * (cfg.text.size + 1) * (2 * cfg.pattern.length + 2) *
        (cfg.pattern.length + 1)
      = (cfg.returnLimit + 1) * ((cfg.pattern.length + 1) * (cfg.text.size + 1)) *
          ((cfg.pattern.length + 1) * 2) := by ring
    _ ≤ (cfg.pattern.length + 2) * (cfg.text.size + 2) *
          ((cfg.pattern.length + 2) * (cfg.text.size + 2)) *
          ((cfg.pattern.length + 2) * (cfg.text.size + 2)) := by
        refine Nat.mul_le_mul (Nat.mul_le_mul ?_ ?_) (Nat.mul_le_mul ?_ ?_) <;> omega
    _ = ((cfg.pattern.length + 2) * (cfg.text.size + 2)) ^ 3 := by ring

/-- **A match that never circles ends within the cube of the area.** -/
theorem endsWithin_of_not_circles {pattern : Source} {text : Text} {offset : Nat}
    (h : start pattern text offset = .ready cfg s)
    (hcircle : ∀ n s', stateAfter cfg n s = some s' → ¬ Circles cfg s') :
    EndsWithin cfg (((pattern.length + 2) * (text.size + 2)) ^ 3) s := by
  have hin := inText_of_start h
  obtain ⟨hle, ⟨cursor, rfl, hcursor⟩, rfl, rfl, hstop, hlimit⟩ := start_eq_ready h
  refine endsWithin_of_rank_lt (b := 0) hstop ?_ hin (rank_lt_cube ?_) hcircle
  · exact barrier_zero hcursor (Nat.zero_le _) rfl (Nat.zero_le _)
  · rw [hlimit]
    exact Nat.mul_le_mul_left _ (by omega)

end LuaPattern
end Linewise
