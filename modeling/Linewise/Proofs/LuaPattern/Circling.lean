import Linewise.Proofs.LuaPattern.Alike
import Linewise.Proofs.LuaPattern.Barrier

/-!
# A match that circles never ends

When a turn circles, the machine stands in front of an element that it has read before, at the same
character. It reads the element again, meets the same frontier, passes it again, and circles again:
once is for ever.

## 1.  Reading an element again

`Replays cfg s` says that the readings that led from the start of the element to `s` can be repeated
from any state that stands at this start. It holds inside of a set, and behind a frontier that
belongs to the element; these are the readings in which an element can be in front of a frontier
that waits. `Rereads` is the invariant that contains it.

## 2.  Once is for ever

From a turn that circles, the machine comes to another one (`exists_circles_of_circles`). Hence it
does not end, and the exact condition is complete (`endsWithin_iff`): a match ends exactly if it
never circles, and then within the cube of the area. The turns that a match is given are more than
that, so those that run out of turns are exactly those that never end (`endsWithin_turnLimit_iff`),
and the answer of any other does not depend on the number (`run_turnLimit`).

## 3.  A match without an end

A `]` outside of a set does not mark its own start. So in `%f]*` the element that is repeated begins
with the frontier, and on the text `]` its match circles (`not_endsWithin_frontierBracket`).
Circling takes a frontier, though: the match of a pattern without one always ends
(`endsWithin_of_noFrontier`).
-/

namespace Linewise
namespace LuaPattern

variable {cfg : Setting} {s s' : State}

/-! ## 1.  Reading an element again -/

/-- The readings from `b` on have come to `b'`, which stands where `s` does. -/
structure Mirrors (s b b' : State) : Prop where
  /-- A reading cannot tell it from `s`. -/
  alike : Alike s b'
  /-- The set is inverted at both, or at none. -/
  inverted : b'.inverted = s.inverted
  /-- The element begins at the same place. -/
  elementStart : b'.elementStart = s.elementStart
  /-- The limit is the one at `b`. -/
  most : b'.most = b.most
  /-- The same frontier waits, if it belongs to the element. -/
  frontier : ∀ place met, s.frontier = some (place, met) → s.elementStart ≤ place →
    b'.frontier = s.frontier

/-- What was read from the start of the element up to `s` can be read again. -/
def Replays (cfg : Setting) (s : State) : Prop :=
  ∀ b, b.cursor = s.elementStart → b.elementStart = s.elementStart → b.position = s.position →
    b.inSet = false → b.accepts = false → b.inverted = s.inverted →
    ∃ n b', stateAfter cfg n b = some b' ∧ Mirrors s b b'

/-- What is known of every state of a match, as far as reading an element again needs it. -/
structure Rereads (cfg : Setting) (s : State) : Prop where
  /-- Outside of a set, nothing has accepted that is not closed. -/
  accepts : s.inSet = false → s.accepts = false
  /-- Inside of a set and behind a frontier, there is a character. -/
  position_ne : s.inSet = true ∨ s.frontier ≠ none → s.position ≠ cfg.text.size
  /-- A frontier that waits was met on the way to the cursor, at the character at hand. -/
  frontier : ∀ place met, s.frontier = some (place, met) → place < s.cursor ∧ met = s.position
  /-- There is no limit, or it is `1`. -/
  most : s.most = none ∨ s.most = some 1
  /-- Inside of a set, and behind a frontier that belongs to the element, the element can be read
  again. -/
  replays : (s.inSet = true ∨ ∃ place met, s.frontier = some (place, met) ∧
    s.elementStart ≤ place) → Replays cfg s

/-- At the end of the text, no set is open. -/
theorem Rereads.inSet_eq_false (h : Rereads cfg s) (hpos : s.position = cfg.text.size) :
    s.inSet = false :=
  Bool.eq_false_iff.mpr fun hset => h.position_ne (Or.inl hset) hpos

/-- A state that stands outside of a set, and behind no frontier, has nothing to read again. -/
theorem rereads_of_idle (hset : s.inSet = false) (hacc : s.accepts = false)
    (hfrontier : s.frontier = none) (hmost : s.most = none ∨ s.most = some 1) : Rereads cfg s where
  accepts _ := hacc
  position_ne := by simp [hset, hfrontier]
  frontier := by simp [hfrontier]
  most := hmost
  replays := by simp [hset, hfrontier]

/-- A reading that goes on does so in a state that reads alike. -/
theorem step_alike {b : State} (hlt : s.cursor < cfg.stop) (hpos : s.position ≠ cfg.text.size)
    (hread : read cfg { s with repeating := false } = .skip s') (h : Alike s b) :
    ∃ b', step cfg b = .next b' ∧ Alike s' b' ∧ WrittenAlike s b s' b' := by
  have hsame : Alike { s with repeating := false } { b with repeating := false } :=
    ⟨h.cursor, h.position, h.inSet, h.accepts⟩
  have hreads : ReadsAlike { s with repeating := false } { b with repeating := false }
      (read cfg { s with repeating := false }) (read cfg { b with repeating := false }) :=
    read_alike hsame
  rw [hread] at hreads
  generalize hb : read cfg { b with repeating := false } = reading at hreads
  cases hreads with
  | @skip _ b' h' hw =>
    refine ⟨b', ?_, h', ⟨hw.inverted, hw.elementStart, hw.frontier, hw.most⟩⟩
    rw [step, if_neg (Nat.not_le_of_lt (h.cursor ▸ hlt)), if_neg (h.position ▸ hpos), hb]

/-- A further reading of the element can be repeated too. -/
theorem Replays.step (h : Replays cfg s) (hlt : s.cursor < cfg.stop)
    (hpos : s.position ≠ cfg.text.size)
    (hread : read cfg { s with repeating := false } = .skip s')
    (hstart : s'.elementStart = s.elementStart) (hposition : s'.position = s.position)
    (hinverted : s'.inverted = s.inverted) : Replays cfg s' := by
  intro b hcursor hstart' hposition' hset hacc hinverted'
  obtain ⟨n, b', hb', hmirror⟩ := h b (hcursor.trans hstart) (hstart'.trans hstart)
    (hposition'.trans hposition) hset hacc (hinverted'.trans hinverted)
  obtain ⟨b'', hstep, halike, hw⟩ := step_alike hlt hpos hread hmirror.alike
  refine ⟨n + 1, b'', ?_, halike, hw.inverted.eq hmirror.inverted,
    hw.elementStart.eq hmirror.elementStart, hw.most.trans hmirror.most, ?_⟩
  · rw [stateAfter_add hb', stateAfter_succ_of_next hstep, stateAfter_zero]
  · intro place met hsome hle
    rcases hw.frontier with hsame | ⟨hkept, hleft⟩
    · exact hsame
    · rw [hleft, hkept]
      exact hmirror.frontier place met (hkept ▸ hsome) (hstart ▸ hle)

/-- The first reading of an element can be repeated. -/
theorem Rereads.replays_of_start (h : Rereads cfg s) (hset : s.inSet = false)
    (hlt : s.cursor < cfg.stop) (hpos : s.position ≠ cfg.text.size)
    (hread : read cfg { s with repeating := false } = .skip s')
    (hstart : s'.elementStart = s.cursor) (hposition : s'.position = s.position) :
    Replays cfg s' := by
  intro b hcursor hstart' hposition' hset' hacc hinverted
  have halike : Alike s b :=
    ⟨hcursor.trans hstart, hposition'.trans hposition, hset'.trans hset.symm,
      hacc.trans (h.accepts hset).symm⟩
  obtain ⟨b', hstep, halike', hw⟩ := step_alike hlt hpos hread halike
  refine ⟨1, b', ?_, halike', ?_, ?_, hw.most, ?_⟩
  · rw [stateAfter_succ_of_next hstep, stateAfter_zero]
  · rcases hw.inverted with hsame | ⟨-, hleft⟩
    · exact hsame
    · exact hleft.trans hinverted
  · rcases hw.elementStart with hsame | ⟨-, hleft⟩
    · exact hsame
    · exact hleft.trans hstart'
  · intro place met hsome hle
    rcases hw.frontier with hsame | ⟨hkept, -⟩
    · exact hsame
    · -- a frontier that waited before does not belong to the element
      obtain ⟨hplace, -⟩ := h.frontier place met (hkept ▸ hsome)
      omega

theorem rereads_of_skips (h : Rereads cfg s) (hlt : s.cursor < cfg.stop)
    (hpos : s.position ≠ cfg.text.size)
    (hread : read cfg { s with repeating := false } = .skip s')
    (hskip : Skips cfg { s with repeating := false } s') : Rereads cfg s' := by
  cases hskip with
  | member a n hset hn hle =>
    refine ⟨fun hout => ?_, fun _ => hpos, fun place met hsome => ?_, h.most, fun _ => ?_⟩
    · exact absurd (hset.symm.trans hout) (by decide)
    · obtain ⟨hplace, hmet⟩ := h.frontier place met hsome
      exact ⟨Nat.lt_add_right n hplace, hmet⟩
    · exact (h.replays (Or.inl hset)).step hlt hpos hread rfl rfl rfl
  | openGroup hset hle =>
    refine ⟨fun _ => h.accepts hset, fun _ => hpos, fun place met hsome => ?_, h.most, ?_⟩
    · obtain ⟨hplace, hmet⟩ := h.frontier place met hsome
      exact ⟨Nat.lt_succ_of_lt hplace, hmet⟩
    · exact fun _ => h.replays_of_start hset hlt hpos hread rfl rfl
  | closeGroup hset hle =>
    refine ⟨fun _ => h.accepts hset, fun _ => hpos, fun place met hsome => ?_, h.most, ?_⟩
    · obtain ⟨hplace, hmet⟩ := h.frontier place met hsome
      exact ⟨Nat.lt_succ_of_lt hplace, hmet⟩
    · rintro (hin | ⟨place, met, hsome, hstart⟩)
      · exact absurd (hset.symm.trans hin) (by decide)
      · obtain ⟨hplace, -⟩ := h.frontier place met hsome
        exact absurd (Nat.lt_of_succ_le hstart) (Nat.not_lt_of_lt hplace)
  | openSet inv n hset hn hinv hle =>
    refine ⟨fun hout => ?_, fun _ => hpos, fun place met hsome => ?_, h.most, fun _ => ?_⟩
    · cases hout
    · obtain ⟨hplace, hmet⟩ := h.frontier place met hsome
      exact ⟨Nat.lt_add_right n hplace, hmet⟩
    · exact h.replays_of_start hset hlt hpos hread rfl rfl
  | frontier hle hat hkind =>
    refine ⟨h.accepts, fun _ => hpos, fun place met hsome => ?_, h.most, fun _ => ?_⟩
    · obtain ⟨hplace, hmet⟩ := Prod.mk.inj (Option.some.inj hsome)
      subst hplace hmet
      exact ⟨Nat.lt_add_of_pos_right (by decide), rfl⟩
    · by_cases hset : s.inSet = true
      · exact (h.replays (Or.inl hset)).step hlt hpos hread (if_pos hset) rfl rfl
      · exact h.replays_of_start (Bool.eq_false_iff.mpr hset) hlt hpos hread (if_neg hset) rfl

/-- Closing an element leaves nothing to be read again. -/
theorem rereads_of_closes {e : State} (hset : e.inSet = false)
    (hmost : e.most = none ∨ e.most = some 1) (hclose : Closes cfg e s') : Rereads cfg s' := by
  have behind : ∀ {p : State}, Passes (tally e) p →
      (quantify cfg p).inSet = false ∧ (quantify cfg p).accepts = false ∧
        ((quantify cfg p).most = none ∨ (quantify cfg p).most = some 1) := by
    intro p hp
    have hp_fields : p.inSet = false ∧ p.accepts = false ∧ (p.most = none ∨ p.most = some 1) := by
      cases hp with
      | free => exact ⟨hset, rfl, hmost⟩
      | held => exact ⟨hset, rfl, hmost⟩
    obtain ⟨hset', hacc', hmost'⟩ := hp_fields
    obtain ⟨least, most, n, fin, hq, -⟩ := quantify_eq cfg p
    have hlimits := most_takeQuantifier cfg hmost'
    refine ⟨?_, ?_, hlimits⟩
    · rw [hq]
      exact hset'
    · rw [hq]
      exact hacc'
  have hfrontier := hclose.frontier_eq_none
  cases hclose with
  | again hp hacc hlimit point hpoint =>
    obtain ⟨hset', hacc', hmost'⟩ := behind hp
    exact rereads_of_idle hset' hacc' hfrontier hmost'
  | giveWay hp =>
    obtain ⟨hset', hacc', hmost'⟩ := behind hp
    exact rereads_of_idle hset' hacc' hfrontier hmost'
  | taken hp =>
    obtain ⟨hset', hacc', -⟩ := behind hp
    exact rereads_of_idle hset' hacc' hfrontier (Or.inr rfl)
  | left hp =>
    obtain ⟨hset', hacc', -⟩ := behind hp
    exact rereads_of_idle hset' hacc' hfrontier (Or.inr rfl)

/-- **Every turn keeps what is known.** -/
theorem rereads_of_step (hstop : cfg.stop ≤ cfg.pattern.length) (h : Rereads cfg s)
    (hstep : step cfg s = .next s') : Rereads cfg s' := by
  have hlt := cursor_lt_of_step hstep
  cases turns_of_step hstop hstep with
  | back hpos hretry hreturns =>
    have hidle : ¬ (s.inSet = true ∨ s.frontier ≠ none) := fun hwaits => h.position_ne hwaits hpos
    have hset : s.inSet = false := Bool.eq_false_iff.mpr fun hin => hidle (Or.inl hin)
    have hfrontier : s.frontier = none := by
      by_cases hnone : s.frontier = none
      · exact hnone
      · exact absurd (Or.inr hnone) hidle
    exact rereads_of_idle hset (h.accepts hset) hfrontier h.most
  | skip hpos hread hskip => exact rereads_of_skips h hlt hpos hread hskip
  | close hpos hread he hclosed hclose =>
    obtain ⟨inSet, accepts, elementStart, n, rfl, hset, -⟩ := completes_eq he
    refine rereads_of_closes ?_ ?_ hclose
    · exact hset
    · exact h.most

theorem rereads_of_stateAfter (hstop : cfg.stop ≤ cfg.pattern.length) (h : Rereads cfg s) {n : Nat}
    (hn : stateAfter cfg n s = some s') : Rereads cfg s' :=
  stateAfter_induction (fun _ _ hs hstep => rereads_of_step hstop hs hstep) h hn

/-! ## 2.  Once is for ever -/

/-- An element that is closed at `s` behind its own frontier is closed the same way at a state that
mirrors `s`. -/
theorem circles_of_mirrors {b b' e : State} {place met : Nat} (hlt : s.cursor < cfg.stop)
    (hpos : s.position ≠ cfg.text.size)
    (hread : read cfg { s with repeating := false } = .element e)
    (hrepeats : Repeats cfg e place met) (hfrontier : s.frontier = some (place, met))
    (hbefore : s.elementStart ≤ place) (hstart : e.elementStart = s.elementStart)
    (hposition : cfg.text.charStart met = s.position) (hmirror : Mirrors s b b')
    (hmost : b.most = none) : Circles cfg b' := by
  have halike := hmirror.alike
  have hsame : Alike { s with repeating := false } { b' with repeating := false } :=
    ⟨halike.cursor, halike.position, halike.inSet, halike.accepts⟩
  have hreads : ReadsAlike { s with repeating := false } { b' with repeating := false }
      (read cfg { s with repeating := false }) (read cfg { b' with repeating := false }) :=
    read_alike hsame
  rw [hread] at hreads
  generalize hb : read cfg { b' with repeating := false } = reading at hreads
  have hfrontier' := hmirror.frontier place met hfrontier hbefore
  cases hreads with
  | @element _ e' hcursor hposition' haccepts hw =>
    have hrepeats' : Repeats cfg e' place met :=
      hrepeats.congr hcursor hposition' (haccepts hmirror.inverted) (hw.frontier.eq hfrontier')
        (hw.most.trans (hmirror.most.trans hmost))
    obtain ⟨s'', hclose, hcursor'', hposition''⟩ := close_of_repeats hrepeats'
    refine ⟨s'', place, met, ?_, hfrontier'.trans hfrontier, ?_, ?_⟩
    · rw [step, if_neg (Nat.not_le_of_lt (halike.cursor ▸ hlt)), if_neg (halike.position ▸ hpos),
        hb]
      exact hclose
    · rw [hcursor'', hw.elementStart.eq hmirror.elementStart, hstart]
      exact hbefore
    · rw [hposition'', hposition, halike.position]

/-- **A turn that circles leads to another one.** -/
theorem exists_circles_of_circles (hstop : cfg.stop ≤ cfg.pattern.length) (h : Rereads cfg s)
    (hcircle : Circles cfg s) :
    ∃ n s', stateAfter cfg (n + 1) s = some s' ∧ Circles cfg s' := by
  obtain ⟨s', place, met, hstep, hsome, hback, hposition⟩ := hcircle
  have hlt := cursor_lt_of_step hstep
  obtain ⟨hplace, hmet⟩ := h.frontier place met hsome
  cases turns_of_step hstop hstep with
  | back hpos hretry hreturns =>
    have hne := h.position_ne (Or.inr (by simp [hsome]))
    exact absurd hpos hne
  | skip hpos hread hskip =>
    -- a reading that goes on moves the cursor away from the frontier
    exfalso
    cases hskip <;> simp only at hback <;> omega
  | @close e _ hpos hread he hclosed hclose =>
    obtain ⟨inSet, accepts, elementStart, n, heq, hset, hn, -, hstart⟩ := completes_eq he
    have hfrontier : e.frontier = some (place, met) := by
      rw [heq]
      exact hsome
    have hmost : e.most = none ∨ e.most = some 1 := by
      rw [heq]
      exact h.most
    have hback' : s'.cursor < e.cursor := by
      rw [heq]
      exact Nat.lt_of_le_of_lt hback (Nat.lt_add_right n hplace)
    obtain ⟨hrepeats, hcursor', hstart', hposition', hset', hinverted', haccepts', hmost'⟩ :=
      repeats_of_close hfrontier hmost hclosed hback'
    -- the element does not begin at the cursor, which stands behind the frontier
    have hsame : e.elementStart = s.elementStart := by
      rw [hcursor', heq] at hback
      rw [heq]
      rcases hstart with hleft | hmarked
      · exact hleft
      · rw [hmarked] at hback
        exact absurd hplace (Nat.not_lt_of_le hback)
    have hbefore : s.elementStart ≤ place := by
      rw [← hsame, ← hcursor']
      exact hback
    obtain ⟨m, b', hb', hmirror⟩ := h.replays (Or.inr ⟨place, met, hsome, hbefore⟩) s'
      (hcursor'.trans hsame) (hstart'.trans hsame) hposition
      (hset'.trans (by rw [heq]; exact hset)) haccepts' (hinverted'.trans (by rw [heq]))
    refine ⟨m, b', ?_, ?_⟩
    · rw [stateAfter_succ_of_next hstep]
      exact hb'
    · exact circles_of_mirrors hlt hpos hread hrepeats hsome hbefore hsame
        (hposition'.symm.trans hposition) hmirror hmost'

/-- **A match in which a turn circles never ends.** -/
theorem not_endsWithin_of_circles (hstop : cfg.stop ≤ cfg.pattern.length) (h : Rereads cfg s)
    (hcircle : Circles cfg s) (n : Nat) : ¬ EndsWithin cfg n s := by
  intro hends
  induction n using Nat.strong_induction_on generalizing s with
  | _ n ih =>
    obtain ⟨m, t, ht, hcircle'⟩ := exists_circles_of_circles hstop h hcircle
    rcases Nat.lt_or_ge (m + 1) n with hlt | hge
    · -- the rest of the turns begin at the next turn that circles
      obtain ⟨k, rfl⟩ : ∃ k, n = m + 1 + k := ⟨n - (m + 1), by omega⟩
      rw [EndsWithin, stateAfter_add ht] at hends
      exact ih k (by omega) (rereads_of_stateAfter hstop h ht) hcircle' hends
    · have hnone : stateAfter cfg (m + 1) s = none := hends.mono hge
      rw [ht] at hnone
      cases hnone

/-- Every match begins in a state that has nothing to read again. -/
theorem rereads_of_start {pattern : Source} {text : Text} {offset : Nat}
    (h : start pattern text offset = .ready cfg s) : Rereads cfg s := by
  obtain ⟨-, ⟨cursor, rfl, -⟩, -⟩ := start_eq_ready h
  exact rereads_of_idle rfl rfl rfl (Or.inr rfl)

/-- No turn of a match that ends circles. -/
theorem not_circles_of_endsWithin {pattern : Source} {text : Text} {offset m n : Nat}
    (h : start pattern text offset = .ready cfg s) (hends : EndsWithin cfg m s)
    (hn : stateAfter cfg n s = some s') : ¬ Circles cfg s' := by
  obtain ⟨-, -, rfl, rfl, hstop, -⟩ := start_eq_ready h
  intro hcircle
  have hrereads := rereads_of_stateAfter hstop (rereads_of_start h) hn
  refine not_endsWithin_of_circles hstop hrereads hcircle m ?_
  rw [EndsWithin, ← stateAfter_add hn]
  exact hends.mono (Nat.le_add_left m n)

/-- A match that ends does so within the cube of the area. -/
theorem endsWithin_cube {pattern : Source} {text : Text} {offset m : Nat}
    (h : start pattern text offset = .ready cfg s) (hends : EndsWithin cfg m s) :
    EndsWithin cfg (((pattern.length + 2) * (text.size + 2)) ^ 3) s :=
  endsWithin_of_not_circles h fun _ _ hn => not_circles_of_endsWithin h hends hn

/-- **A match ends exactly if no turn of it circles, and then it ends within the cube of the area.**
So the cube bounds every match that ends at all. -/
theorem endsWithin_iff {pattern : Source} {text : Text} {offset : Nat}
    (h : start pattern text offset = .ready cfg s) :
    (EndsWithin cfg (((pattern.length + 2) * (text.size + 2)) ^ 3) s ↔
        ∀ n s', stateAfter cfg n s = some s' → ¬ Circles cfg s') ∧
      ((∃ n, EndsWithin cfg n s) ↔
        EndsWithin cfg (((pattern.length + 2) * (text.size + 2)) ^ 3) s) := by
  constructor
  · constructor
    · intro hends n s' hn
      exact not_circles_of_endsWithin h hends hn
    · intro hcircle
      exact endsWithin_of_not_circles h hcircle
  · constructor
    · rintro ⟨m, hends⟩
      exact endsWithin_cube h hends
    · intro hends
      exact ⟨_, hends⟩

/-- The pattern `%f[%w]%w+`: a word, from its start. -/
def wordStart : Source := [0x25, 0x66, 0x5B, 0x25, 0x77, 0x5D, 0x25, 0x77, 0x2B]

/-- The match of a word ends, and no turn of it circles. -/
theorem endsWithin_wordStart :
    ∃ cfg s, start wordStart #[0x61, 0x62] 0 = .ready cfg s ∧
      EndsWithin cfg (((9 + 2) * (2 + 2)) ^ 3) s ∧
      ∀ n s', stateAfter cfg n s = some s' → ¬ Circles cfg s' := by
  have hready : ∃ cfg s, start wordStart #[0x61, 0x62] 0 = .ready cfg s ∧
      EndsWithin cfg 20 s := ⟨_, _, rfl, rfl⟩
  obtain ⟨cfg, s, hstart, hends⟩ := hready
  have hcube : EndsWithin cfg (((9 + 2) * (2 + 2)) ^ 3) s := hends.mono (by decide)
  exact ⟨cfg, s, hstart, hcube, (endsWithin_iff hstart).1.mp hcube⟩

/-- **Only a match that never ends runs out of the turns that it is given.** -/
theorem endsWithin_turnLimit_iff {pattern : Source} {text : Text} {offset : Nat}
    (h : start pattern text offset = .ready cfg s) :
    EndsWithin cfg (turnLimit pattern text) s ↔ ∃ n, EndsWithin cfg n s := by
  refine ⟨fun hends => ⟨_, hends⟩, fun ⟨n, hends⟩ => ?_⟩
  have hle : ((pattern.length + 2) * (text.size + 2)) ^ 3 ≤ turnLimit pattern text := by
    rw [turnLimit, pow_three']
    exact Nat.le_mul_of_pos_left _ (by decide)
  exact (endsWithin_cube h hends).mono hle

/-- The number of turns that a match is given decides nothing about a match that ends. -/
theorem run_turnLimit {pattern : Source} {text : Text} {offset n : Nat}
    (h : start pattern text offset = .ready cfg s) (hends : EndsWithin cfg n s) :
    run cfg (turnLimit pattern text) s = run cfg n s := by
  rcases Nat.le_total n (turnLimit pattern text) with hless | hmore
  · exact run_of_endsWithin hends hless
  · exact (run_of_endsWithin ((endsWithin_turnLimit_iff h).mpr ⟨n, hends⟩) hmore).symm

/-! ## 3.  A match without an end -/

/-- The pattern `%f]*`. -/
def frontierBracket : Source := [0x25, 0x66, 0x5D, 0x2A]

/-- **The pattern `%f]*` goes in circles on the text `]`.** It does not end within the cube of the
area, nor at all. -/
theorem not_endsWithin_frontierBracket :
    ∃ cfg s, start frontierBracket #[0x5D] 0 = .ready cfg s ∧
      ¬ EndsWithin cfg (((4 + 2) * (1 + 2)) ^ 3) s ∧ ∀ n, ¬ EndsWithin cfg n s := by
  have hready : ∃ cfg s s', start frontierBracket #[0x5D] 0 = .ready cfg s ∧
      stateAfter cfg 1 s = some s' ∧ Circles cfg s' :=
    ⟨_, _, _, rfl, rfl, _, 0, 0, rfl, rfl, Nat.le_refl 0, rfl⟩
  obtain ⟨cfg, s, s', hstart, hafter, hcircle⟩ := hready
  have hnever : ∀ n, ¬ EndsWithin cfg n s :=
    fun n hends => not_circles_of_endsWithin hstart hends hafter hcircle
  exact ⟨cfg, s, hstart, hnever _, hnever⟩

/-- No frontier stands in the pattern. -/
def NoFrontier (pattern : Source) : Prop :=
  ∀ i, pattern.byteAt i = percent →
    Ascii.toLower (pattern.byteAt (i + 1)) ≠ frontierLetter

/-- Without a frontier in the pattern, none ever waits. -/
theorem frontier_eq_none_of_step (hstop : cfg.stop ≤ cfg.pattern.length)
    (hpattern : NoFrontier cfg.pattern) (h : s.frontier = none) (hstep : step cfg s = .next s') :
    s'.frontier = none := by
  cases turns_of_step hstop hstep with
  | back => exact h
  | skip hpos hread hskip =>
    cases hskip with
    | member => exact h
    | openGroup => exact h
    | closeGroup => exact h
    | openSet => exact h
    | frontier hle hat hkind => exact absurd hkind (hpattern _ hat)
  | close hpos hread he hclosed hclose => exact hclose.frontier_eq_none

/-- **Without a frontier, every match ends within the cube of the area.** -/
theorem endsWithin_of_noFrontier {pattern : Source} {text : Text} {offset : Nat}
    (hpattern : NoFrontier pattern) (h : start pattern text offset = .ready cfg s) :
    EndsWithin cfg (((pattern.length + 2) * (text.size + 2)) ^ 3) s := by
  obtain ⟨-, ⟨cursor, hs, -⟩, hcfg, -, hstop, -⟩ := start_eq_ready h
  have hfirst : s.frontier = none := by rw [hs, atStart]
  refine endsWithin_of_not_circles h fun n s' hn hcircle => ?_
  have hnone : s'.frontier = none :=
    stateAfter_induction (P := fun t => t.frontier = none)
      (fun _ _ ht hstep => frontier_eq_none_of_step (hcfg ▸ hstop) (hcfg ▸ hpattern) ht hstep)
      hfirst hn
  obtain ⟨t, place, met, -, hsome, -⟩ := hcircle
  rw [hnone] at hsome
  cases hsome

end LuaPattern
end Linewise
