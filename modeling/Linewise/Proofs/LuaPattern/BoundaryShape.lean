import Linewise.Proofs.LuaPattern.Exactness
import Linewise.Proofs.LuaPattern.Places
import Linewise.Proofs.LuaPattern.Tally

/-!
# How many boundaries a match has, and in which order

A pattern announces one boundary for each capture that it closes, and one for the end of the match.

## 1.  In order

As long as a match goes straight, the captures that are closed so far are in order, and none of them
is behind the position (`Ordered`).

## 2.  The boundaries

With the tally it follows that a match that goes straight has the boundaries that the pattern
announces, in order (`boundaries_of_straight`).

## 3.  Without repetition

To pass over a byte, or to go back, a match needs an element that can be repeated. Without a
quantifier for it, and without a set that ends behind a `%%`, a match always goes straight
(`boundaries_of_unrepeated`).

## 4.  Astray

In general a match need not go straight. `%(.-%)` closes no capture, but its match in `(x)` has two
boundaries (`not_announced_lazyParens`), and those of `(a*)a?b?.` in `aab` are not in order
(`not_announced_captureThenOptional`).
-/

namespace Linewise
namespace LuaPattern

variable {cfg : Setting} {s s' : State}

/-! ## 1.  In order -/

/-- The captures that are closed are in order, up to the position. -/
structure Ordered (s : State) : Prop where
  /-- They are in order. -/
  sorted : s.closes.Pairwise (· ≤ ·)
  /-- None of them is behind the position. -/
  le_position : ∀ close ∈ s.closes, close ≤ s.position

/-- What is appended at the position is in order. -/
theorem Ordered.append (h : Ordered s) (n : Nat) :
    (s.closes ++ List.replicate n s.position).Pairwise (· ≤ ·) := by
  refine List.pairwise_append.mpr ⟨h.sorted, List.pairwise_replicate.mpr (Or.inr (Nat.le_refl _)),
    fun close hclose place hplace => ?_⟩
  rw [List.eq_of_mem_replicate hplace]
  exact h.le_position close hclose

/-- Closing an element closes no capture and does not go back in the text. -/
theorem le_position_of_closes {e : State}
    (hmet : ∀ place met, e.frontier = some (place, met) → met = e.position)
    (hclose : Closes cfg e s') : s'.closes = e.closes ∧ e.position ≤ s'.position := by
  have behind : ∀ {p : State}, Passes (tally e) p →
      (quantify cfg p).closes = e.closes ∧ (quantify cfg p).position = e.position := by
    intro p hp
    obtain ⟨least, most, n, b, hq, -⟩ := quantify_eq cfg p
    rw [hq]
    cases hp with
    | free => exact ⟨rfl, rfl⟩
    | held hsome => exact ⟨rfl, hmet _ _ hsome⟩
  have advanced : ∀ q : State, q.position ≤ (advance cfg q).position := by
    intro q
    show q.position ≤ cfg.text.charStart (if q.rewound then q.position else q.position + 1)
    split
    · exact cfg.text.le_charStart _
    · exact Nat.le_of_succ_le (cfg.text.le_charStart _)
  cases hclose with
  | again hp =>
    obtain ⟨hcloses, hposition⟩ := behind hp
    exact ⟨hcloses, hposition ▸ advanced _⟩
  | giveWay hp =>
    obtain ⟨hcloses, hposition⟩ := behind hp
    exact ⟨hcloses, hposition ▸ advanced _⟩
  | taken hp =>
    obtain ⟨hcloses, hposition⟩ := behind hp
    exact ⟨hcloses, hposition ▸ advanced _⟩
  | left hp =>
    obtain ⟨hcloses, hposition⟩ := behind hp
    exact ⟨hcloses, Nat.le_of_eq hposition.symm⟩

/-- **Every turn of a match that goes straight keeps the captures in order.** -/
theorem Ordered.turns (h : Ordered s) (hs : Straight cfg s) (hr : Rereads cfg s)
    (hlt : s.cursor < cfg.stop) (hturn : Turns cfg s s') : Ordered s' := by
  cases hturn with
  | back hpos hretry hreturns hfinished =>
    exact ⟨h.sorted, (hs.back _ (returnPoint?_eq hlt hpos hfinished hreturns hretry)).2⟩
  | skip hpos hread hskip =>
    cases hskip with
    | member => exact ⟨h.sorted, h.le_position⟩
    | openGroup => exact ⟨h.sorted, h.le_position⟩
    | closeGroup =>
      refine ⟨h.append 1, fun close hclose => ?_⟩
      rcases List.mem_append.mp hclose with hold | hnew
      · exact h.le_position close hold
      · exact Nat.le_of_eq (List.mem_singleton.mp hnew)
    | openSet => exact ⟨h.sorted, h.le_position⟩
    | frontier => exact ⟨h.sorted, h.le_position⟩
  | @close e _ hpos hread he hclosed hclose =>
    obtain ⟨_, _, _, _, heq, -⟩ := completes_eq he
    have hmet : ∀ place met, e.frontier = some (place, met) → met = e.position := by
      rw [heq]
      exact fun place met hsome => (hr.frontier place met hsome).2
    obtain ⟨hcloses, hposition⟩ := le_position_of_closes hmet hclose
    have hsame : e.closes = s.closes ∧ e.position = s.position := by
      rw [heq]
      exact ⟨rfl, rfl⟩
    rw [hsame.1] at hcloses
    rw [hsame.2] at hposition
    refine ⟨hcloses ▸ h.sorted, fun close hmem => ?_⟩
    exact Nat.le_trans (h.le_position close (hcloses ▸ hmem)) hposition

/-! ## 2.  The boundaries -/

/-- The boundaries of a match are as the pattern announces them: so many, and in order. -/
def Announced (pattern : Source) (bounds : List Nat) : Prop :=
  bounds.length = pattern.closeCount + 1 ∧ bounds.Pairwise (· ≤ ·)

instance (pattern : Source) (bounds : List Nat) : Decidable (Announced pattern bounds) :=
  inferInstanceAs (Decidable (_ ∧ _))

theorem announced_of_conclude {bounds : List Nat}
    (hclosed : s.closes.length = cfg.pattern.closeCount)
    (h : Ordered s) (hconclude : conclude cfg s = .accept bounds) :
    Announced cfg.pattern bounds := by
  unfold conclude at hconclude
  split at hconclude
  · cases hconclude
  · cases hconclude
    refine ⟨?_, h.append 1⟩
    rw [List.length_append, hclosed, List.length_singleton]

theorem announced_of_step {bounds : List Nat} (h : Tallied cfg s) (ho : Ordered s)
    (hr : Rereads cfg s) (hends : StopsAtEnd cfg) (hstop : cfg.stop ≤ cfg.pattern.length)
    (hstep : step cfg s = .done (.accept bounds)) : Announced cfg.pattern bounds := by
  rcases accept_of_step hstep with ⟨hend, hconclude⟩ | ⟨hlt, hpos, hexhausted⟩
  · refine announced_of_conclude ?_ ho hconclude
    rcases hend with hle | hfinished
    · rw [← h.closed, closesFrom_of_stop_le hends hle, Nat.add_zero]
    · exact h.finished hfinished
  · have hset : s.inSet = false := hr.inSet_eq_false hpos
    unfold exhausted at hexhausted
    split at hexhausted
    · cases hexhausted
    · next n hsome =>
      obtain ⟨rest, hrest, hn⟩ := Option.bind_eq_some_iff.mp hsome
      have hlength := h.length_add_of_remainder? hends hset hstop hlt hrest hn
      refine announced_of_conclude ?_ ⟨ho.append n, fun close hclose => ?_⟩ hexhausted
      · rw [List.length_append, List.length_replicate, hlength]
      · rcases List.mem_append.mp hclose with hold | hnew
        · exact ho.le_position close hold
        · exact Nat.le_of_eq (List.eq_of_mem_replicate hnew)

/-- A match that goes straight is announced, in whichever state it is looked at. -/
theorem announced_of_run (hends : StopsAtEnd cfg) (hstop : cfg.stop ≤ cfg.pattern.length) (n : Nat)
    {bounds : List Nat} (hstraight : ∀ m s', stateAfter cfg m s = some s' → Straight cfg s')
    (h : Tallied cfg s) (ho : Ordered s) (hr : Rereads cfg s)
    (hrun : run cfg n s = .accept bounds) : Announced cfg.pattern bounds := by
  induction n generalizing s with
  | zero => cases hrun
  | succ n ih =>
    rw [run] at hrun
    split at hrun
    · next hstep =>
      rw [hrun] at hstep
      exact announced_of_step h ho hr hends hstop hstep
    · next s' hstep =>
      have hs : Straight cfg s := hstraight 0 s rfl
      have hlt := cursor_lt_of_step hstep
      have hturn := turns_of_step hstop hstep
      refine ih (fun m t hm => hstraight (m + 1) t ?_) (h.turns hends hs hr hstop hlt hturn)
        (ho.turns hs hr hlt hturn) (rereads_of_step hstop hr hstep) hrun
      rw [stateAfter_succ_of_next hstep]
      exact hm

theorem announced_of_start {pattern : Source} {t : Text} {offset n : Nat} {bounds : List Nat}
    (hstart : start pattern t offset = .ready cfg s)
    (hstraight : ∀ m s', stateAfter cfg m s = some s' → Straight cfg s')
    (hrun : run cfg n s = .accept bounds) : Announced pattern bounds := by
  obtain ⟨-, ⟨cursor, hs, -⟩, hpattern, -, hstop, -⟩ := start_eq_ready hstart
  have hordered : Ordered s := by
    rw [hs]
    exact ⟨.nil, nofun⟩
  rw [← hpattern] at hstop ⊢
  exact announced_of_run (stopsAtEnd_of_start hstart) hstop n hstraight (tallied_of_start hstart)
    hordered (rereads_of_start hstart) hrun

/-- **A match that goes straight has the boundaries that its pattern announces, in order.** -/
theorem boundaries_of_straight {pattern : Source} {t : Text} {offset : Nat} {bounds : List Nat}
    (hstart : start pattern t offset = .ready cfg s)
    (hstraight : ∀ n s', stateAfter cfg n s = some s' → Straight cfg s')
    (h : boundariesAt? pattern t offset = some bounds) :
    bounds.length = pattern.closeCount + 1 ∧ bounds.Pairwise (· ≤ ·) := by
  obtain ⟨cfg', s', hstart', hrun⟩ := exists_run_of_boundariesAt? h
  cases hstart.symm.trans hstart'
  exact announced_of_start hstart hstraight hrun

/-- The pattern `a-(a)b`. -/
def lazyLetters : Source := [0x61, 0x2D, 0x28, 0x61, 0x29, 0x62]

/-- In `aab`, the lazy element of `a-(a)b` gives way, and the match goes straight all the same. -/
theorem boundaries_lazyLetters :
    ∃ cfg s, start lazyLetters #[0x61, 0x61, 0x62] 0 = .ready cfg s ∧
      (∀ n s', stateAfter cfg n s = some s' → Straight cfg s') ∧
      boundariesAt? lazyLetters #[0x61, 0x61, 0x62] 0 = some [2, 3] ∧
      [2, 3].length = lazyLetters.closeCount + 1 ∧ [2, 3].Pairwise (· ≤ ·) := by
  have hready : ∃ cfg s, start lazyLetters #[0x61, 0x61, 0x62] 0 = .ready cfg s ∧
      EndsWithin cfg 10 s ∧ (∀ n < 10, ∀ s' ∈ stateAfter cfg n s, Straight cfg s') ∧
      Concludes cfg s (verdictOn [] (some [2, 3])) :=
    ⟨_, _, rfl, rfl, by decide, ⟨10, rfl, rfl⟩⟩
  obtain ⟨cfg, s, hstart, hends, hstraight, hconcludes⟩ := hready
  have hall := forall_stateAfter hends hstraight
  have hmatch := boundariesAt?_of_concludes hstart hconcludes
  exact ⟨cfg, s, hstart, hall, hmatch, boundaries_of_straight hstart hall hmatch⟩

/-! ## 3.  Without repetition -/

/-- No byte of the pattern can repeat an element. -/
def Unrepeated (pattern : Source) : Prop :=
  ∀ i, pattern.byteAt i ≠ minus ∧ pattern.byteAt i ≠ star ∧ pattern.byteAt i ≠ plus

/-- No set of the pattern ends behind a `%` that is escaped itself. -/
def NoEscapedPercent (pattern : Source) : Prop :=
  ∀ i, pattern.byteAt i = percent → pattern.byteAt (i + 1) = percent →
    pattern.byteAt (i + 2) ≠ closeSet

/-- Nothing is remembered, and the element at hand has not matched yet and may match once. -/
structure Once (s : State) : Prop where
  /-- There is no point to return to. -/
  retry : s.retry = none
  /-- The element has not matched. -/
  count : s.count = 0
  /-- It may match once. -/
  most : s.most = some 1

theorem Once.completes {e : State} (h : Once s)
    (he : Completes cfg { s with repeating := false } e) :
    Once e := by
  cases he <;> exact ⟨h.retry, h.count, h.most⟩

/-- Behind the quantifier, an element that accepts has matched as often as it may. -/
theorem Once.behind {e p : State} (hpattern : Unrepeated cfg.pattern) (h : Once e)
    (hp : Passes (tally e) p) :
    (quantify cfg p).retry = none ∧
      (e.accepts = true → belowLimit (quantify cfg p).count (quantify cfg p).most = false) := by
  obtain ⟨hminus, hstar, hplus⟩ := hpattern p.cursor
  have hpassed : p.retry = none ∧ (e.accepts = true → p.count = 1) ∧ p.most = some 1 := by
    have hcount : e.accepts = true → (tally e).count = 1 := by
      intro hacc
      rw [tally, hacc, if_pos rfl, h.count]
    cases hp with
    | free => exact ⟨h.retry, hcount, h.most⟩
    | held => exact ⟨h.retry, hcount, h.most⟩
  obtain ⟨hretry, hcount, hmost⟩ := hpassed
  have hq : (quantify cfg p).retry = p.retry ∧ (quantify cfg p).count = p.count ∧
      (quantify cfg p).most = some 1 := by
    rw [quantify, takeQuantifier]
    dsimp only
    rw [if_neg hminus, if_neg hstar, if_neg hplus]
    split
    · exact ⟨rfl, rfl, rfl⟩
    · exact ⟨rfl, rfl, hmost⟩
  obtain ⟨hretry', hcount', hmost'⟩ := hq
  refine ⟨hretry'.trans hretry, fun hacc => ?_⟩
  rw [hcount', hmost', hcount hacc]
  rfl

theorem Once.turns (hpattern : Unrepeated cfg.pattern) (h : Once s) (hturn : Turns cfg s s') :
    Once s' := by
  cases hturn with
  | back hpos hretry => cases h.retry.symm.trans hretry
  | skip hpos hread hskip => cases hskip <;> exact ⟨h.retry, h.count, h.most⟩
  | close hpos hread he hclosed hclose =>
    have he' := h.completes he
    cases hclose with
    | again hp hacc hlimit =>
      cases hlimit.symm.trans ((he'.behind hpattern hp).2 hacc)
    | giveWay hp hacc _ _ hlimit =>
      cases hlimit.symm.trans ((he'.behind hpattern hp).2 hacc)
    | taken hp => exact ⟨(he'.behind hpattern hp).1, rfl, rfl⟩
    | left hp => exact ⟨(he'.behind hpattern hp).1, rfl, rfl⟩

/-- Where an element gives way, it accepts and may match again. -/
theorem exists_of_giveWay? {i : Nat} (h : giveWay? cfg s = some i) :
    s.cursor < cfg.stop ∧ ∃ e p, read cfg { s with repeating := false } = .element e ∧
      passFrontier cfg (tally e) = .next p ∧ e.accepts = true ∧
      belowLimit (quantify cfg p).count (quantify cfg p).most = true := by
  unfold giveWay? at h
  split at h
  · next hopen =>
    refine ⟨of_decide_eq_true (Bool.and_eq_true_iff.mp hopen).1, ?_⟩
    split at h
    · next e hread =>
      split at h
      · next p hpass =>
        dsimp only at h
        split at h
        · next hguard =>
          simp only [Bool.and_eq_true] at hguard
          exact ⟨e, p, hread, hpass, hguard.1.1.1, hguard.1.1.2⟩
        · cases h
      · cases h
    · cases h
  · cases h

theorem Once.straight (hpattern : Unrepeated cfg.pattern) (hsets : NoEscapedPercent cfg.pattern)
    (hstop : cfg.stop ≤ cfg.pattern.length) (h : Once s) : Straight cfg s where
  back point hpoint := by
    rw [returnPoint?, h.retry, ite_self] at hpoint
    cases hpoint
  giveWay i hway := by
    obtain ⟨hlt, e, p, hread, hpass, hacc, hlimit⟩ := exists_of_giveWay? hway
    have he : Once e := h.completes (completes_of_read (Nat.lt_of_lt_of_le hlt hstop) hread)
    have hp := passes_of_passFrontier hpass
    cases hlimit.symm.trans ((he.behind hpattern hp).2 hacc)
  setEnd _ _ hat hends := by
    -- the byte before is a `%`, and if it were escaped, another one would stand in front of it
    unfold closesSet? at hends
    rw [if_pos hat] at hends
    split at hends
    · cases hends
    · next before hcursor =>
      have hpercent : cfg.pattern.byteAt before = percent := by simpa using hends
      rw [hcursor] at hat ⊢
      cases hescaped : cfg.pattern.isEscaped before with
      | false => exact Source.isEscaped_succ_of_percent hescaped hpercent
      | true =>
        cases before with
        | zero => cases hescaped
        | succ i =>
          rw [Source.isEscaped, Bool.and_eq_true, beq_iff_eq] at hescaped
          exact absurd hat (hsets i hescaped.1 hpercent)

/-- **Without `*`, `+` and `-`, every match has the boundaries that its pattern announces**, as long
as no set ends behind a `%%`. -/
theorem boundaries_of_unrepeated {pattern : Source} {t : Text} {offset : Nat} {bounds : List Nat}
    (hpattern : Unrepeated pattern) (hsets : NoEscapedPercent pattern)
    (h : boundariesAt? pattern t offset = some bounds) :
    bounds.length = pattern.closeCount + 1 ∧ bounds.Pairwise (· ≤ ·) := by
  obtain ⟨cfg, s, hstart, hrun⟩ := exists_run_of_boundariesAt? h
  obtain ⟨-, ⟨cursor, hs, -⟩, hcfg, -, hstop, -⟩ := start_eq_ready hstart
  rw [← hcfg] at hpattern hsets hstop
  have hfirst : Once s := by
    rw [hs]
    exact ⟨rfl, rfl, rfl⟩
  refine announced_of_start hstart (fun n s' hn => ?_) hrun
  have honce : Once s' :=
    stateAfter_induction
      (fun _ _ ht hstep => ht.turns hpattern (turns_of_step hstop hstep)) hfirst hn
  exact honce.straight hpattern hsets hstop

/-! ## 4.  Astray -/

/-- The pattern `%(.-%)`. -/
def lazyParens : Source := [0x25, 0x28, 0x2E, 0x2D, 0x25, 0x29]

/-- **The match of `%(.-%)` in `(x)` has one boundary too many.** No capture is closed in the
pattern. But where the lazy element gives way, the `%` is passed over, so that the `)` behind it is
read as the end of a capture. -/
theorem not_announced_lazyParens :
    boundariesAt? lazyParens #[0x28, 0x78, 0x29] 0 = some [3, 3] ∧ lazyParens.closeCount + 1 = 1 ∧
      ¬ Announced lazyParens [3, 3] :=
  ⟨boundariesAt?_of_concludes rfl ⟨10, rfl, rfl⟩, rfl, by decide⟩

/-- The pattern `(a*)a?b?.`. -/
def captureThenOptional : Source := [0x28, 0x61, 0x2A, 0x29, 0x61, 0x3F, 0x62, 0x3F, 0x2E]

/-- **The boundaries of `(a*)a?b?.` in `aab` are not in order.** The capture is closed behind both
letters `a`, and the match ends where it goes back to the second one. -/
theorem not_announced_captureThenOptional :
    boundariesAt? captureThenOptional #[0x61, 0x61, 0x62] 0 = some [2, 1] ∧
      captureThenOptional.closeCount + 1 = 2 ∧ ¬ Announced captureThenOptional [2, 1] :=
  ⟨boundariesAt?_of_concludes rfl ⟨30, rfl, rfl⟩, rfl, by decide⟩

end LuaPattern
end Linewise
