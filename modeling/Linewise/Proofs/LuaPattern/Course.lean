import Linewise.Proofs.LuaPattern.Passage

/-!
# The course of a match

A match of a template goes from part to part. Marks and frontiers are passed in place; an element
takes characters, and if that exhausts the input, gives back what it shares with the parts behind it
(`Again.leads_back`). Where nothing is left to give back, what is left of the template has to match
nothing.

The main statement is `answers_of_harmless`: as long as the reading is orderly, the machine answers
with the boundaries of the yielding reading.
-/

namespace Linewise
namespace LuaPattern

variable {cfg : Setting} {s s' : State} {items rest : List Item} {a : Atom} {q : Quantifier}
  {b c : UInt8} {point : Nat}

/-! ## 1.  Giving back -/

/-- An escaped byte that accepts another one is the letter of a class. -/
theorem isLiteral_of_classAccepts {kind : UInt8} (known : isEscape kind = true)
    (hacc : classAccepts kind c = true) (hne : c ≠ kind) : isLiteral kind = true := by
  cases hsyntax : isLiteral kind with
  | true => rfl
  | false =>
    -- the other escaped bytes accept themselves alone
    have hself : classAccepts kind c = (kind == c) := by
      simp only [isLiteral, Bool.not_eq_false', List.contains_iff_mem, List.mem_cons,
        List.not_mem_nil, or_false] at hsyntax
      rcases hsyntax with rfl | rfl | rfl | rfl | rfl | rfl | rfl
      · exact absurd known (by decide)
      all_goals rfl
    rw [hself, beq_iff_eq] at hacc
    exact absurd hacc.symm hne

/-- Behind the first byte of an element that may give back its characters stands a byte that is read
as itself. -/
theorem Facing.inner (h : Facing cfg (.element a q :: rest) s)
    (hinner : (Item.element a q).inner? = some b) (hacc : a.accepts c = true) (hne : c ≠ b) :
    isLiteral b = true ∧ cfg.pattern.byteAt (s.cursor + 1) = b := by
  have hsource := h.atom_source
  -- the quantifier of an atom that is a single byte
  have hquantifier : ∀ {first : UInt8}, a.source = [first] → q.source.head? = some b →
      isLiteral b = true ∧ cfg.pattern.byteAt (s.cursor + 1) = b := by
    intro first ha hq
    rw [ha] at hsource
    have hbehind := Source.drop_succ_of_drop hsource
    cases q with
    | once => cases hq
    | optional | many | several =>
      cases hq
      exact ⟨by decide, Source.byteAt_eq_of_drop hbehind⟩
  cases a with
  | byte first plain => exact hquantifier rfl hinner
  | any => exact hquantifier rfl hinner
  | escape kind known =>
    cases hinner
    exact ⟨isLiteral_of_classAccepts known hacc hne,
      Source.byteAt_eq_of_drop (Source.drop_succ_of_drop hsource)⟩
  | set s => cases hinner

/-- Behind that byte, whatever is left of the element is its quantifier. -/
theorem Facing.takeQuantifier_inner {t : State} (h : Facing cfg (.element a q :: rest) s)
    (hinner : (Item.element a q).inner? = some b) (hq : q.most = none)
    (hcursor : t.cursor = s.cursor + 2) (hleast : t.least = q.least) (hmost : t.most = none) :
    ∃ greedy, takeQuantifier cfg t =
      ({ t with cursor := s.cursor + (Item.element a q).source.length }, greedy) := by
  have hsource := h.atom_source
  have hlength : q.source.length = 1 := by
    cases q with
    | once => exact absurd hq (by simp [Quantifier.most])
    | optional => exact absurd hq (by simp [Quantifier.most])
    | many => rfl
    | several => rfl
  have hsingle : ∀ {first : UInt8}, a.source = [first] → ∃ greedy, takeQuantifier cfg t =
      ({ t with cursor := s.cursor + (Item.element a q).source.length }, greedy) := by
    intro first ha
    have hbehind : cfg.pattern.drop t.cursor = sourceOf rest ++ anchorTail cfg.toEnd := by
      rw [ha, ← List.append_assoc] at hsource
      have hdrop := Source.drop_add_of_drop hsource
      simpa [hlength, hcursor] using hdrop
    refine ⟨false, (takeQuantifier_sourceOf hbehind).trans ?_⟩
    have hsame : s.cursor + (Item.element a q).source.length = t.cursor := by
      simp [Item.source, ha, hlength, hcursor]
    rw [hsame]
  cases a with
  | byte first plain => exact hsingle rfl
  | any => exact hsingle rfl
  | escape kind known =>
    have hbehind : cfg.pattern.drop t.cursor =
        q.source ++ (sourceOf rest ++ anchorTail cfg.toEnd) := by
      rw [hcursor]
      exact Source.drop_add_of_drop hsource
    have honce : q = .once → t.least = 1 ∧ t.most = some 1 := by
      rintro rfl
      exact absurd hq (by simp [Quantifier.most])
    refine ⟨q != .once, (takeQuantifier_source hbehind honce).trans ?_⟩
    have hcursor' : t.cursor + q.source.length =
        s.cursor + (Item.element (.escape kind known) q).source.length := by
      rw [hcursor, Item.source, List.length_append, Nat.add_assoc]
      rfl
    rw [← hleast, hq, ← hmost, hcursor']
  | set s => cases hinner

/-- The state in which the machine has gone back to a remembered point. -/
def returned (point : Nat) (s : State) : State :=
  { s with
    retry := none
    returns := s.returns + 1
    position := point
    cursor := s.cursor + 1
    repeating := false }

/-- The state behind the byte that is then read. -/
def misread (point : Nat) (s : State) : State :=
  { returned point s with elementStart := s.cursor + 1, accepts := false, cursor := s.cursor + 2 }

/-- When the input has run out while an element repeats, the machine goes back. -/
theorem Again.step_eq_returned (h : Again cfg a q rest s) (hpos : s.position = cfg.text.size)
    (hretry : s.retry = some point) (hrest : rest ≠ []) :
    step cfg s = .next (returned point s) := by
  have hcursor := h.facing.cursor_lt
  have hreturns : s.returns < cfg.returnLimit := by
    have hle := h.facing.returns_le
    have hstop := h.facing.stop_le
    have hlimit := h.facing.length_lt
    omega
  have hfinished : ¬s.finished = true := mt h.finished.mp hrest
  rw [step, if_neg (Nat.not_le_of_lt hcursor), if_pos hpos, atEnd, if_neg hfinished, hretry]
  exact if_pos hreturns

/-- There the byte behind the first one of the element is read, and does not accept. -/
theorem Again.step_returned (h : Again cfg a q rest s)
    (hinner : (Item.element a q).inner? = some b) (hc : cfg.text[point]? = some c)
    (hacc : a.accepts c = true) (hne : c ≠ b) :
    step cfg (returned point s) = close cfg (misread point s) := by
  obtain ⟨hliteral, hbyte⟩ := h.facing.inner hinner hacc hne
  have hinv : a.inverted = false := by
    cases a with
    | set s => cases hinner
    | _ => rfl
  have hpos : (returned point s).position ≠ cfg.text.size := by
    show point ≠ cfg.text.size
    have hlt := (Array.getElem?_eq_some_iff.mp hc).1
    omega
  have hstop : ¬cfg.stop ≤ (returned point s).cursor := by
    show ¬cfg.stop ≤ s.cursor + 1
    have hsource := h.facing.stop_eq
    have hrepeats := h.repeats
    rw [sourceOf_cons, Item.source, List.length_append, List.length_append] at hsource
    have hatom : 0 < a.source.length := by
      obtain ⟨first, more, ha, -⟩ := a.element_source.exists_eq_cons
      simp [ha]
    have hquantifier : 0 < q.source.length := by
      cases q <;> simp_all [Quantifier.most, Quantifier.source]
    omega
  have hread : read cfg (returned point s) = .element (misread point s) := by
    have hliteralRead := read_literal (s := returned point s) h.idle.inSet
      (h.inverted.trans hinv) hbyte hliteral hc
    rwa [beq_false_of_ne hne.symm] at hliteralRead
  rw [step, if_neg hstop, if_neg hpos]
  have hsame : read cfg { returned point s with repeating := false } = .element (misread point s) :=
    hread
  rw [hsame]

/-- **When the input has run out, an element gives back** what it took from the remembered point on,
and the match goes on behind it. -/
theorem Again.leads_back (h : Again cfg a q rest s) (hpos : s.position = cfg.text.size)
    (hretry : s.retry = some point) (hrest : rest ≠ [])
    (hharmless : harmless cfg.text (.element a q) point = true) (hatChar : cfg.text.AtChar point)
    (hc : cfg.text[point]? = some c) (hacc : a.accepts c = true) :
    ∃ s', Leads cfg s s' ∧ Rests cfg rest s' ∧ Moves s s' [] point none := by
  rw [harmless] at hharmless
  split at hharmless
  · cases hharmless
  next b hinner =>
  have hne : c ≠ b := by
    rintro rfl
    simp [hc] at hharmless
  have hstep := (h.step_returned hinner hc hacc hne).trans
    (close_of_passes (p := tally (misread point s)) (by
      have hfrontier : (tally (misread point s)).frontier = none := h.idle.frontier
      rw [passFrontier, hfrontier]))
  obtain ⟨greedy, htake⟩ := h.facing.takeQuantifier_inner (t := tally (misread point s)) hinner
    h.repeats rfl h.least h.most
  -- the element is settled with what it had taken, at the point
  have hquantify : quantify cfg (tally (misread point s)) =
      { tally (misread point s) with
        cursor := s.cursor + (Item.element a q).source.length
        finished := s.cursor + (Item.element a q).source.length = cfg.stop } := by
    rw [quantify, htake]
  generalize quantify cfg (tally (misread point s)) = settling at hstep hquantify
  have hcount : settling.count = s.count := by
    rw [hquantify]
    rfl
  have hlimits : settling.least = q.least ∧ settling.most = none := by
    rw [hquantify]
    exact ⟨h.least, h.most⟩
  have hleast : settling.least ≤ settling.count := by
    rw [hcount, hlimits.1]
    exact Nat.le_trans q.least_le_one h.count
  have hmost : aboveLimit settling.count settling.most = false := by
    rw [hlimits.2]
    rfl
  have hnot : (misread point s).accepts = false := rfl
  rw [hnot, Bool.false_and, if_neg Bool.false_ne_true, settle_of_left hleast hmost] at hstep
  refine ⟨_, (leads_of_step (h.step_eq_returned hpos hretry hrest)).trans (leads_of_step hstep),
    ?_, ?_⟩
  · refine h.facing.rests_settled ?_ ?_ ?_ ?_ ?_ ?_ _ <;> rw [hquantify]
    · exact ⟨h.idle.inSet, rfl, h.idle.frontier, h.idle.rewound⟩
    · rfl
    · simp
    · exact hatChar
    · exact Nat.le_refl _
  · rw [hquantify]
    exact moves_of_closes_eq rfl

/-! ## 2.  Marks and frontiers -/

theorem step_of_read_eq_skip (hcursor : s.cursor < cfg.stop) (hpos : s.position ≠ cfg.text.size)
    (hread : read cfg { s with repeating := false } = .skip s') : step cfg s = .next s' := by
  rw [step, if_neg (Nat.not_le_of_lt hcursor), if_neg hpos, hread]

/-- A mark is passed in one turn. -/
theorem Rests.leads_mark {i : Item} {start : Nat} (h : Rests cfg (i :: rest) s)
    (places : List Nat) (hpos : s.position ≠ cfg.text.size) (hlength : i.source.length = 1)
    (hread : read cfg { s with repeating := false } =
      .skip
        { s with
          repeating := false
          closes := s.closes ++ places
          elementStart := start
          cursor := s.cursor + 1 }) :
    ∃ s', Leads cfg s s' ∧ Rests cfg rest s' ∧ Moves s s' places s.position s.retry := by
  have hstep := step_of_read_eq_skip h.facing.cursor_lt hpos hread
  refine ⟨_, leads_of_step hstep, ?_, ⟨rfl, rfl, rfl⟩⟩
  exact
    { facing := h.facing.behind (by rw [hlength]) h.facing.atChar (Nat.le_succ _)
      fresh :=
        { inSet := h.fresh.inSet
          accepts := h.fresh.accepts
          frontier := h.fresh.frontier
          rewound := h.fresh.rewound
          inverted := h.fresh.inverted
          least := h.fresh.least
          most := h.fresh.most
          count := h.fresh.count
          repeating := rfl }
      finished := fun hend => absurd (h.finished hend) (List.cons_ne_nil _ _) }

/-- The set of a frontier is inverted if a `^` stands behind its bracket. -/
theorem Bracket.byteAt_eq_caret_iff {i : Nat} {more : Source} (b : Bracket)
    (hat : cfg.pattern.drop i = b.source ++ more) :
    cfg.pattern.byteAt (i + 1) = caret ↔ b.inverted = true := by
  have hinside := Source.drop_succ_of_drop (b := openSet) hat
  cases hinv : b.inverted with
  | true =>
    rw [hinv, if_pos rfl] at hinside
    exact iff_of_true (Source.byteAt_eq_of_drop hinside) rfl
  | false =>
    have hmembers : cfg.pattern.drop (i + 1) = membersSource b.members ++ closeSet :: more := by
      rw [hinside]
      simp [hinv]
    exact iff_of_false (byteAt_ne_caret_of_head_ne b.nonempty (b.head_ne hinv) hmembers)
      Bool.false_ne_true

/-- Whether a pending frontier is passed is a question about the bytes on both of its sides. -/
theorem Facing.passFrontier_eq {b : Bracket} {e : State} (h : Facing cfg (.frontier b :: rest) s)
    (hfrontier : e.frontier = some (s.cursor, s.position)) (hposition : e.position = s.position)
    (hc : cfg.text[s.position]? = some c) :
    passFrontier cfg e =
      if b.outsideBefore cfg.text s.position && b.accepts c then
        .next { e with frontier := none, position := s.position, rewound := true }
      else .done .reject := by
  have hset : cfg.pattern.drop (s.cursor + 2) =
      b.source ++ (sourceOf rest ++ anchorTail cfg.toEnd) := by
    have hsource := h.source
    rw [sourceOf_cons, List.append_assoc] at hsource
    exact Source.drop_succ_of_drop (Source.drop_succ_of_drop hsource)
  have hplain : EndsPlain cfg.toEnd (.element (.set b) .once :: rest) := by
    intro hend hlast
    refine h.endsPlain hend ?_
    rw [List.map_cons, List.getLast?_cons] at hlast ⊢
    cases hrest : (rest.map Item.source).getLast? with
    | none => simp [hrest, Item.source, Atom.source, Bracket.source, openSet, percent] at hlast
    | some last => simpa [hrest] using hlast
  have hprobe : ∀ {p d}, cfg.text[p]? = some d →
      probe (cfg.pattern.drop (s.cursor + 2)) cfg.text p = some (b.accepts d) := by
    intro p d hd
    have hprobeSet := probe_sourceOf hplain hd
    simpa [hset, Item.source, Atom.source, Quantifier.source, nextAccepts, Atom.accepts]
      using hprobeSet
  have hcaret : cfg.pattern.byteAt (s.cursor + 3) = caret ↔ b.inverted = true :=
    b.byteAt_eq_caret_iff hset
  rw [passFrontier, hfrontier]
  dsimp only
  rw [hposition, hprobe hc]
  cases hp : s.position with
  | zero =>
    cases hinv : b.inverted with
    | true => simp [Bracket.outsideBefore, hinv, hcaret]
    | false => simp [Bracket.outsideBefore, hinv, hcaret]
  | succ before =>
    have hlt := (Array.getElem?_eq_some_iff.mp hc).1
    have hd : cfg.text[before]? = some cfg.text[before] := Array.getElem?_eq_getElem (by omega)
    simp [Bracket.outsideBefore, hprobe hd, hd]

/-- The state behind the `%f` of a frontier. -/
def awaiting (s : State) : State :=
  { s with
    repeating := false
    elementStart := s.cursor
    frontier := some (s.cursor, s.position)
    cursor := s.cursor + 2 }

/-- The state behind the set of a frontier. -/
def behindFrontier (b : Bracket) (c : UInt8) (s : State) : State :=
  { awaiting s with
    inverted := b.inverted
    elementStart := s.cursor + 2
    accepts := b.accepts c
    cursor := s.cursor + (Item.frontier b).source.length }

/-- The machine reads a frontier together with its set. -/
theorem Rests.leads_behindFrontier {b : Bracket} (h : Rests cfg (.frontier b :: rest) s)
    (hc : cfg.text[s.position]? = some c) :
    ∃ t, Leads cfg s t ∧ step cfg t = close cfg (behindFrontier b c s) := by
  have hpos : s.position ≠ cfg.text.size := Nat.ne_of_lt (Array.getElem?_eq_some_iff.mp hc).1
  have hsource := h.facing.source
  have hstop := h.facing.stop_eq
  rw [sourceOf_cons, List.append_assoc] at hsource
  rw [sourceOf_cons, List.length_append] at hstop
  have hstep : step cfg s = .next (awaiting s) := step_of_read_eq_skip h.facing.cursor_lt hpos
    (read_frontier (s := { s with repeating := false }) h.fresh.inSet hsource hc)
  have hspells : Spells cfg { awaiting s with repeating := false } (behindFrontier b c s) := by
    refine spells_bracket (s := awaiting s) b h.fresh.inSet h.fresh.accepts
      (fun hinv => absurd hinv (by simp [awaiting, h.fresh.inverted]))
      (Source.drop_succ_of_drop (Source.drop_succ_of_drop hsource)) ?_ (by omega) hc
    show s.cursor + (b.source.length + 2) = s.cursor + 2 + b.source.length
    omega
  obtain ⟨t, hleads, hclose⟩ := leads_of_spells h.facing.stop_le hspells hpos
  exact ⟨t, (leads_of_step hstep).trans hleads, hclose⟩

/-- The state behind a frontier that is passed: the advance is still owed. -/
def throughFrontier (cfg : Setting) (b : Bracket) (c : UInt8) (s : State) : State :=
  { tally (behindFrontier b c s) with
    frontier := none
    rewound := true
    finished := s.cursor + (Item.frontier b).source.length = cfg.stop }

/-- The set of a frontier counts as an element that is taken once, and takes nothing. -/
theorem Rests.settle_throughFrontier {b : Bracket} (h : Rests cfg (.frontier b :: rest) s)
    (hacc : b.accepts c = true) :
    ∃ s', settle cfg (throughFrontier cfg b c s) true = .next s' ∧ Rests cfg rest s' ∧
      Moves s s' [] s.position s.retry := by
  have hcount : (throughFrontier cfg b c s).count = 1 := by
    simp [throughFrontier, tally, behindFrontier, awaiting, hacc, h.fresh.count]
  have hleast : (throughFrontier cfg b c s).least = 1 := h.fresh.least
  have hmost : (throughFrontier cfg b c s).most = some 1 := h.fresh.most
  have hposition : (advance cfg (throughFrontier cfg b c s)).position = s.position :=
    Text.charStart_of_atChar h.facing.atChar
  refine ⟨_, settle_of_taken (by omega) (by rw [hmost, hcount]; rfl)
    (by rw [hcount]; exact Nat.one_pos), ?_, ⟨(List.append_nil _).symm, hposition, rfl⟩⟩
  refine h.facing.rests_settled (b := advance cfg (throughFrontier cfg b c s))
    ⟨h.fresh.inSet, rfl, rfl, rfl⟩ rfl rfl ?_ ?_ (Nat.le_succ _) _
  · simp [advance, throughFrontier, tally, behindFrontier]
  · rw [hposition]
    exact h.facing.atChar

/-- **A frontier is passed in place**, or ends the match. -/
theorem Rests.leads_frontier {b : Bracket} (h : Rests cfg (.frontier b :: rest) s)
    (hc : cfg.text[s.position]? = some c) :
    if b.outsideBefore cfg.text s.position && b.accepts c then
      ∃ s', Leads cfg s s' ∧ Rests cfg rest s' ∧ Moves s s' [] s.position s.retry
    else Concludes cfg s .reject := by
  obtain ⟨t, hleads, hstep⟩ := h.leads_behindFrontier hc
  have hpass := h.facing.passFrontier_eq (e := tally (behindFrontier b c s)) rfl rfl hc
  split at hpass
  · next hholds =>
    rw [if_pos hholds]
    have hacc : b.accepts c = true := (Bool.and_eq_true_iff.mp hholds).2
    have hbehind := h.facing.source
    rw [sourceOf_cons, List.append_assoc] at hbehind
    have hclose := close_of_passes
      (p := { tally (behindFrontier b c s) with frontier := none, rewound := true }) hpass
    have htake := takeQuantifier_sourceOf
      (s := { tally (behindFrontier b c s) with frontier := none, rewound := true })
      (Source.drop_add_of_drop hbehind)
    have hquantify : quantify cfg
        { tally (behindFrontier b c s) with frontier := none, rewound := true } =
          throughFrontier cfg b c s := by
      rw [quantify, htake]
      rfl
    have hlimit : belowLimit (throughFrontier cfg b c s).count
        (throughFrontier cfg b c s).most = false := by
      simp [throughFrontier, tally, behindFrontier, awaiting, hacc, h.fresh.count, h.fresh.most,
        belowLimit]
    have hbehindAccepts : (behindFrontier b c s).accepts = true := hacc
    rw [hquantify, hlimit, hbehindAccepts, Bool.and_false, if_neg Bool.false_ne_true] at hclose
    obtain ⟨s', hsettle, hrests, hmoves⟩ := h.settle_throughFrontier hacc
    exact ⟨s', hleads.trans (leads_of_step (hstep.trans (hclose.trans hsettle))), hrests, hmoves⟩
  · next hfails =>
    rw [if_neg hfails]
    rw [close_of_done hpass] at hstep
    exact hleads.concludes (concludes_of_step hstep)

/-- **A part that is read in front of a character** leaves the text where it stops, or ends the
match. -/
theorem Rests.outcome {i : Item} (h : Rests cfg (i :: rest) s)
    (hpos : s.position ≠ cfg.text.size) : Outcome cfg i rest s := by
  have hsource := h.facing.source
  rw [sourceOf_cons, List.append_assoc] at hsource
  cases i with
  | openGroup =>
    have hread := read_openGroup (s := { s with repeating := false }) h.fresh.inSet
      (Source.byteAt_eq_of_drop hsource)
    obtain ⟨s', hleads, hrests, hmoves⟩ := h.leads_mark [] hpos rfl
      (by rw [List.append_nil]; exact hread)
    exact ⟨s', hleads, .behind hrests (by simp [Item.repeats]), hmoves⟩
  | closeGroup =>
    have hread := read_closeGroup (s := { s with repeating := false }) h.fresh.inSet
      (Source.byteAt_eq_of_drop hsource)
    obtain ⟨s', hleads, hrests, hmoves⟩ := h.leads_mark _ hpos rfl hread
    exact ⟨s', hleads, .behind hrests (by simp [Item.repeats]), hmoves⟩
  | frontier b =>
    obtain ⟨c, hc⟩ := h.facing.exists_char hpos
    have hfrontier := h.leads_frontier hc
    rw [Outcome, Item.stop?, hc, Option.any_some]
    split at hfrontier
    · next hholds =>
      obtain ⟨s', hleads, hrests, hmoves⟩ := hfrontier
      rw [if_pos hholds]
      exact ⟨s', hleads, .behind hrests (by simp [Item.repeats]), hmoves⟩
    · next hfails =>
      rw [if_neg hfails]
      exact hfrontier
  | element a q => exact h.outcome_element hpos

/-! ## 3.  The end of the text -/

/-- The verdict on a reading, where some captures are closed already. -/
def verdictOn (closes : List Nat) : Option (List Nat) → Verdict
  | none => .reject
  | some bounds => .accept (closes ++ bounds)

theorem verdictOn_map (closes places : List Nat) (reading : Option (List Nat)) :
    verdictOn closes (reading.map (places ++ ·)) = verdictOn (closes ++ places) reading := by
  cases reading <;> simp [verdictOn]

theorem Facing.remainder (h : Facing cfg items s) :
    (cfg.pattern.take cfg.stop).drop s.cursor = sourceOf items := by
  rw [List.drop_take, h.source, show cfg.stop - s.cursor = (sourceOf items).length by
    have hstop := h.stop_eq
    omega, List.take_left]

/-- What is left of a template decides, once the input has run out. -/
theorem exhausted_of_remainder? (hpos : s.position = cfg.text.size)
    (hremainder : remainder? cfg s = some (sourceOf items)) :
    exhausted cfg s = verdictOn s.closes (yielding cfg.text cfg.toEnd items cfg.text.size) := by
  rw [exhausted, hremainder, Option.bind_some, tailCloses?_sourceOf, yielding_of_size]
  cases tailCloses? items with
  | none => rfl
  | some n => simp [conclude, verdictOn, hpos]

/-- Behind the last part, the match ends. -/
theorem Rests.concludes_nil (h : Rests cfg [] s) :
    Concludes cfg s (verdictOn s.closes (yielding cfg.text cfg.toEnd [] s.position)) := by
  have hcursor : cfg.stop ≤ s.cursor := by
    have hstop := h.facing.stop_eq
    simp only [sourceOf_nil, List.length_nil, Nat.add_zero] at hstop
    omega
  have hverdict : conclude cfg s =
      verdictOn s.closes (yielding cfg.text cfg.toEnd [] s.position) := by
    cases htoEnd : cfg.toEnd <;> by_cases hpos : s.position = cfg.text.size <;>
      simp [conclude, yielding, walk, verdictOn, htoEnd, hpos]
  exact hverdict ▸ concludes_of_step (by rw [step, if_pos hcursor])

/-- At the end of the text nothing else can be done than to leave out what is left. -/
theorem Rests.concludes_of_size (h : Rests cfg items s) (hpos : s.position = cfg.text.size)
    (hretry : s.retry = none) :
    Concludes cfg s (verdictOn s.closes (yielding cfg.text cfg.toEnd items s.position)) := by
  cases items with
  | nil => exact h.concludes_nil
  | cons i rest =>
    have hfinished : ¬s.finished = true := fun hend => List.cons_ne_nil _ _ (h.finished hend)
    have hremainder : remainder? cfg s = some (sourceOf (i :: rest)) := by
      rw [remainder?, h.fresh.repeating, h.facing.remainder]
      rfl
    rw [hpos, ← exhausted_of_remainder? hpos hremainder]
    refine concludes_of_step ?_
    rw [step, if_neg (Nat.not_le_of_lt h.facing.cursor_lt), if_pos hpos, atEnd, if_neg hfinished,
      hretry]

/-- The same holds while an element repeats, which has then taken enough. -/
theorem Again.concludes (h : Again cfg a q rest s) (hpos : s.position = cfg.text.size)
    (hretry : rest = [] ∨ s.retry = none) :
    Concludes cfg s (verdictOn s.closes (yielding cfg.text cfg.toEnd rest cfg.text.size)) := by
  have hstep : step cfg s = atEnd cfg s := by
    rw [step, if_neg (Nat.not_le_of_lt h.facing.cursor_lt), if_pos hpos]
  by_cases hrest : rest = []
  · subst hrest
    have hcount : s.least ≤ s.count := h.least ▸ Nat.le_trans q.least_le_one h.count
    have hverdict : conclude cfg s =
        verdictOn s.closes (yielding cfg.text cfg.toEnd [] cfg.text.size) := by
      simp [conclude, yielding, walk, verdictOn, hpos]
    refine hverdict ▸ concludes_of_step ?_
    rw [hstep, atEnd, if_pos (h.finished.mpr rfl), if_pos hcount]
  · have hremainder : remainder? cfg s = some (sourceOf rest) := by
      rw [remainder?, h.repeating, h.facing.remainder, sourceOf_cons, Item.source,
        List.append_assoc]
      exact afterElement?_source a h.repeats (sourceOf rest)
    rw [← exhausted_of_remainder? hpos hremainder]
    refine concludes_of_step ?_
    rw [hstep, atEnd, if_neg (mt h.finished.mp hrest), hretry.resolve_left hrest]

/-! ## 4.  The whole match -/

/-- What an orderly match answers from each state in which it rests in front of some parts. -/
def Answers (cfg : Setting) (may : Item → List Item → Nat → Nat → Bool) (items : List Item) :
    Prop :=
  ∀ s, Rests cfg items s → orderly cfg.text may s.retry.isSome items s.position = true →
    Concludes cfg s (verdictOn s.closes (yielding cfg.text cfg.toEnd items s.position))

/-- A part that gives nothing back leaves the answer to the parts behind it. -/
theorem Stops.concludes {may : Item → List Item → Nat → Nat → Bool} {i : Item}
    (h : Stops cfg rest s i) (hanswers : Answers cfg may rest)
    (horderly : orderly cfg.text may s.retry.isSome rest s.position = true) :
    Concludes cfg s (verdictOn s.closes (yielding cfg.text cfg.toEnd rest s.position)) := by
  cases h with
  | behind hrests hleft => exact hanswers s hrests horderly
  | within hagain hpos =>
    rw [hpos]
    refine hagain.concludes hpos ?_
    cases rest with
    | nil => exact Or.inl rfl
    | cons j rest =>
      rw [orderly, if_pos hpos] at horderly
      exact Or.inr (by simpa using horderly)

/-- An element that gives back leaves the answer to the parts behind it, at the point where it gives
back. -/
theorem Stops.concludes_back {may : Item → List Item → Nat → Nat → Bool} {i : Item} {p : Nat}
    (h : Stops cfg rest s i) (hanswers : Answers cfg may rest) (hpos : s.position = cfg.text.size)
    (hp : cfg.text.AtChar p) (hshared : i.lastShared? cfg.text rest p = some point)
    (hretry : s.retry = some point) (hharmless : harmless cfg.text i point = true)
    (horderly : orderly cfg.text may false rest point = true) :
    Concludes cfg s (verdictOn s.closes (yielding cfg.text cfg.toEnd rest point)) := by
  cases h with
  | behind hrests hleft =>
    exact absurd hpos (hleft (Item.repeats_of_lastShared? hshared))
  | @within a q hagain =>
    rw [Item.lastShared?, if_pos hagain.repeats] at hshared
    obtain ⟨n, c, htakes, hc, hacc, hnext⟩ := Atom.exists_takes_of_lastShared? hshared
    have hrest : rest ≠ [] := by
      rintro rfl
      cases hnext
    obtain ⟨s', hleads, hrests, hmoves⟩ :=
      hagain.leads_back hpos hretry hrest hharmless (htakes.atChar hp) hc hacc
    have hanswer := hanswers s' hrests (by rw [hmoves.retry, hmoves.position]; exact horderly)
    rw [hmoves.position, hmoves.closes, List.append_nil] at hanswer
    exact hleads.concludes hanswer

/-- **An orderly match answers with the yielding reading.** The induction is on the parts that are
left; the invariant is that the machine rests in front of them, and remembers a point only if the
reading is orderly with one. -/
theorem answers_of_harmless {may : Item → List Item → Nat → Nat → Bool}
    (hmay : ∀ i rest p point, may i rest p point = true → harmless cfg.text i point = true)
    (items : List Item) : Answers cfg may items := by
  induction items with
  | nil => exact fun s h _ => h.concludes_nil
  | cons i rest ih =>
    intro s h horderly
    rw [orderly] at horderly
    by_cases hpos : s.position = cfg.text.size
    · rw [if_pos hpos] at horderly
      exact h.concludes_of_size hpos (by simpa using horderly)
    rw [if_neg hpos] at horderly
    have houtcome := h.outcome hpos
    rw [yielding_cons, Item.leave?]
    cases hstop : i.stop? cfg.text s.position with
    | none =>
      rw [Outcome, hstop] at houtcome
      exact houtcome
    | some stop =>
      rw [Outcome, hstop] at houtcome
      rw [hstop] at horderly
      obtain ⟨s', hleads, hstops, hmoves⟩ := houtcome
      refine hleads.concludes ?_
      have hclosed : ∀ reading, verdictOn s.closes (reading.map (i.closes s.position ++ ·)) =
          verdictOn s'.closes reading := by
        intro reading
        rw [verdictOn_map, hmoves.closes]
      dsimp only [Option.map_some]
      rw [hclosed]
      cases hshared : i.lastShared? cfg.text rest s.position with
      | none =>
        rw [hshared] at horderly
        have hretry : s'.retry = s.retry := by rw [hmoves.retry, hshared, Option.none_or]
        rw [Option.getD_none, ite_self, ← hmoves.position]
        exact hstops.concludes ih (by rw [hretry, hmoves.position]; exact horderly)
      | some point =>
        rw [hshared] at horderly
        have hretry : s'.retry = some point := by rw [hmoves.retry, hshared, Option.some_or]
        by_cases hend : stop = cfg.text.size
        · dsimp only at horderly
          rw [if_pos hend, Bool.and_eq_true] at horderly
          rw [if_pos hend, Option.getD_some]
          exact hstops.concludes_back ih (hmoves.position.trans hend) h.facing.atChar hshared hretry
            (hmay _ _ _ _ horderly.1) horderly.2
        · dsimp only at horderly
          rw [if_neg hend] at horderly
          rw [if_neg hend, ← hmoves.position]
          exact hstops.concludes ih (by rw [hretry, hmoves.position]; exact horderly)

end LuaPattern
end Linewise
