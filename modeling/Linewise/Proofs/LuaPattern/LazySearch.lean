import Linewise.Proofs.LuaPattern.Verbatim
import Linewise.Proofs.LuaPattern.Literal
import Linewise.Proofs.LuaPattern.LazyEnd

/-!
# Searching with a lazy element

In `.-w` the `.` gives way to the first byte of the word `w` alone, wherever it stands. It does so
by passing over this byte in the pattern, and the limits of the `.-`, any number of times and
lazily, stay those of the byte behind it.

## 1.  In front of a word

What the machine asks in front of a word (`probe_word`), and how an element gives way to it
(`again_word`).

## 2.  Behind the first byte

`Lenient` is the state behind the byte that was passed over. From there the machine comes to what
`lenient?` takes for the rest of the word (`Lenient.concludes`).

## 3.  The search

`Searching` is the state in which the first byte is looked for, and `lazyEnd?` is where it leads
(`Searching.concludes`).

## 4.  The whole match

The machine answers with `lazyEnd?` (`boundariesAt?_of_lazy`). It finds the first occurrence of the
word if that is the first occurrence of its first byte, on every text in which the word is read
there as it is written (`boundariesAt?_lazySearch_iff`), and on no other
(`readAsWritten_iff_boundariesAt?`). It finds it on every text exactly for words of one byte
(`stopsAtFirst_iff`).
-/

namespace Linewise
namespace LuaPattern

variable {cfg : Setting} {s s' : State} {w v : List UInt8} {x b c : UInt8} {t : Text} {p i : Nat}

/-! ## 1.  In front of a word -/

/-- A probe of a word asks its first byte. -/
theorem probe_word (h : ∀ b ∈ v, isOrdinary b = true) (hc : t[p]? = some c) :
    probe v t p = some (v.head? == some c) := by
  have hlt : p < t.size := (Array.getElem?_eq_some_iff.mp hc).1
  cases v with
  | nil =>
    have hcaret : Source.byteAt [] 0 ≠ caret := by decide
    rw [probe, start_of_ne_caret hcaret (Nat.le_of_lt hlt)]
    rfl
  | cons b v =>
    have hb := h b List.mem_cons_self
    have hlast : (b :: v).getLast? ≠ some dollar := fun hdollar =>
      absurd rfl (ne_of_isOrdinary (h _ (List.mem_of_getLast? hdollar))
        (show dollar ∈ magicBytes by decide))
    have hfree := unanchored_settingOf hlast t p
    have hread : read (settingOf (b :: v) t p) (atStart 0 p) =
        .element { atStart 0 p with elementStart := 0, accepts := b == c, cursor := 1 } :=
      read_literal rfl rfl rfl (isLiteral_of_isOrdinary hb) hc
    have hspells : Spells (settingOf (b :: v) t p) (atStart 0 p) _ :=
      .element (by rw [hfree.stop_eq]; exact Nat.succ_pos _) hread
    have hcaret : Source.byteAt (b :: v) 0 ≠ caret := ne_of_isOrdinary hb (by decide)
    rw [probe, start_of_ne_caret hcaret (Nat.le_of_lt hlt)]
    exact probeFrom_of_spells (Nat.le_of_eq hfree.stop_eq) hspells (Nat.ne_of_lt hlt)
      (by simp only [List.length_cons]; omega)

/-- In front of a word an element that is not greedy gives way where the first byte stands. -/
theorem again_word {e : State} (h : ∀ b ∈ v, isOrdinary b = true)
    (hsource : cfg.pattern.drop e.cursor = v) (hc : cfg.text[e.position]? = some c) :
    again cfg e false =
      .next
        (if v.head? = some c then
          advance cfg { e with cursor := e.cursor + 1, finished := e.cursor + 1 = cfg.stop }
        else advance cfg { e with cursor := e.elementStart, repeating := true }) := by
  rw [again, hsource, probe_word h hc]
  by_cases hhead : v.head? = some c
  · rw [if_pos hhead, beq_iff_eq.mpr hhead]
    rfl
  · rw [if_neg hhead, beq_false_of_ne hhead]
    rfl

/-! ## 2.  Behind the first byte -/

theorem Idle.position_advance (h : Idle s) (cfg : Setting) :
    (advance cfg s).position = cfg.text.charStart (s.position + 1) := by
  simp [advance, h.rewound]

/-- The machine reads a word with the limits of a lazy element in front of it. -/
structure Lenient (cfg : Setting) (v : List UInt8) (s : State) : Prop extends Idle s where
  /-- The pattern is read to its end. -/
  free : Unanchored cfg
  /-- The word is what is left of the pattern. -/
  source : cfg.pattern.drop s.cursor = v
  /-- Its bytes stand for themselves. -/
  ordinary : ∀ b ∈ v, isOrdinary b = true
  /-- The cursor stands in the pattern. -/
  cursor_le : s.cursor ≤ cfg.pattern.length
  /-- The position lies in the text. -/
  position_le : s.position ≤ cfg.text.size
  /-- No set was inverted. -/
  inverted : s.inverted = false
  /-- The next element may be missing. -/
  least : s.least = 0
  /-- The next element may be repeated. -/
  most : s.most = none
  /-- Nothing is remembered. -/
  retry : s.retry = none
  /-- No capture is closed. -/
  closes : s.closes = []

namespace Lenient

theorem length_eq (h : Lenient cfg v s) : s.cursor + v.length = cfg.pattern.length := by
  have hle := h.cursor_le
  rw [← h.source, List.length_drop]
  omega

theorem cursor_lt (h : Lenient cfg (x :: v) s) : s.cursor < cfg.stop := by
  have hlength := h.length_eq
  rw [List.length_cons] at hlength
  rw [h.free.stop_eq]
  omega

/-- Behind some bytes of the word the pattern ends if these were all. -/
theorem end_iff (u : List UInt8) (h : Lenient cfg (u ++ v) s) :
    s.cursor + u.length = cfg.stop ↔ v = [] := by
  have hlength := h.length_eq
  rw [List.length_append] at hlength
  rw [h.free.stop_eq, ← List.length_eq_zero_iff]
  omega

theorem drop_succ (h : Lenient cfg (x :: v) s) : cfg.pattern.drop (s.cursor + 1) = v :=
  Source.drop_succ_of_drop h.source

theorem ordinary_tail (h : Lenient cfg (x :: v) s) : ∀ b ∈ v, isOrdinary b = true :=
  fun b hb => h.ordinary b (List.mem_cons_of_mem x hb)

theorem writes_tail (h : Lenient cfg (x :: v) s) : Writes (cfg.pattern.drop (s.cursor + 1)) v := by
  rw [h.drop_succ]
  exact writes_of_ordinary h.ordinary_tail

/-- The state behind the byte of a word. -/
def behindByte (cfg : Setting) (x c : UInt8) (s : State) : State :=
  { s with
    repeating := false
    elementStart := s.cursor
    cursor := s.cursor + 1
    count := if x = c then s.count + 1 else s.count
    finished := s.cursor + 1 = cfg.stop }

/-- The next byte of the word is repeated, or done with if the character is another one. -/
theorem step_eq (h : Lenient cfg (x :: v) s) (hc : cfg.text[s.position]? = some c) :
    step cfg s =
      if x = c then again cfg (behindByte cfg x c s) false
      else settle cfg (behindByte cfg x c s) false := by
  have hpos : s.position ≠ cfg.text.size := Nat.ne_of_lt (Array.getElem?_eq_some_iff.mp hc).1
  have hread := read_literal (s := { s with repeating := false }) h.inSet h.inverted
    (Source.byteAt_eq_of_drop h.source)
    (isLiteral_of_isOrdinary (h.ordinary x List.mem_cons_self)) hc
  have hclose := close_of_plain
    (e := { s with
      repeating := false, elementStart := s.cursor, accepts := x == c, cursor := s.cursor + 1 })
    h.frontier h.writes_tail.isQuantifier_byteAt
  rw [step, if_neg (Nat.not_le_of_lt h.cursor_lt), if_neg hpos, hread]
  refine hclose.trans ?_
  by_cases hx : x = c
  · simp [hx, h.most, h.accepts, belowLimit, behindByte]
  · have hbyte : (x == c) = false := beq_false_of_ne hx
    simp [hx, hbyte, h.accepts, behindByte]

/-- Behind the word the match ends. -/
theorem step_nil (h : Lenient cfg [] s) : step cfg s = .done (.accept [s.position]) := by
  have hstep := h.free.step_eq (List.drop_eq_nil_iff.mp h.source)
  rwa [h.closes] at hstep

/-- A byte is repeated, unless another one like it stands behind it. -/
theorem step_of_repeated (h : Lenient cfg (x :: v) s) (hc : cfg.text[s.position]? = some x)
    (hhead : v.head? ≠ some x) :
    ∃ s', step cfg s = .next s' ∧ Lenient cfg (x :: v) s' ∧ s'.repeating = true ∧
      (s'.finished = true ↔ v = []) ∧ s'.position = cfg.text.charStart (s.position + 1) := by
  have hlt : s.position < cfg.text.size := (Array.getElem?_eq_some_iff.mp hc).1
  have hposition := h.toIdle.position_advance cfg
  rw [h.step_eq hc, if_pos rfl,
    again_word (e := behindByte cfg x x s) h.ordinary_tail h.drop_succ hc, if_neg hhead]
  refine ⟨_, rfl, ?_, rfl, ?_, hposition⟩
  · exact
      { inSet := h.inSet
        accepts := h.accepts
        frontier := h.frontier
        rewound := rfl
        free := h.free
        source := h.source
        ordinary := h.ordinary
        cursor_le := h.cursor_le
        position_le := (Nat.le_of_eq hposition).trans (Text.charStart_le_size hlt)
        inverted := h.inverted
        least := h.least
        most := h.most
        retry := h.retry
        closes := h.closes }
  · exact decide_eq_true_iff.trans (end_iff [x] h)

/-- Two equal bytes of the word are passed over together. -/
theorem step_of_doubled (h : Lenient cfg (x :: x :: v) s) (hc : cfg.text[s.position]? = some x) :
    ∃ s', step cfg s = .next s' ∧ Lenient cfg v s' ∧ s'.repeating = false ∧
      (s'.finished = true → v = []) ∧ s'.position = cfg.text.charStart (s.position + 1) := by
  have hlt : s.position < cfg.text.size := (Array.getElem?_eq_some_iff.mp hc).1
  have hlength := h.length_eq
  have hposition := h.toIdle.position_advance cfg
  rw [h.step_eq hc, if_pos rfl,
    again_word (e := behindByte cfg x x s) h.ordinary_tail h.drop_succ hc,
    if_pos (show (x :: v).head? = some x from rfl)]
  refine ⟨_, rfl, ?_, rfl, ?_, hposition⟩
  · exact
      { inSet := h.inSet
        accepts := h.accepts
        frontier := h.frontier
        rewound := rfl
        free := h.free
        source := Source.drop_succ_of_drop h.drop_succ
        ordinary := fun b hb => h.ordinary_tail b (List.mem_cons_of_mem x hb)
        cursor_le := by
          simp only [List.length_cons] at hlength
          simp only [advance, behindByte]
          omega
        position_le := (Nat.le_of_eq hposition).trans (Text.charStart_le_size hlt)
        inverted := h.inverted
        least := h.least
        most := h.most
        retry := h.retry
        closes := h.closes }
  · exact fun hend => (end_iff [x, x] h).mp (of_decide_eq_true hend)

/-- A byte that is missing is done with, and with it the limits of the lazy element. -/
theorem step_of_missing (h : Lenient cfg (x :: v) s) (hc : cfg.text[s.position]? = some c)
    (hne : x ≠ c) :
    ∃ s', step cfg s = .next s' ∧ Spelled cfg v s' ∧ s'.position = s.position ∧ s'.closes = [] := by
  have hlength := h.length_eq
  rw [h.step_eq hc, if_neg hne, settle_of_left (by simp [behindByte, h.least])
    (by simp [behindByte, h.most, aboveLimit])]
  refine ⟨_, rfl, ?_, rfl, h.closes⟩
  exact
    { inSet := h.inSet
      accepts := h.accepts
      frontier := h.frontier
      rewound := h.rewound
      inverted := rfl
      least := rfl
      most := rfl
      count := rfl
      repeating := rfl
      writes := h.writes_tail
      cursor_le := by
        simp only [List.length_cons] at hlength
        simp only [settled, behindByte]
        omega
      position_le := h.position_le
      retry := h.retry
      finished := fun hend => (end_iff [x] h).mp (of_decide_eq_true hend) }

/-- At the end of the text a word does not match, if none of its bytes has been repeated. -/
theorem step_of_size (h : Lenient cfg (x :: v) s) (hpos : s.position = cfg.text.size)
    (hrepeating : s.repeating = false) (hfinished : s.finished = false) :
    step cfg s = .done .reject := by
  refine LuaPattern.step_of_size h.cursor_lt hpos hfinished h.retry ?_
  rw [remainder?_of_not_repeating hrepeating, Option.bind_some, h.source]
  exact (writes_of_ordinary h.ordinary).optionalCloses?_take (Nat.sub_pos_of_lt h.cursor_lt) _

/-- At the end of the text a byte that has been repeated has to be the last one. -/
theorem step_of_size_repeated (h : Lenient cfg (x :: v) s) (hpos : s.position = cfg.text.size)
    (hrepeating : s.repeating = true) (hfinished : s.finished = true ↔ v = []) :
    step cfg s = .done (if v = [] then .accept [s.position] else .reject) := by
  have hlt := h.cursor_lt
  cases v with
  | nil =>
    rw [step, if_neg (Nat.not_le_of_lt hlt), if_pos hpos, atEnd, hfinished.mpr rfl, if_pos rfl,
      h.least, if_pos (Nat.zero_le _), conclude, h.free.toEnd, h.closes]
    rfl
  | cons y v =>
    have hopen : s.finished = false := Bool.eq_false_iff.mpr fun hs => by cases hfinished.mp hs
    refine LuaPattern.step_of_size hlt hpos hopen h.retry ?_
    have hx := h.ordinary x List.mem_cons_self
    have hpercent : x ≠ percent := ne_of_isOrdinary hx (by decide)
    have hset : x ≠ openSet := ne_of_isOrdinary hx (by decide)
    have hrest : (cfg.pattern.take cfg.stop).drop s.cursor = x :: y :: v := by
      rw [h.free.stop_eq, List.take_length, h.source]
    have hplain := ((writes_of_ordinary h.ordinary_tail).head (b := y) rfl).2
    have hafter : Source.afterElement? (x :: y :: v) = some (y :: v) := by
      simp [Source.afterElement?, Source.elementRest?, hpercent, hset, hplain]
    rw [remainder?, hrepeating, if_pos rfl, hrest, hafter, Option.bind_some]
    have htail : Source.optionalCloses? (y :: v).length ((y :: v).take (y :: v).length) = none :=
      (writes_of_ordinary h.ordinary_tail).optionalCloses?_take (Nat.succ_pos _) _
    rwa [List.take_length] at htail

/-- **Behind any number of its first byte**, which need not be there, the rest of the word is
compared. -/
theorem concludes_run (ht : cfg.text.Encoded) (hv : Ascii.All (x :: v)) (h : Lenient cfg (x :: v) s)
    (hhead : v.head? ≠ some x) (hend : s.position = cfg.text.size → s.repeating = true)
    (hfinished : s.repeating = true → (s.finished = true ↔ v = [])) :
    Concludes cfg s
      (verdictOn [] ((ahead? cfg.text (afterRun? x v) s.position).map fun stop => [stop])) := by
  obtain ⟨hx, hrest⟩ := List.forall_mem_cons.mp hv
  -- on what is left of the text
  induction hn : cfg.text.size - s.position generalizing s with
  | zero =>
    have hpos : s.position = cfg.text.size :=
      Nat.le_antisymm h.position_le (Nat.sub_eq_zero_iff_le.mp hn)
    have hstep := h.step_of_size_repeated hpos (hend hpos) (hfinished (hend hpos))
    rw [ahead?_of_size_le _ (Nat.le_of_eq hpos.symm), afterRun?]
    refine concludes_of_step (hstep.trans ?_)
    split <;> rfl
  | succ n ih =>
    have hlt : s.position < cfg.text.size := by omega
    obtain ⟨c, hc⟩ : ∃ c, cfg.text[s.position]? = some c := ⟨_, Array.getElem?_eq_getElem hlt⟩
    by_cases hxc : x = c
    · subst hxc
      obtain ⟨s', hstep, hnext, hrepeating, hlast, hposition⟩ := h.step_of_repeated hc hhead
      have hchar : cfg.text.AtChar (s.position + 1) := ht.atChar_succ hc hx
      rw [Text.charStart_of_atChar hchar] at hposition
      rw [ahead?_succ (g := afterRun? x v) hc fun l => by rw [afterRun?, if_pos rfl], ← hposition]
      exact (leads_of_step hstep).concludes
        (ih hnext (fun _ => hrepeating) (fun _ => hlast) (by omega))
    · obtain ⟨s', hstep, hspelled, hposition, hcloses⟩ := h.step_of_missing hc hxc
      have hword := hspelled.concludes h.free.cutAtDollar
      rw [hcloses, h.free.toEnd, hposition, verbatim?_of_ascii ht hrest] at hword
      rw [ahead?, Text.drop_toList_of_getElem? hc, afterRun?, if_neg (Ne.symm hxc),
        ← Text.drop_toList_of_getElem? hc]
      refine (leads_of_step hstep).concludes ?_
      split at hword <;> rename_i hstands
      · rwa [if_pos hstands]
      · rwa [if_neg hstands]

/-- **What is taken for the other bytes of the word**, once the first one has been passed over. -/
theorem concludes (ht : cfg.text.Encoded) : ∀ {v : List UInt8} {s : State}, Ascii.All v →
    Lenient cfg v s → s.repeating = false → (s.finished = true → v = []) →
    Concludes cfg s
      (verdictOn [] ((ahead? cfg.text (lenient? v) s.position).map fun stop => [stop]))
  | [], s, _, h, _, _ => concludes_of_step h.step_nil
  | x :: v, s, hv, h, hrepeating, hfinished => by
    have hopen : s.finished = false := Bool.eq_false_iff.mpr fun hs => by cases hfinished hs
    rcases Nat.eq_or_lt_of_le h.position_le with hpos | hlt
    · have hnone : lenient? (x :: v) [] = none := by rw [lenient?]
      rw [ahead?_of_size_le _ (Nat.le_of_eq hpos.symm), hnone]
      exact concludes_of_step (h.step_of_size hpos hrepeating hopen)
    · obtain ⟨c, hc⟩ : ∃ c, cfg.text[s.position]? = some c := ⟨_, Array.getElem?_eq_getElem hlt⟩
      by_cases hhead : v.head? = some x
      · obtain ⟨u, rfl⟩ := List.head?_eq_some_iff.mp hhead
        obtain ⟨hx, hrest⟩ := List.forall_mem_cons.mp hv
        by_cases hxc : x = c
        · -- two equal bytes are passed over together
          subst hxc
          obtain ⟨s', hstep, hnext, hnew, hlast, hposition⟩ := h.step_of_doubled hc
          have hchar : cfg.text.AtChar (s.position + 1) := ht.atChar_succ hc hx
          rw [Text.charStart_of_atChar hchar] at hposition
          rw [ahead?_succ (g := lenient? u) hc fun l => by rw [lenient?, if_pos rfl, if_pos rfl],
            ← hposition]
          exact (leads_of_step hstep).concludes
            (concludes ht (List.forall_mem_cons.mp hrest).2 hnext hnew hlast)
        · obtain ⟨s', hstep, hspelled, hposition, -⟩ := h.step_of_missing hc hxc
          rw [ahead?, Text.drop_toList_of_getElem? hc, lenient?, if_pos rfl, if_neg (Ne.symm hxc)]
          exact (leads_of_step hstep).concludes (concludes_of_step
            (hspelled.step_of_ne h.free.cutAtDollar (by rwa [hposition]) hxc))
      · have hconcludes := h.concludes_run ht hv hhead (fun hpos => absurd hpos (Nat.ne_of_lt hlt))
          fun htrue => absurd (hrepeating.symm.trans htrue) Bool.false_ne_true
        rw [ahead?, Text.drop_toList_of_getElem? hc] at hconcludes ⊢
        rwa [lenient?_cons hhead]

end Lenient

/-! ## 3.  The search -/

/-- The machine is at the start of a lazy element that takes anything, with a word behind it. -/
structure Searching (cfg : Setting) (x : UInt8) (v : List UInt8) (s : State) : Prop
    extends Idle s where
  /-- The pattern is read to its end. -/
  free : Unanchored cfg
  /-- The whole pattern. -/
  source : cfg.pattern = dot :: minus :: x :: v
  /-- The bytes of the word stand for themselves. -/
  ordinary : ∀ b ∈ x :: v, isOrdinary b = true
  /-- The cursor stands at the start of it. -/
  cursor : s.cursor = 0
  /-- The position lies in the text. -/
  position_le : s.position ≤ cfg.text.size
  /-- No set was inverted. -/
  inverted : s.inverted = false
  /-- The word is still ahead. -/
  finished : s.finished = false
  /-- Nothing is remembered. -/
  retry : s.retry = none
  /-- No capture is closed. -/
  closes : s.closes = []

namespace Searching

/-- The state behind the `.`. -/
def behindDot (s : State) : State :=
  { s with repeating := false, elementStart := s.cursor, accepts := true, cursor := s.cursor + 1 }

/-- The state behind the lazy element, which has taken a character. -/
def behindAny (cfg : Setting) (s : State) : State :=
  { s with
    repeating := false
    elementStart := 0
    cursor := 2
    count := s.count + 1
    least := 0
    most := none
    finished := 2 = cfg.stop }

theorem stop_eq (h : Searching cfg x v s) : cfg.stop = v.length + 3 := by
  rw [h.free.stop_eq, h.source]
  rfl

/-- The element takes the next character, and gives way if this is the first byte of the word. -/
theorem step_eq (h : Searching cfg x v s) (hc : cfg.text[s.position]? = some c) :
    step cfg s =
      .next
        (if x = c then
          advance cfg { behindAny cfg s with cursor := 3, finished := 3 = cfg.stop }
        else advance cfg { behindAny cfg s with cursor := 0, repeating := true }) := by
  have hlt : s.cursor < cfg.stop := by rw [h.stop_eq, h.cursor]; exact Nat.succ_pos _
  have hpos : s.position ≠ cfg.text.size := Nat.ne_of_lt (Array.getElem?_eq_some_iff.mp hc).1
  have hdot : cfg.pattern.byteAt s.cursor = dot := by rw [h.source, h.cursor]; rfl
  have hread := read_any (s := { s with repeating := false }) h.inSet h.inverted hdot
  have hpass : passFrontier cfg (tally (behindDot s)) = .next (tally (behindDot s)) := by
    have hnone : (tally (behindDot s)).frontier = none := h.frontier
    rw [passFrontier, hnone]
  have hminus : cfg.pattern.byteAt (tally (behindDot s)).cursor = minus := by
    have hcursor : (tally (behindDot s)).cursor = 1 := by rw [tally, behindDot, h.cursor]
    rw [hcursor, h.source]
    rfl
  have htake : takeQuantifier cfg (tally (behindDot s)) =
      ({ tally (behindDot s) with least := 0, most := none, cursor := 2 }, false) := by
    rw [takeQuantifier, if_pos hminus, tally, behindDot, h.cursor]
  have hquantify : quantify cfg (tally (behindDot s)) = behindAny cfg s := by
    rw [quantify, htake]
    simp [tally, behindDot, behindAny, h.cursor, h.accepts]
  have hdrop : cfg.pattern.drop (behindAny cfg s).cursor = x :: v := by rw [h.source]; rfl
  have hagain := again_word (e := behindAny cfg s) h.ordinary hdrop hc
  have hclose := close_of_passes hpass
  rw [hquantify, htake] at hclose
  rw [step, if_neg (Nat.not_le_of_lt hlt), if_neg hpos, hread]
  refine (hclose.trans hagain).trans ?_
  by_cases hxc : x = c
  · rw [if_pos hxc, if_pos (show (x :: v).head? = some c from congrArg some hxc)]
    rfl
  · have hhead : (x :: v).head? ≠ some c := fun hsome => hxc (Option.some.inj hsome)
    rw [if_neg hxc, if_neg hhead]
    rfl

/-- At the first byte of the word the search ends, and this byte is passed over. -/
theorem step_of_head (h : Searching cfg x v s) (hc : cfg.text[s.position]? = some x) :
    ∃ s', step cfg s = .next s' ∧ Lenient cfg v s' ∧ s'.repeating = false ∧
      (s'.finished = true → v = []) ∧ s'.position = cfg.text.charStart (s.position + 1) := by
  have hlt : s.position < cfg.text.size := (Array.getElem?_eq_some_iff.mp hc).1
  have hposition := h.toIdle.position_advance cfg
  rw [h.step_eq hc, if_pos rfl]
  refine ⟨_, rfl, ?_, rfl, fun hend => ?_, hposition⟩
  · exact
      { inSet := h.inSet
        accepts := h.accepts
        frontier := h.frontier
        rewound := rfl
        free := h.free
        source := by rw [h.source]; rfl
        ordinary := fun b hb => h.ordinary b (List.mem_cons_of_mem x hb)
        cursor_le := by rw [h.source]; exact Nat.le_add_left 3 v.length
        position_le := (Nat.le_of_eq hposition).trans (Text.charStart_le_size hlt)
        inverted := h.inverted
        least := rfl
        most := rfl
        retry := h.retry
        closes := h.closes }
  · have hstop : 3 = cfg.stop := of_decide_eq_true hend
    rw [h.stop_eq] at hstop
    exact List.eq_nil_of_length_eq_zero (by omega)

/-- At any other character it goes on. -/
theorem step_of_other (h : Searching cfg x v s) (hc : cfg.text[s.position]? = some c)
    (hne : x ≠ c) :
    ∃ s', step cfg s = .next s' ∧ Searching cfg x v s' ∧
      s'.position = cfg.text.charStart (s.position + 1) := by
  have hlt : s.position < cfg.text.size := (Array.getElem?_eq_some_iff.mp hc).1
  have hposition := h.toIdle.position_advance cfg
  have hopen : 2 ≠ cfg.stop := by rw [h.stop_eq]; omega
  rw [h.step_eq hc, if_neg hne]
  refine ⟨_, rfl, ?_, hposition⟩
  exact
    { inSet := h.inSet
      accepts := h.accepts
      frontier := h.frontier
      rewound := rfl
      free := h.free
      source := h.source
      ordinary := h.ordinary
      cursor := rfl
      position_le := (Nat.le_of_eq hposition).trans (Text.charStart_le_size hlt)
      inverted := h.inverted
      finished := decide_eq_false hopen
      retry := h.retry
      closes := h.closes }

/-- At the end of the text the word is missing, whether or not the element has been repeated. -/
theorem step_of_size (h : Searching cfg x v s) (hpos : s.position = cfg.text.size) :
    step cfg s = .done .reject := by
  have hlt : s.cursor < cfg.stop := by rw [h.stop_eq, h.cursor]; exact Nat.succ_pos _
  have hword : ∀ m, Source.optionalCloses? m (x :: v) = none := by
    intro m
    have htake := (writes_of_ordinary h.ordinary).optionalCloses?_take
      (n := (x :: v).length) (Nat.succ_pos _) m
    rwa [List.take_length] at htake
  have hrest : (cfg.pattern.take cfg.stop).drop s.cursor = dot :: minus :: x :: v := by
    rw [h.free.stop_eq, List.take_length, h.source, h.cursor]
    rfl
  refine LuaPattern.step_of_size hlt hpos h.finished h.retry ?_
  rw [remainder?, hrest]
  split
  · exact hword _
  · exact hword _

/-- **The first byte of the word is looked for**, and what is taken for the others behind it. -/
theorem concludes (ht : cfg.text.Encoded) (hw : Ascii.All (x :: v)) (h : Searching cfg x v s) :
    Concludes cfg s
      (verdictOn [] ((ahead? cfg.text (lazyEnd? (x :: v)) s.position).map fun stop => [stop])) := by
  obtain ⟨hx, hv⟩ := List.forall_mem_cons.mp hw
  -- on what is left of the text
  induction hn : cfg.text.size - s.position using Nat.strong_induction_on generalizing s with
  | _ n ih =>
    rcases Nat.eq_or_lt_of_le h.position_le with hpos | hlt
    · rw [ahead?_of_size_le _ (Nat.le_of_eq hpos.symm), lazyEnd?]
      exact concludes_of_step (h.step_of_size hpos)
    · obtain ⟨c, hc⟩ : ∃ c, cfg.text[s.position]? = some c := ⟨_, Array.getElem?_eq_getElem hlt⟩
      by_cases hxc : x = c
      · subst hxc
        obtain ⟨s', hstep, hnext, hnew, hlast, hposition⟩ := h.step_of_head hc
        have hchar : cfg.text.AtChar (s.position + 1) := ht.atChar_succ hc hx
        rw [Text.charStart_of_atChar hchar] at hposition
        rw [ahead?_succ (g := lenient? v) hc fun l => by rw [lazyEnd?, if_pos rfl], ← hposition]
        exact (leads_of_step hstep).concludes (hnext.concludes ht hv hnew hlast)
      · obtain ⟨s', hstep, hnext, hposition⟩ := h.step_of_other hc hxc
        have hahead := cfg.text.le_charStart (s.position + 1)
        rw [ahead?_lazyEnd?_of_ne hx hc hxc, ← hposition]
        exact (leads_of_step hstep).concludes (ih _ (by omega) hnext rfl)

end Searching

/-! ## 4.  The whole match -/

/-- The machine answers with what is taken for the word. -/
theorem boundariesAt?_of_lazy (ht : t.Encoded) (hw : ∀ b ∈ w, isPlain b = true) (hne : w ≠ [])
    (hp : p ≤ t.size) :
    boundariesAt? (dot :: minus :: w) t p =
      (ahead? t (lazyEnd? w) p).map fun stop => [stop] := by
  obtain ⟨x, v, rfl⟩ := List.exists_cons_of_ne_nil hne
  have hordinary : ∀ b ∈ x :: v, isOrdinary b = true := fun b hb => isOrdinary_of_isPlain (hw b hb)
  have hlast : (dot :: minus :: x :: v).getLast? ≠ some dollar := by
    rw [List.getLast?_cons_cons, List.getLast?_cons_cons]
    intro hdollar
    exact absurd rfl (ne_of_isOrdinary (hordinary _ (List.mem_of_getLast? hdollar))
      (show dollar ∈ magicBytes by decide))
  have hsearching : Searching (settingOf (dot :: minus :: x :: v) t p) x v (atStart 0 p) :=
    { (fresh_atStart 0 p).toIdle with
      free := unanchored_settingOf hlast t p
      source := rfl
      ordinary := hordinary
      cursor := rfl
      position_le := hp
      inverted := rfl
      finished := rfl
      retry := rfl
      closes := rfl }
  have hcaret : Source.byteAt (dot :: minus :: x :: v) 0 ≠ caret := show dot ≠ caret by decide
  exact boundariesAt?_of_concludes (start_of_ne_caret hcaret hp)
    (hsearching.concludes ht fun b hb => lt_of_isPlain (hw b hb))

/-- Behind the first occurrence of its first byte the machine goes on with what is taken for the
rest of the word. -/
theorem boundariesAt?_of_firstAt (ht : t.Encoded) (hw : ∀ b ∈ x :: v, isPlain b = true)
    (hp : p ≤ t.size) (hfirst : FirstAt [x] t p i) :
    boundariesAt? (dot :: minus :: x :: v) t p =
      (lenient? v (t.toList.drop (i + 1))).map fun n => [i + 1 + n] := by
  obtain ⟨pre, l, hsplit, hpre⟩ := List.eq_append_cons_of_mem hfirst.mem
  obtain rfl := hfirst.unique (firstAt_of_append hsplit hpre)
  have hbehind : t.toList.drop (p + pre.length + 1) = l := by
    rw [Nat.add_assoc, ← List.drop_drop, hsplit, ← List.drop_drop, List.drop_left]
    rfl
  rw [boundariesAt?_of_lazy ht hw (List.cons_ne_nil x v) hp, ahead?, hsplit, lazyEnd?_append hpre,
    hbehind, Option.map_map, Option.map_map]
  congr 1
  funext n
  simp only [Function.comp_apply, List.cons.injEq, and_true]
  omega

theorem boundariesAt?_of_not_mem (ht : t.Encoded) (hw : ∀ b ∈ x :: v, isPlain b = true)
    (hp : p ≤ t.size) (hmem : x ∉ t.toList.drop p) :
    boundariesAt? (dot :: minus :: x :: v) t p = none := by
  rw [boundariesAt?_of_lazy ht hw (List.cons_ne_nil x v) hp, ahead?, lazyEnd?_of_not_mem hmem]
  rfl

/-- **A lazy search comes to the first occurrence of the first byte of a word**, and it compares the
word there exactly on the texts in which the rest of the word is read there as it is written. -/
theorem readAsWritten_iff_boundariesAt? (ht : t.Encoded) (hw : ∀ b ∈ x :: v, isPlain b = true)
    (hp : p ≤ t.size) :
    (∀ i, FirstAt [x] t p i → ReadAsWritten v (t.toList.drop (i + 1))) ↔
      ∀ bounds, boundariesAt? (dot :: minus :: x :: v) t p = some bounds ↔
        ∃ i, FirstAt (x :: v) t p i ∧ FirstAt [x] t p i ∧ bounds = [i + (x :: v).length] := by
  by_cases hmem : x ∈ t.toList.drop p
  · obtain ⟨pre, l, hsplit, hpre⟩ := List.eq_append_cons_of_mem hmem
    obtain ⟨i, hfirst⟩ : ∃ i, FirstAt [x] t p i := ⟨_, firstAt_of_append hsplit hpre⟩
    have hanswer : ∀ bounds, boundariesAt? (dot :: minus :: x :: v) t p = some bounds ↔
        ∃ n, TakenFor v (t.toList.drop (i + 1)) n ∧ bounds = [i + 1 + n] := fun bounds => by
      rw [boundariesAt?_of_firstAt ht hw hp hfirst, Option.map_eq_some_iff]
      exact exists_congr fun n => and_congr lenient?_eq_some_iff eq_comm
    have hword : ∀ bounds,
        (∃ j, FirstAt (x :: v) t p j ∧ FirstAt [x] t p j ∧ bounds = [j + (x :: v).length]) ↔
          ∃ n, (v <+: t.toList.drop (i + 1) ∧ n = v.length) ∧ bounds = [i + 1 + n] := by
      intro bounds
      have hlength : i + (x :: v).length = i + 1 + v.length := by
        rw [List.length_cons]
        omega
      constructor
      · rintro ⟨j, hj, hj', rfl⟩
        obtain rfl := hfirst.unique hj'
        exact ⟨_, ⟨hfirst.cons_iff.mp hj, rfl⟩, by rw [hlength]⟩
      · rintro ⟨n, ⟨hstands, rfl⟩, rfl⟩
        exact ⟨i, hfirst.cons_iff.mpr hstands, hfirst, by rw [hlength]⟩
    simp only [hanswer, hword]
    constructor
    · intro h bounds
      exact exists_congr fun n => and_congr_left' (h i hfirst n)
    · intro h j hj n
      obtain rfl := hfirst.unique hj
      simpa using h [i + 1 + n]
  · rw [boundariesAt?_of_not_mem ht hw hp hmem]
    constructor
    · intro _ bounds
      refine iff_of_false (by simp) ?_
      rintro ⟨i, -, hi, -⟩
      exact hmem hi.mem
    · exact fun _ i hi => absurd hi.mem hmem

/-- **A lazy search is tried at one place**, which is where the first byte of the word first stands.
It matches if the word stands there, which then is its first occurrence, and ends behind it. This
holds for every word of one byte. The second byte of a longer one is read with the limits of the
lazy element, and the text has to be one in which they make no difference. -/
theorem boundariesAt?_lazySearch_iff {s : String} (hchar : (Text.ofString s).AtChar p)
    (hw : ∀ b ∈ x :: v, isPlain b = true)
    (hwritten : ∀ i, FirstAt [x] (Text.ofString s) p i →
      ReadAsWritten v ((Text.ofString s).toList.drop (i + 1)))
    (bounds : List Nat) :
    boundariesAt? (dot :: minus :: x :: v) (Text.ofString s) p = some bounds ↔
      ∃ i, FirstAt (x :: v) (Text.ofString s) p i ∧ FirstAt [x] (Text.ofString s) p i ∧
        bounds = [i + (x :: v).length] :=
  (readAsWritten_iff_boundariesAt? (Text.encoded_ofString s) hw hchar.le_size).mp hwritten bounds

theorem boundariesAt?_lazySearch_ab :
    (Text.ofString "éab").AtChar 0 ∧ (∀ b ∈ [0x61, 0x62], isPlain b = true) ∧
      (∀ i, FirstAt [0x61] (Text.ofString "éab") 0 i →
        ReadAsWritten [0x62] ((Text.ofString "éab").toList.drop (i + 1))) ∧
      boundariesAt? [dot, minus, 0x61, 0x62] (Text.ofString "éab") 0 = some [4] := by
  have hchar : (Text.ofString "éab").AtChar 0 := (Text.encoded_ofString "éab").atChar_zero
  have hw : ∀ b ∈ [0x61, 0x62], isPlain b = true := List.all_eq_true.mp rfl
  have hfirst : FirstAt [0x61] (Text.ofString "éab") 0 2 := by decide
  have hwritten : ∀ i, FirstAt [0x61] (Text.ofString "éab") 0 i →
      ReadAsWritten [0x62] ((Text.ofString "éab").toList.drop (i + 1)) := by
    intro i hi
    rw [← hfirst.unique hi]
    decide
  exact ⟨hchar, hw, hwritten, (boundariesAt?_lazySearch_iff hchar hw hwritten [4]).mpr
    ⟨2, by decide, hfirst, rfl⟩⟩

/-- **The pattern `.-abc` does not match at the start of `abxabc`.** The first `a` does not begin
the word, and the search does not go on behind it. -/
theorem not_found_lazy_abc :
    (Text.ofString "abxabc").AtChar 0 ∧ (∀ b ∈ [0x61, 0x62, 0x63], isPlain b = true) ∧
      FirstAt [0x61, 0x62, 0x63] (Text.ofString "abxabc") 0 3 ∧
      boundariesAt? [dot, minus, 0x61, 0x62, 0x63] (Text.ofString "abxabc") 0 = none :=
  ⟨(Text.encoded_ofString "abxabc").atChar_zero, List.all_eq_true.mp rfl, by decide,
    boundariesAt?_of_concludes rfl ⟨5, rfl, rfl⟩⟩

/-! ### Which words are always found -/

/-- A lazy search for a word stops behind the first occurrence on every text, and finds the word if
there is one. -/
def StopsAtFirst (w : List UInt8) : Prop :=
  ∀ (s : String) (p : Nat), (Text.ofString s).AtChar p → ∀ bounds : List Nat,
    boundariesAt? (dot :: minus :: w) (Text.ofString s) p = some bounds ↔
      ∃ i, FirstAt w (Text.ofString s) p i ∧ bounds = [i + w.length]

/-- **Only the search for a single byte stops at the first occurrence on every text.** For any other
word there is a text that is taken for it, and in which it does not occur. -/
theorem stopsAtFirst_iff (hw : ∀ b ∈ w, isPlain b = true) (hne : w ≠ []) :
    StopsAtFirst w ↔ w.length = 1 := by
  constructor
  · intro hfirst
    by_contra hlonger
    have hascii : Ascii.All w := fun b hb => lt_of_isPlain (hw b hb)
    have hpos := List.length_pos_of_ne_nil hne
    obtain ⟨l, hl, hsome, hnone⟩ := exists_lazyEnd? hascii (by omega)
    obtain ⟨s, rfl⟩ := Text.exists_ofString_eq hl
    have ht := Text.encoded_ofString s
    obtain ⟨n, hn⟩ := Option.isSome_iff_exists.mp hsome
    have hfound : boundariesAt? (dot :: minus :: w) (Text.ofString s) 0 = some [0 + n] := by
      rw [boundariesAt?_of_lazy ht hw hne (Nat.zero_le _), ahead?, List.drop_zero, hn]
      rfl
    obtain ⟨i, ⟨-, hstands, -⟩, -⟩ := (hfirst s 0 ht.atChar_zero _).mp hfound
    exact hnone i hstands
  · intro hlength s p hchar bounds
    obtain ⟨x, rfl⟩ := List.length_eq_one_iff.mp hlength
    have hiff := (readAsWritten_iff_boundariesAt? (Text.encoded_ofString s) hw hchar.le_size).mp
      (fun _ _ => readAsWritten_nil _) bounds
    simpa only [and_self_left] using hiff

end LuaPattern
end Linewise
