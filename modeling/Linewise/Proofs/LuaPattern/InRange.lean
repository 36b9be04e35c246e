import Linewise.Proofs.LuaPattern.Bounds
import Linewise.Proofs.LuaPattern.OptionalTail
import Linewise.Proofs.LuaPattern.Trace

/-!
# Every access of a match is in range

The machine is told here once more, with every access that can fail: a byte of the text, a byte of
the pattern, the first bytes of the pattern, and a difference of two numbers. Where one fails,
everything does: each of the functions below answers nothing then. Only the bytes under the cursor
and behind it are read as `0` past the end, and the rest of a pattern behind its end is empty.

## 1.  Accesses

A difference (`difference?`) and the next character start (`charStart?`).

## 2.  The machine

`step?` is one turn, with its readings, its probes and the end of the input, and `matchFor?` are so
many turns of a match. The number of open brackets (`State.brackets`) is lowered where a set closes.

## 3.  What makes a turn safe

`Safe` is the invariant: the positions that are remembered lie in the text, and inside of a set
there is a byte in front of the cursor. Every turn keeps it, and it is all that a turn needs
(`step?_eq`). What stands at the cursor is of no importance, so it may be any byte of any pattern,
or lie behind its end.

## 4.  The whole match

`matchFor?_eq` concludes that no access fails, after however many turns. This does not need the
match to end.
-/

namespace Linewise
namespace LuaPattern

/-! ## 1.  Accesses -/

/-- A difference, if it is not below zero. -/
def difference? (a b : Nat) : Option Nat := if b ≤ a then some (a - b) else none

/-- The first character start at or after `i`, if it is found within `n` bytes. -/
def charStart? (t : Text) : (n i : Nat) → Option Nat
  | 0, i => if i < t.size then none else some i
  | n + 1, i =>
    if i < t.size then do
      let b ← t[i]?
      if Text.isContinuation b then charStart? t n (i + 1) else some i
    else some i

theorem difference?_eq {a b : Nat} (h : b ≤ a) : difference? a b = some (a - b) := if_pos h

theorem charStart?_eq {t : Text} {n i : Nat} (hn : t.size ≤ i + n) :
    charStart? t n i = some (t.charStart i) := by
  induction n generalizing i with
  | zero =>
    have hle : t.size ≤ i := hn
    rw [charStart?, if_neg (Nat.not_lt_of_le hle), Text.charStart, Nat.sub_eq_zero_of_le hle]
    rfl
  | succ n ih =>
    rw [charStart?]
    by_cases hlt : i < t.size
    · have hb : t[i]? = some t[i] := Array.getElem?_eq_getElem hlt
      have hleft : t.size - i = t.size - (i + 1) + 1 := by omega
      rw [if_pos hlt, hb, Text.charStart, hleft, Text.skipContinuation,
        Array.getD_eq_getD_getElem?, hb]
      simp only [Option.bind_eq_bind, Option.bind_some, Option.getD_some]
      split
      · exact ih (by omega)
      · rfl
    · rw [if_neg hlt, Text.charStart, Nat.sub_eq_zero_of_le (Nat.le_of_not_lt hlt)]
      rfl

/-! ## 2.  The machine -/

/-- The number of open brackets. -/
def State.brackets (s : State) : Nat := if s.inSet then 1 else 0

/-- Sets up the machine. -/
def start? (pattern : Source) (text : Text) (offset : Nat) : Option Start := do
  let left ← difference? text.size offset
  let anchored := pattern.byteAt 0 == caret
  if anchored && offset != 0 then some .reject
  else
    let cursor := if anchored then 1 else 0
    let toEnd ←
      if cursor < pattern.length then do
        let last ← difference? pattern.length 1
        let c ← pattern[last]?
        some (c == dollar)
      else some false
    let stop ← if toEnd then difference? pattern.length 1 else some pattern.length
    some <|
      .ready { pattern, text, stop, toEnd, returnLimit := (pattern.length + 1) * (left + 1) }
        (atStart cursor offset)

/-- Reads the byte at the cursor. -/
def readByte? (cfg : Setting) (s : State) : Option Reading :=
  let c := cfg.pattern.byteAt s.cursor
  if c = 0 then some .reject
  else if c = dot then some (finishRead { s with accepts := true, cursor := s.cursor + 1 })
  else if c = openGroup && !s.inSet then some (.skip { s with cursor := s.cursor + 1 })
  else if c = closeGroup && !s.inSet then
    some <| .skip
      { s with
        closes := s.closes ++ [s.position]
        cursor := s.cursor + 1
        elementStart := s.cursor + 1 }
  else if c = openSet && !s.inSet then some (readSetOpening cfg s)
  else if c = closeSet && s.inSet then do
    let brackets ← difference? s.brackets 1
    some (finishRead { s with inSet := brackets != 0, cursor := s.cursor + 1 })
  else do
    let d ← cfg.text[s.position]?
    if c = percent then
      let kind := cfg.pattern.byteAt (s.cursor + 1)
      if kind = 0 then some .reject
      else if Ascii.toLower kind = frontierLetter then
        some (.skip { s with frontier := some (s.cursor, s.position), cursor := s.cursor + 2 })
      else some (finishRead { s with accepts := classAccepts kind d, cursor := s.cursor + 2 })
    else some (finishRead { s with accepts := c == d, cursor := s.cursor + 1 })

/-- One reading. -/
def read? (cfg : Setting) (s : State) : Option Reading := do
  let marked :=
    if cfg.pattern.byteAt s.cursor ≠ closeSet && !s.inSet then { s with elementStart := s.cursor }
    else s
  if s.inSet && s.accepts then
    let ends ← closesSet? cfg s
    if ends then readByte? cfg marked else some (.skip { s with cursor := s.cursor + 1 })
  else readByte? cfg marked

/-- Reads on until an element is complete. -/
def probeFrom? (cfg : Setting) : Nat → State → Option Bool
  | 0, _ => some false
  | n + 1, s =>
    if cfg.stop ≤ s.cursor || s.position = cfg.text.size then some false
    else do
      match ← read? cfg s with
      | .reject => some false
      | .fault => none
      | .skip s => probeFrom? cfg n s
      | .element s => some s.accepts

/-- Whether the first element of a pattern accepts the byte at a position. -/
def probe? (pattern : Source) (text : Text) (offset : Nat) : Option Bool := do
  match ← start? pattern text offset with
  | .reject => some false
  | .fault => none
  | .ready cfg s => probeFrom? cfg (pattern.length + 1) s

/-- Moves to the next character, or to the one at hand. -/
def advance? (cfg : Setting) (s : State) : Option State := do
  let position ←
    charStart? cfg.text cfg.text.size (if s.rewound then s.position else s.position + 1)
  some { s with position, rewound := false }

/-- The input has run out, and no point to return to is left. -/
def exhausted? (cfg : Setting) (s : State) : Option Verdict := do
  match ← Source.optionalTail? cfg.pattern cfg.stop s.cursor s.repeating with
  | none => some .reject
  | some n =>
    some <| conclude cfg
      { s with closes := s.closes ++ List.replicate n s.position, cursor := cfg.stop }

/-- A turn at the end of the input. -/
def atEnd? (cfg : Setting) (s : State) : Option Turn :=
  if s.finished then some (.done (if s.least ≤ s.count then conclude cfg s else .reject))
  else
    match s.retry with
    | none => (exhausted? cfg s).map .done
    | some point =>
      let forgotten := { s with retry := none }
      if s.returns < cfg.returnLimit then
        some <| .next
          { forgotten with
            returns := s.returns + 1
            position := point
            cursor := s.cursor + 1
            repeating := false }
      else (exhausted? cfg forgotten).map .done

/-- Whether the first element of a pattern accepts the byte in front of a position. At the start of
the text there is none. -/
def probeBefore? (pattern : Source) (text : Text) (position : Nat) : Option Bool :=
  if position = 0 then some false
  else do
    let previous ← difference? position 1
    probe? pattern text previous

/-- Tests a pending frontier. -/
def passFrontier? (cfg : Setting) (s : State) : Option Turn :=
  match s.frontier with
  | none => some (.next s)
  | some (place, met) =>
    if s.position = 0 && cfg.pattern.byteAt (place + 3) = caret then some (.done .reject)
    else do
      let set := cfg.pattern.drop (place + 2)
      let before ← probeBefore? set cfg.text s.position
      let here ← probe? set cfg.text s.position
      some <|
        if !before && here then .next { s with frontier := none, position := met, rewound := true }
        else .done .reject

/-- The element accepted and may accept again. -/
def again? (cfg : Setting) (s : State) (greedy : Bool) : Option Turn := do
  let next ← probe? (cfg.pattern.drop s.cursor) cfg.text s.position
  let moved ← advance? cfg <|
    if greedy || !next then
      { s with
        retry := if next then some s.position else s.retry
        cursor := s.elementStart
        repeating := true }
    else { s with cursor := s.cursor + 1, finished := s.cursor + 1 = cfg.stop }
  some (.next moved)

/-- The element is done with. -/
def settle? (cfg : Setting) (s : State) (recent : Bool) : Option Turn :=
  if s.count < s.least || aboveLimit s.count s.most then some (.done .reject)
  else do
    let moved ← if s.count > 0 && recent then advance? cfg s else some s
    some <| .next
      { moved with
        least := 1
        most := some 1
        count := 0
        elementStart := s.cursor
        inverted := false }

/-- Closes the element just read. -/
def close? (cfg : Setting) (s : State) : Option Turn := do
  let recent := s.accepts
  let counted := { s with count := if recent then s.count + 1 else s.count, accepts := false }
  match ← passFrontier? cfg counted with
  | .done verdict => some (.done verdict)
  | .next passed =>
    let (quantified, greedy) := takeQuantifier cfg passed
    let marked := { quantified with finished := quantified.cursor = cfg.stop }
    if recent && belowLimit marked.count marked.most then again? cfg marked greedy
    else settle? cfg marked recent

/-- One turn of the machine. -/
def step? (cfg : Setting) (s : State) : Option Turn :=
  if cfg.stop ≤ s.cursor then some (.done (conclude cfg s))
  else if s.position = cfg.text.size then atEnd? cfg s
  else do
    match ← read? cfg { s with repeating := false } with
    | .reject => some (.done .reject)
    | .fault => none
    | .skip s => some (.next s)
    | .element s => close? cfg s

/-- What has come of a state after `n` turns. -/
def turns (cfg : Setting) : Nat → State → Turn
  | 0, s => .next s
  | n + 1, s =>
    match step cfg s with
    | .done verdict => .done verdict
    | .next s => turns cfg n s

/-- The verdict after some turns. A match that has not ended by then does not match. -/
def Turn.verdict : Turn → Verdict
  | done verdict => verdict
  | next _ => .reject

/-- What has come of a state after `n` turns, if every access was in range. -/
def turns? (cfg : Setting) : Nat → State → Option Turn
  | 0, s => some (.next s)
  | n + 1, s => do
    match ← step? cfg s with
    | .done verdict => some (.done verdict)
    | .next s => turns? cfg n s

/-- What has come of a match after `n` turns. -/
def matchFor (pattern : Source) (text : Text) (offset n : Nat) : Turn :=
  if text.size < offset then .done .reject
  else
    match start pattern text offset with
    | .reject => .done .reject
    | .fault => .done .fault
    | .ready cfg s => turns cfg n s

/-- What has come of a match after `n` turns, if every access was in range. -/
def matchFor? (pattern : Source) (text : Text) (offset n : Nat) : Option Turn :=
  if text.size < offset then some (.done .reject)
  else do
    match ← start? pattern text offset with
    | .reject => some (.done .reject)
    | .fault => none
    | .ready cfg s => turns? cfg n s

/-! ## 3.  What makes a turn safe -/

variable {cfg : Setting} {s s' : State}

/-- The last byte of a pattern is there, if it has one. -/
theorem getElem?_pred_length {pattern : Source} (h : 0 < pattern.length) :
    pattern[pattern.length - 1]? = some (pattern.byteAt (pattern.length - 1)) := by
  have hget : pattern[pattern.length - 1]? = some pattern[pattern.length - 1] :=
    List.getElem?_eq_getElem (Nat.sub_lt h Nat.one_pos)
  rw [Source.byteAt, List.getD_eq_getElem?_getD, hget, Option.getD_some]

theorem start?_eq {pattern : Source} {text : Text} {offset : Nat} (h : offset ≤ text.size) :
    start? pattern text offset = some (start pattern text offset) := by
  rw [start?, start, if_neg (Nat.not_lt_of_le h), difference?_eq h]
  simp only [Option.bind_eq_bind, Option.bind_some]
  split
  · rfl
  · by_cases hlt : (if (pattern.byteAt 0 == caret) = true then 1 else 0) < pattern.length
    · have hpos : 0 < pattern.length := Nat.lt_of_le_of_lt (Nat.zero_le _) hlt
      rw [if_pos hlt, difference?_eq hpos, decide_eq_true hlt, Bool.true_and]
      simp only [Option.bind_some, getElem?_pred_length hpos]
      split <;> rfl
    · rw [if_neg hlt, decide_eq_false hlt, Bool.false_and]
      rfl

theorem start_ne_fault {pattern : Source} {text : Text} {offset : Nat} (h : offset ≤ text.size) :
    start pattern text offset ≠ .fault := by
  rw [start, if_neg (Nat.not_lt_of_le h)]
  dsimp only
  split
  · exact Start.noConfusion
  · exact Start.noConfusion

/-! ### One reading -/

theorem finishRead_ne_fault (s : State) : finishRead s ≠ .fault := by
  rw [finishRead]
  split
  · exact Reading.noConfusion
  · exact Reading.noConfusion

/-- The byte at the cursor is read, wherever the machine stands in front of the end of the text. -/
theorem readByte?_eq (hpos : s.position < cfg.text.size) :
    readByte? cfg s = some (readByte cfg s) ∧ readByte cfg s ≠ .fault := by
  have hd : cfg.text[s.position]? = some cfg.text[s.position] := Array.getElem?_eq_getElem hpos
  rw [readByte?, readByte]
  dsimp only
  split
  · exact ⟨rfl, Reading.noConfusion⟩
  split
  · exact ⟨rfl, finishRead_ne_fault _⟩
  split
  · exact ⟨rfl, Reading.noConfusion⟩
  split
  · exact ⟨rfl, Reading.noConfusion⟩
  split
  · refine ⟨rfl, ?_⟩
    rw [readSetOpening]
    dsimp only
    split
    · exact Reading.noConfusion
    · exact Reading.noConfusion
  split
  · next hclose =>
    have hset : s.inSet = true := (Bool.and_eq_true_iff.mp hclose).2
    refine ⟨?_, finishRead_ne_fault _⟩
    rw [State.brackets, if_pos hset, difference?_eq (Nat.le_refl 1)]
    rfl
  rw [readEscape, readLiteral, hd]
  simp only [Option.bind_eq_bind, Option.bind_some]
  split
  · split
    · exact ⟨rfl, Reading.noConfusion⟩
    · split
      · exact ⟨rfl, Reading.noConfusion⟩
      · exact ⟨rfl, finishRead_ne_fault _⟩
  · exact ⟨rfl, finishRead_ne_fault _⟩

/-- If there is a byte in front of the cursor, it can be asked whether a set ends. -/
theorem exists_closesSet? (cfg : Setting) (h : 0 < s.cursor) :
    ∃ ends, closesSet? cfg s = some ends := by
  rw [closesSet?]
  split
  · cases hcursor : s.cursor with
    | zero => exact absurd hcursor (Nat.ne_of_gt h)
    | succ before => exact ⟨_, rfl⟩
  · exact ⟨_, rfl⟩

/-- **A reading is in range** in front of the end of the text, if inside of a set there is a byte in
front of the cursor. -/
theorem read?_eq (hpos : s.position < cfg.text.size) (hcursor : s.inSet = true → 0 < s.cursor) :
    read? cfg s = some (read cfg s) ∧ read cfg s ≠ .fault := by
  have hmarked : ∀ b : Bool,
      readByte? cfg (if b then { s with elementStart := s.cursor } else s) =
        some (readByte cfg (if b then { s with elementStart := s.cursor } else s)) ∧
      readByte cfg (if b then { s with elementStart := s.cursor } else s) ≠ .fault := by
    intro b
    refine readByte?_eq ?_
    cases b <;> exact hpos
  rw [read?, read]
  split
  · next hmode =>
    have hset : s.inSet = true := (Bool.and_eq_true_iff.mp hmode).1
    obtain ⟨ends, hends⟩ := exists_closesSet? cfg (hcursor hset)
    rw [hends]
    cases ends with
    | true => exact hmarked _
    | false => exact ⟨rfl, Reading.noConfusion⟩
  · exact hmarked _

/-! ### A probe -/

/-- Inside of a set there is a byte in front of the cursor. -/
def InsideSet (s : State) : Prop := s.inSet = true → 0 < s.cursor

theorem InsideSet.skips (h : InsideSet s) (hskip : Skips cfg s s') : InsideSet s' := by
  cases hskip with
  | member b n hset hn => exact fun _ => Nat.lt_of_lt_of_le (h hset) (Nat.le_add_right _ _)
  | openGroup => exact fun _ => Nat.succ_pos _
  | closeGroup => exact fun _ => Nat.succ_pos _
  | openSet inv n hset hn => exact fun _ => Nat.lt_of_lt_of_le hn (Nat.le_add_left _ _)
  | frontier => exact fun _ => Nat.succ_pos _

theorem probeFrom?_eq (hstop : cfg.stop ≤ cfg.pattern.length)
    (hpos : s.position ≤ cfg.text.size) (hinside : InsideSet s) (n : Nat) :
    ∃ b, probeFrom? cfg n s = some b ∧ probeFrom cfg n s = some b := by
  induction n generalizing s with
  | zero => exact ⟨false, rfl, rfl⟩
  | succ n ih =>
    rw [probeFrom?, probeFrom]
    split
    · exact ⟨false, rfl, rfl⟩
    · next hgoes =>
      simp only [Bool.or_eq_true, decide_eq_true_eq, not_or, Nat.not_le] at hgoes
      obtain ⟨hcursor, hend⟩ := hgoes
      obtain ⟨hread?, hfault⟩ := read?_eq (Nat.lt_of_le_of_ne hpos hend) hinside
      rw [hread?]
      simp only [Option.bind_eq_bind, Option.bind_some]
      cases hread : read cfg s with
      | reject => exact ⟨false, rfl, rfl⟩
      | fault => exact absurd hread hfault
      | element e => exact ⟨e.accepts, rfl, rfl⟩
      | skip s' =>
        have hskip := skips_of_read (Nat.lt_of_lt_of_le hcursor hstop) hread
        have hposition : s'.position = s.position := by cases hskip <;> rfl
        exact ih (hposition ▸ hpos) (hinside.skips hskip)

/-- **A probe is in range** at every position of the text, whatever it looks for. -/
theorem probe?_eq (pattern : Source) {t : Text} {p : Nat} (h : p ≤ t.size) :
    ∃ b, probe? pattern t p = some b ∧ probe pattern t p = some b := by
  rw [probe?, probe, start?_eq h]
  simp only [Option.bind_eq_bind, Option.bind_some]
  cases hstart : start pattern t p with
  | reject => exact ⟨false, rfl, rfl⟩
  | fault => exact absurd hstart (start_ne_fault h)
  | ready cfg s =>
    obtain ⟨-, ⟨cursor, rfl, -⟩, rfl, rfl, hstop, -⟩ := start_eq_ready hstart
    exact probeFrom?_eq hstop h (fun hset => absurd hset Bool.false_ne_true) _

/-! ### One turn -/

/-- All that a turn needs to know. -/
structure Safe (cfg : Setting) (s : State) : Prop where
  /-- The pattern stops in range. -/
  stop_le : cfg.stop ≤ cfg.pattern.length
  /-- It stops at its end, or in front of a `$` there. -/
  stopsAtEnd : StopsAtEnd cfg
  /-- What is remembered lies in the text. -/
  inText : InText cfg s
  /-- Inside of a set there is a byte in front of the cursor. -/
  insideSet : InsideSet s

theorem advance?_eq (s : State) : advance? cfg s = some (advance cfg s) := by
  rw [advance?, charStart?_eq (Nat.le_add_left _ _)]
  rfl

theorem conclude_ne_fault (cfg : Setting) (s : State) : conclude cfg s ≠ .fault := by
  rw [conclude]
  split
  · exact Verdict.noConfusion
  · exact Verdict.noConfusion

theorem exhausted?_eq (h : Safe cfg s) (hlt : s.cursor < cfg.stop) :
    exhausted? cfg s = some (exhausted cfg s) ∧ exhausted cfg s ≠ .fault := by
  have htail := Source.optionalTail?_eq h.stop_le h.stopsAtEnd hlt s.repeating
  rw [exhausted?, exhausted, htail, remainder?]
  simp only [Option.bind_eq_bind, Option.bind_some]
  generalize Option.bind (if s.repeating = true then _ else _) Source.tailCloses? = closes?
  cases closes? with
  | none => exact ⟨rfl, Verdict.noConfusion⟩
  | some n => exact ⟨rfl, conclude_ne_fault _ _⟩

/-- A turn that is not a fault is one that goes on or ends with another verdict. -/
theorem done_ne_fault {verdict : Verdict} (h : verdict ≠ .fault) :
    Turn.done verdict ≠ .done .fault :=
  fun heq => h (Turn.done.inj heq)

theorem atEnd?_eq (h : Safe cfg s) (hlt : s.cursor < cfg.stop) :
    atEnd? cfg s = some (atEnd cfg s) ∧ atEnd cfg s ≠ .done .fault := by
  rw [atEnd?, atEnd]
  split
  · refine ⟨rfl, done_ne_fault ?_⟩
    split
    · exact conclude_ne_fault _ _
    · exact Verdict.noConfusion
  · cases hretry : s.retry with
    | none =>
      obtain ⟨hverdict, hfault⟩ := exhausted?_eq h hlt
      exact ⟨by rw [hverdict, Option.map_some], done_ne_fault hfault⟩
    | some point =>
      dsimp only
      split
      · exact ⟨rfl, Turn.noConfusion⟩
      · have hforgotten : Safe cfg { s with retry := none } :=
          ⟨h.stop_le, h.stopsAtEnd,
            ⟨h.inText.position_le, by simp, h.inText.met_le, h.inText.closes_le⟩, h.insideSet⟩
        obtain ⟨hverdict, hfault⟩ := exhausted?_eq hforgotten hlt
        exact ⟨by rw [hverdict, Option.map_some], done_ne_fault hfault⟩

theorem probeBefore?_eq (pattern : Source) {t : Text} {p : Nat} (h : p ≤ t.size) :
    ∃ b, probeBefore? pattern t p = some b ∧
      (if p = 0 then some false else probe pattern t (p - 1)) = some b := by
  rw [probeBefore?]
  split
  · exact ⟨false, rfl, rfl⟩
  · next hzero =>
    rw [difference?_eq (Nat.pos_of_ne_zero hzero)]
    exact probe?_eq pattern (Nat.le_trans (Nat.sub_le p 1) h)

theorem passFrontier?_eq (hpos : s.position ≤ cfg.text.size) :
    passFrontier? cfg s = some (passFrontier cfg s) ∧ passFrontier cfg s ≠ .done .fault := by
  rw [passFrontier?, passFrontier]
  cases hfrontier : s.frontier with
  | none => exact ⟨rfl, Turn.noConfusion⟩
  | some frontier =>
    obtain ⟨place, met⟩ := frontier
    dsimp only
    split
    · exact ⟨rfl, done_ne_fault Verdict.noConfusion⟩
    · obtain ⟨before, hbefore?, hbefore⟩ := probeBefore?_eq (cfg.pattern.drop (place + 2)) hpos
      obtain ⟨here, hhere?, hhere⟩ := probe?_eq (cfg.pattern.drop (place + 2)) hpos
      rw [hbefore?, hbefore, hhere?, hhere]
      refine ⟨rfl, ?_⟩
      dsimp only
      split
      · exact Turn.noConfusion
      · exact done_ne_fault Verdict.noConfusion

theorem again?_eq (hpos : s.position ≤ cfg.text.size) (greedy : Bool) :
    again? cfg s greedy = some (again cfg s greedy) ∧ again cfg s greedy ≠ .done .fault := by
  obtain ⟨next, hnext?, hnext⟩ := probe?_eq (cfg.pattern.drop s.cursor) hpos
  rw [again?, again, hnext?, hnext]
  simp only [Option.bind_eq_bind, Option.bind_some, advance?_eq]
  cases greedy || !next with
  | true => exact ⟨rfl, Turn.noConfusion⟩
  | false => exact ⟨rfl, Turn.noConfusion⟩

theorem settle?_eq (cfg : Setting) (s : State) (recent : Bool) :
    settle? cfg s recent = some (settle cfg s recent) ∧ settle cfg s recent ≠ .done .fault := by
  rw [settle?, settle]
  split
  · exact ⟨rfl, done_ne_fault Verdict.noConfusion⟩
  · dsimp only
    split
    · rw [advance?_eq]
      exact ⟨rfl, Turn.noConfusion⟩
    · exact ⟨rfl, Turn.noConfusion⟩

/-- Closing an element looks ahead from the position, or from where a frontier was met. -/
theorem close?_eq (hpos : s.position ≤ cfg.text.size)
    (hmet : ∀ place met, s.frontier = some (place, met) → met ≤ cfg.text.size) :
    close? cfg s = some (close cfg s) ∧ close cfg s ≠ .done .fault := by
  have hcounted : (tally s).position ≤ cfg.text.size := hpos
  obtain ⟨hpass?, hfault⟩ := passFrontier?_eq hcounted
  rw [tally] at hpass? hfault
  rw [close?, close]
  dsimp only
  rw [hpass?]
  simp only [Option.bind_eq_bind, Option.bind_some]
  cases hpass : passFrontier cfg (tally s) with
  | done verdict =>
    rw [tally] at hpass
    rw [hpass] at hfault ⊢
    exact ⟨rfl, hfault⟩
  | next passed =>
    have hpassed : (quantify cfg passed).position ≤ cfg.text.size := by
      obtain ⟨least, most, n, b, hq, -⟩ := quantify_eq cfg passed
      rw [hq]
      cases passes_of_passFrontier hpass with
      | free => exact hpos
      | held hsome => exact hmet _ _ hsome
    rw [tally] at hpass
    rw [hpass]
    dsimp only
    split
    · exact again?_eq hpassed _
    · exact settle?_eq cfg _ _

/-- **A turn is in range** wherever the machine stands. -/
theorem step?_eq (h : Safe cfg s) :
    step? cfg s = some (step cfg s) ∧ step cfg s ≠ .done .fault := by
  rw [step?, step]
  split
  · exact ⟨rfl, done_ne_fault (conclude_ne_fault _ _)⟩
  · next hcursor =>
    have hlt : s.cursor < cfg.stop := Nat.lt_of_not_le hcursor
    split
    · exact atEnd?_eq h hlt
    · next hend =>
      have hpos : s.position < cfg.text.size := Nat.lt_of_le_of_ne h.inText.position_le hend
      have hs : InText cfg { s with repeating := false } :=
        ⟨h.inText.position_le, h.inText.retry_le, h.inText.met_le, h.inText.closes_le⟩
      obtain ⟨hread?, hfault⟩ := read?_eq (s := { s with repeating := false }) hpos h.insideSet
      rw [hread?]
      simp only [Option.bind_eq_bind, Option.bind_some]
      cases hread : read cfg { s with repeating := false } with
      | reject => exact ⟨rfl, done_ne_fault Verdict.noConfusion⟩
      | fault => exact absurd hread hfault
      | skip s' => exact ⟨rfl, Turn.noConfusion⟩
      | element e =>
        have he : Remembers (· ≤ cfg.text.size) e := (inText_iff.mp hs).completes
          (completes_of_read (Nat.lt_of_lt_of_le hlt h.stop_le) hread)
        exact close?_eq he.position he.met

/-! ### Every turn -/

/-- Closing an element opens no set. -/
theorem inSet_of_closes {e : State} (h : Closes cfg e s') : s'.inSet = e.inSet := by
  have behind : ∀ {p : State}, Passes (tally e) p → (quantify cfg p).inSet = e.inSet := by
    intro p hp
    obtain ⟨least, most, n, b, hq, -⟩ := quantify_eq cfg p
    rw [hq]
    cases hp <;> rfl
  cases h with
  | again hp => exact behind hp
  | giveWay hp => exact behind hp
  | taken hp => exact behind hp
  | left hp => exact behind hp

/-- A set is open only behind its bracket. -/
theorem InsideSet.turns (h : InsideSet s) (hturn : Turns cfg s s') : InsideSet s' := by
  cases hturn with
  | back => exact fun _ => Nat.succ_pos _
  | skip hpos hread hskip => exact InsideSet.skips (s := { s with repeating := false }) h hskip
  | close hpos hread he hclose hcloses =>
    obtain ⟨inSet, accepts, elementStart, n, rfl, rfl, -⟩ := completes_eq he
    exact fun hset => absurd ((inSet_of_closes hcloses).symm.trans hset) Bool.false_ne_true

theorem safe_of_start {pattern : Source} {text : Text} {offset : Nat}
    (h : start pattern text offset = .ready cfg s) : Safe cfg s := by
  have hstops := stopsAtEnd_of_start h
  have hinText := inText_of_start h
  obtain ⟨-, ⟨cursor, rfl, -⟩, rfl, -, hstop, -⟩ := start_eq_ready h
  exact ⟨hstop, hstops, hinText, fun hset => absurd hset Bool.false_ne_true⟩

/-- **Every turn keeps what makes a turn safe.** -/
theorem Safe.step (h : Safe cfg s) (hstep : step cfg s = .next s') : Safe cfg s' :=
  have hturn := turns_of_step h.stop_le hstep
  ⟨h.stop_le, h.stopsAtEnd, inText_of_turns h.inText hturn, h.insideSet.turns hturn⟩

/-! ## 4.  The whole match -/

theorem turns?_eq (h : Safe cfg s) (n : Nat) :
    turns? cfg n s = some (turns cfg n s) ∧ turns cfg n s ≠ .done .fault := by
  induction n generalizing s with
  | zero => exact ⟨rfl, Turn.noConfusion⟩
  | succ n ih =>
    obtain ⟨hstep?, hfault⟩ := step?_eq h
    rw [turns?, turns, hstep?]
    simp only [Option.bind_eq_bind, Option.bind_some]
    cases hstep : LuaPattern.step cfg s with
    | next s' => exact ih (h.step hstep)
    | done verdict =>
      rw [hstep] at hfault
      exact ⟨rfl, hfault⟩

theorem run_eq_turns (cfg : Setting) (n : Nat) (s : State) :
    run cfg n s = (turns cfg n s).verdict := by
  induction n generalizing s with
  | zero => rfl
  | succ n ih =>
    rw [run, turns]
    cases LuaPattern.step cfg s with
    | next s' => exact ih s'
    | done verdict => rfl

/-- The verdict on a match is what has come of it after the turns that it is given. -/
theorem verdictAt_eq_matchFor (pattern : Source) (text : Text) (offset : Nat) :
    verdictAt pattern text offset =
      (matchFor pattern text offset (turnLimit pattern text)).verdict := by
  by_cases hle : text.size < offset
  · rw [verdictAt, matchFor, if_pos hle, if_pos hle, Turn.verdict]
  · rw [verdictAt, matchFor, if_neg hle, if_neg hle]
    cases start pattern text offset with
    | reject => rfl
    | fault => rfl
    | ready cfg s => exact run_eq_turns cfg _ s

/-- **No access of a match is ever out of range**, and no number falls below zero: whatever the
bytes of the pattern and of the text are, wherever the match begins, and however many turns it
takes. Told with its accesses, it comes to the same after each number of turns, and in particular to
the same verdict, which is no fault. -/
theorem matchFor?_eq (pattern : Source) (text : Text) (offset : Nat) :
    (∀ n, matchFor? pattern text offset n = some (matchFor pattern text offset n) ∧
        matchFor pattern text offset n ≠ .done .fault) ∧
      verdictAt pattern text offset ≠ .fault := by
  have hmatch : ∀ n, matchFor? pattern text offset n = some (matchFor pattern text offset n) ∧
      matchFor pattern text offset n ≠ .done .fault := by
    intro n
    rw [matchFor?, matchFor]
    split
    · exact ⟨rfl, done_ne_fault Verdict.noConfusion⟩
    · next hle =>
      have hoffset : offset ≤ text.size := Nat.le_of_not_lt hle
      rw [start?_eq hoffset]
      simp only [Option.bind_eq_bind, Option.bind_some]
      cases hstart : start pattern text offset with
      | reject => exact ⟨rfl, done_ne_fault Verdict.noConfusion⟩
      | fault => exact absurd hstart (start_ne_fault hoffset)
      | ready cfg s => exact turns?_eq (safe_of_start hstart) n
  refine ⟨hmatch, ?_⟩
  have hfault := (hmatch (turnLimit pattern text)).2
  rw [verdictAt_eq_matchFor]
  cases hturn : matchFor pattern text offset (turnLimit pattern text) with
  | next s => exact Verdict.noConfusion
  | done verdict => exact fun heq => hfault (hturn.trans (congrArg Turn.done heq))

end LuaPattern
end Linewise
