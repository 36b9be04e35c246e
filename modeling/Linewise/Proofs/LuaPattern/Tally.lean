import Linewise.Proofs.LuaPattern.Circling
import Linewise.Proofs.LuaPattern.CloseCount

/-!
# What a match has closed, and what it owes

A pattern announces how many captures it closes, and the number is taken from its bytes alone. A
match closes the same number as long as it reads the bytes in the way in which they are counted.

## 1.  Going straight

There are three ways to stray from that, and a state in which a match does none of it is `Straight`:
to pass over a byte that the count depends on, on the way back to the remembered point or where a
lazy element gives way to its successor; to go back to a point in front of a capture that has been
closed already; and to stay in a set that the count takes to end at the byte at hand.

## 2.  What is owed

The captures that are closed so far, and those that are counted from the cursor on, are together the
captures of the pattern. This holds at the cursor, and at the start of the element, from which the
element may be repeated (`Tallied`).

## 3.  One turn

Every turn of a match that goes straight keeps the tally (`Tallied.turns`). The turns that read go
by the bytes that they take, and those that close an element do not change what is owed, unless they
pass over a byte.

## 4.  The beginning and the end

A match begins with everything owed, and where the rest of the pattern is optional, what it closes
is what is owed (`Tallied.length_add_of_remainder?`).
-/

namespace Linewise
namespace LuaPattern

variable {cfg : Setting} {s s' : State}

/-! ## 1.  Going straight -/

/-- The point to which the turn at a state goes back, if it does. -/
def returnPoint? (cfg : Setting) (s : State) : Option Nat :=
  if s.cursor < cfg.stop && s.position == cfg.text.size && !s.finished &&
    decide (s.returns < cfg.returnLimit)
  then s.retry else none

/-- Where the element that the turn at a state reads gives way to its successor, if it does: the
place of the byte that is passed over. -/
def giveWay? (cfg : Setting) (s : State) : Option Nat :=
  if s.cursor < cfg.stop && s.position != cfg.text.size then
    match read cfg { s with repeating := false } with
    | .element e =>
      match passFrontier cfg (tally e) with
      | .next p =>
        let q := quantify cfg p
        if e.accepts && belowLimit q.count q.most && !(takeQuantifier cfg p).2 &&
          probe (cfg.pattern.drop q.cursor) cfg.text q.position == some true
        then some q.cursor else none
      | .done _ => none
    | _ => none
  else none

/-- The turn at a state reads the pattern as it is counted, and goes back behind no capture. -/
structure Straight (cfg : Setting) (s : State) : Prop where
  /-- On the way back, no mark is passed over, and no capture was closed behind the point. -/
  back : ∀ point ∈ returnPoint? cfg s,
    Source.isMark (cfg.pattern.byteAt s.cursor) = false ∧ ∀ close ∈ s.closes, close ≤ point
  /-- Where a lazy element gives way, no mark is passed over. -/
  giveWay : ∀ i ∈ giveWay? cfg s, Source.isMark (cfg.pattern.byteAt i) = false
  /-- In a set of which a member has accepted, a `]` that does not end the set is escaped. -/
  setEnd : s.inSet = true → s.accepts = true → cfg.pattern.byteAt s.cursor = closeSet →
    closesSet? cfg s = some false → cfg.pattern.isEscaped s.cursor = true

instance (cfg : Setting) (s : State) : Decidable (Straight cfg s) :=
  decidable_of_iff
    ((∀ point ∈ returnPoint? cfg s,
        Source.isMark (cfg.pattern.byteAt s.cursor) = false ∧ ∀ close ∈ s.closes, close ≤ point) ∧
      (∀ i ∈ giveWay? cfg s, Source.isMark (cfg.pattern.byteAt i) = false) ∧
      (s.inSet = true → s.accepts = true → cfg.pattern.byteAt s.cursor = closeSet →
        closesSet? cfg s = some false → cfg.pattern.isEscaped s.cursor = true))
    ⟨fun h => ⟨h.1, h.2.1, h.2.2⟩, fun h => ⟨h.back, h.giveWay, h.setEnd⟩⟩

theorem returnPoint?_eq {point : Nat} (hlt : s.cursor < cfg.stop)
    (hpos : s.position = cfg.text.size) (hfinished : s.finished = false)
    (hreturns : s.returns < cfg.returnLimit) (hretry : s.retry = some point) :
    returnPoint? cfg s = some point := by
  rw [returnPoint?, if_pos (by simp [hlt, hpos, hfinished, hreturns]), hretry]

theorem giveWay?_eq {e p : State} (hlt : s.cursor < cfg.stop) (hpos : s.position ≠ cfg.text.size)
    (hread : read cfg { s with repeating := false } = .element e)
    (hpass : passFrontier cfg (tally e) = .next p) (hacc : e.accepts = true)
    (hlimit : belowLimit (quantify cfg p).count (quantify cfg p).most = true)
    (hlazy : (takeQuantifier cfg p).2 = false)
    (hnext : probe (cfg.pattern.drop (quantify cfg p).cursor) cfg.text (quantify cfg p).position =
      some true) :
    giveWay? cfg s = some (quantify cfg p).cursor := by
  rw [giveWay?, if_pos (by simp [hlt, hpos]), hread]
  dsimp only
  rw [hpass]
  dsimp only
  rw [if_pos (by simp [hacc, hlimit, hlazy, hnext])]

/-! ## 2.  What is owed -/

/-- Outside of sets, the captures that are closed so far and those from a place on are all captures
of the pattern. -/
structure Owes (p : Source) (closes : List Nat) (i : Nat) : Prop where
  /-- The byte at the place is not escaped. -/
  escaped : p.isEscaped i = false
  /-- Nothing is left out or counted twice. -/
  closed : closes.length + p.closesFrom false i = p.closeCount

section

variable {p : Source} {closes : List Nat} {i : Nat}

theorem Owes.single (h : Owes p closes i) (hlt : i < p.length) (hpercent : p.byteAt i ≠ percent)
    (hopen : p.byteAt i ≠ openSet) (hgroup : p.byteAt i ≠ closeGroup) : Owes p closes (i + 1) where
  escaped := Source.isEscaped_succ_of_ne hpercent
  closed := by rw [← Source.closesFrom_single hlt h.escaped hopen hgroup, h.closed]

theorem Owes.escape (h : Owes p closes i) (hlt : i + 1 < p.length) (hat : p.byteAt i = percent) :
    Owes p closes (i + 2) where
  escaped := Source.isEscaped_add_two h.escaped hat
  closed := by rw [← Source.closesFrom_escape hlt h.escaped hat, h.closed]

theorem Owes.closeGroup (h : Owes p closes i) (hat : p.byteAt i = closeGroup) (b : Nat) :
    Owes p (closes ++ [b]) (i + 1) where
  escaped := Source.isEscaped_succ_of_ne (by rw [hat]; decide)
  closed := by
    have hclosed := h.closed
    rw [Source.closesFrom_closeGroup h.escaped hat] at hclosed
    rw [List.length_append, List.length_singleton]
    omega

/-- Behind a bracket, and behind the `^` that inverts the set, the count goes on inside of it. -/
theorem Owes.openSet {n : Nat} (h : Owes p closes i)
    (hat : p.byteAt i = LuaPattern.openSet) (hbytes : n = 1 ∨ n = 2 ∧ p.byteAt (i + 1) = caret) :
    closes.length + p.closesFrom true (i + n) = p.closeCount ∧ p.isEscaped (i + n) = false := by
  have hopen : closes.length + p.closesFrom true (i + 1) = p.closeCount := by
    rw [← Source.closesFrom_openSet h.escaped hat, h.closed]
  have hescaped : p.isEscaped (i + 1) = false :=
    Source.isEscaped_succ_of_ne (by rw [hat]; decide)
  rcases hbytes with rfl | ⟨rfl, hcaret⟩
  · exact ⟨hopen, hescaped⟩
  · have hlt : i + 1 < p.length := Source.lt_length_of_byteAt_ne (by rw [hcaret]; decide)
    refine ⟨?_, Source.isEscaped_succ_of_ne (by rw [hcaret]; decide)⟩
    rw [← hopen, Source.closesFrom_member hlt hescaped (by rw [hcaret]; decide)]

/-- A byte that is no mark may be passed over. -/
theorem Owes.passOver (h : Owes p closes i)
    (hlt : i < p.length) (hmark : Source.isMark (p.byteAt i) = false) : Owes p closes (i + 1) := by
  obtain ⟨hpercent, hopen, hgroup⟩ := Source.isMark_eq_false_iff.mp hmark
  exact h.single hlt hpercent hopen hgroup

end

/-- Behind the last element, nothing is owed. -/
theorem Owes.length_of_stop {closes : List Nat} {i : Nat} (h : Owes cfg.pattern closes i)
    (hends : StopsAtEnd cfg) (hle : cfg.stop ≤ i) : closes.length = cfg.pattern.closeCount := by
  rw [← h.closed, closesFrom_of_stop_le hends hle, Nat.add_zero]

/-- What a match has closed so far fits what it has not read yet. -/
structure Tallied (cfg : Setting) (s : State) : Prop where
  /-- Outside of a set. -/
  outside : s.inSet = false → Owes cfg.pattern s.closes s.cursor
  /-- Inside of a set. -/
  inside : s.inSet = true →
    s.closes.length + cfg.pattern.closesFrom true s.cursor = cfg.pattern.closeCount
  /-- A byte that is read is not escaped. -/
  escaped : s.accepts = false → cfg.pattern.isEscaped s.cursor = false
  /-- Where the element begins. -/
  start : Owes cfg.pattern s.closes s.elementStart
  /-- The element does not begin with the end of a capture, unless this is still to be read. -/
  start_eq : cfg.pattern.byteAt s.elementStart = closeGroup →
    s.elementStart = s.cursor ∧ s.inSet = false
  /-- Behind the last element, nothing is owed. -/
  finished : s.finished = true → s.closes.length = cfg.pattern.closeCount
  /-- An element that is repeated does not begin with the end of a capture. -/
  repeating : s.repeating = true → cfg.pattern.byteAt s.cursor ≠ closeGroup

theorem Tallied.closed (h : Tallied cfg s) :
    s.closes.length + cfg.pattern.closesFrom s.inSet s.cursor = cfg.pattern.closeCount := by
  cases hset : s.inSet with
  | false => exact (h.outside hset).closed
  | true => exact h.inside hset

/-- Outside of sets, the tally is what is owed at the cursor and at the start of the element. -/
theorem Tallied.of_owes (hset : s.inSet = false) (hhere : Owes cfg.pattern s.closes s.cursor)
    (hstart : Owes cfg.pattern s.closes s.elementStart)
    (hgroup : cfg.pattern.byteAt s.elementStart = closeGroup → s.elementStart = s.cursor)
    (hfinished : s.finished = true → s.closes.length = cfg.pattern.closeCount)
    (hrepeating : s.repeating = true → cfg.pattern.byteAt s.cursor ≠ closeGroup) :
    Tallied cfg s where
  outside _ := hhere
  inside hin := absurd (hset.symm.trans hin) (by decide)
  escaped _ := hhere.escaped
  start := hstart
  start_eq hat := ⟨hgroup hat, hset⟩
  finished := hfinished
  repeating := hrepeating

/-! ## 3.  One turn -/

/-- What one reading takes of a set does not change what is owed. -/
theorem Tallied.takesMember {b : Bool} {n : Nat} (h : Tallied cfg s) (hs : Straight cfg s)
    (hset : s.inSet = true) (hle : s.cursor + n ≤ cfg.pattern.length)
    (htakes : TakesMember cfg { s with repeating := false } b n) :
    cfg.pattern.closesFrom true s.cursor = cfg.pattern.closesFrom true (s.cursor + n) ∧
      (b = false → cfg.pattern.isEscaped (s.cursor + n) = false) := by
  cases htakes with
  | passed hacc hends =>
    refine ⟨?_, fun hfalse => absurd (hacc.symm.trans hfalse) (by decide)⟩
    cases hescaped : cfg.pattern.isEscaped s.cursor with
    | true => exact Source.closesFrom_of_isEscaped hle hescaped
    | false =>
      refine Source.closesFrom_member hle hescaped fun hat => ?_
      exact absurd ((hs.setEnd hset hacc hat hends).symm.trans hescaped) (by decide)
  | byte _ hacc hpercent hclose =>
    exact ⟨Source.closesFrom_member hle (h.escaped hacc) hclose,
      fun _ => Source.isEscaped_succ_of_ne hpercent⟩
  | escape _ hacc hat =>
    exact ⟨Source.closesFrom_escape hle (h.escaped hacc) hat,
      fun _ => Source.isEscaped_add_two (h.escaped hacc) hat⟩

/-- **A reading that goes on keeps the tally.** -/
theorem Tallied.skips (h : Tallied cfg s) (hs : Straight cfg s) (hr : Rereads cfg s)
    (hskip : Skips cfg { s with repeating := false } s') : Tallied cfg s' := by
  cases hskip with
  | member b n hset _ hle htakes =>
    obtain ⟨hclosed, hescaped⟩ := h.takesMember hs hset hle htakes
    refine ⟨fun hout => absurd (hset.symm.trans hout) (by decide), fun _ => ?_, hescaped, h.start,
      fun hat => ?_, h.finished, nofun⟩
    · exact hclosed ▸ h.inside hset
    · exact absurd (hset.symm.trans (h.start_eq hat).2) (by decide)
  | openGroup hset hle hat =>
    have hhere : Owes cfg.pattern s.closes s.cursor := h.outside hset
    have hnext := hhere.single hle (by rw [hat]; decide) (by rw [hat]; decide)
      (by rw [hat]; decide)
    refine ⟨fun _ => hnext, fun hin => absurd (hset.symm.trans hin) (by decide),
      fun _ => hnext.escaped, hhere, fun hgroup => ?_, h.finished, nofun⟩
    exact absurd (hat.symm.trans hgroup) (by decide)
  | closeGroup hset hle hat =>
    have hnext := (h.outside hset).closeGroup hat s.position
    refine ⟨fun _ => hnext, fun hin => absurd (hset.symm.trans hin) (by decide),
      fun _ => hnext.escaped, hnext, fun _ => ⟨rfl, hset⟩, fun hfinished => ?_, nofun⟩
    -- one capture is still owed, so the last element has not been read
    have howes := (h.outside hset).closed
    rw [Source.closesFrom_closeGroup (h.outside hset).escaped hat, h.finished hfinished] at howes
    omega
  | openSet inv n hset _ _ hle hat hbytes =>
    have hhere : Owes cfg.pattern s.closes s.cursor := h.outside hset
    obtain ⟨hclosed, hescaped⟩ := hhere.openSet hat hbytes
    refine ⟨nofun, fun _ => hclosed, fun _ => hescaped, hhere, fun hgroup => ?_, h.finished, nofun⟩
    exact absurd (hat.symm.trans hgroup) (by decide)
  | frontier hle hat _ hacc =>
    have hescaped : cfg.pattern.isEscaped s.cursor = false := by
      refine h.escaped ?_
      cases hset : s.inSet with
      | false => exact hr.accepts hset
      | true => exact hacc hset
    refine ⟨fun hset => (h.outside hset).escape hle hat, fun hset => ?_, fun _ => ?_, ?_, ?_,
      h.finished, nofun⟩
    · exact Source.closesFrom_escape hle hescaped hat ▸ h.inside hset
    · exact Source.isEscaped_add_two hescaped hat
    · show Owes cfg.pattern s.closes (if s.inSet then s.elementStart else s.cursor)
      split
      · exact h.start
      · next hset => exact h.outside (Bool.eq_false_iff.mpr hset)
    · show cfg.pattern.byteAt (if s.inSet then s.elementStart else s.cursor) = closeGroup → _
      split
      · next hset =>
        intro hgroup
        exact absurd (hset.symm.trans (h.start_eq hgroup).2) (by decide)
      · intro hgroup
        exact absurd (hat.symm.trans hgroup) (by decide)

/-- An element has been read, and is tallied. -/
structure TalliedElement (cfg : Setting) (e : State) : Prop where
  /-- It is no set that is still open. -/
  inSet : e.inSet = false
  /-- It has just been read. -/
  repeating : e.repeating = false
  /-- Behind the element. -/
  outside : Owes cfg.pattern e.closes e.cursor
  /-- In front of it. -/
  start : Owes cfg.pattern e.closes e.elementStart
  /-- It does not begin with the end of a capture. -/
  start_ne : cfg.pattern.byteAt e.elementStart ≠ closeGroup

/-- **A reading that completes an element keeps the tally.** -/
theorem Tallied.completes {e : State} (h : Tallied cfg s)
    (he : Completes cfg { s with repeating := false } e) : TalliedElement cfg e := by
  cases he with
  | set b hset hle hat hends =>
    have hescaped : cfg.pattern.isEscaped s.cursor = false := by
      cases hacc : s.accepts with
      | false => exact h.escaped hacc
      | true =>
        obtain ⟨-, before, hcursor, hpercent⟩ := byteAt_of_closesSet? (hends hacc)
        rw [show s.cursor = before + 1 from hcursor]
        exact Source.isEscaped_succ_of_ne hpercent
    refine ⟨rfl, rfl, ⟨Source.isEscaped_succ_of_ne ?_, ?_⟩, h.start, fun hgroup => ?_⟩
    · rw [show cfg.pattern.byteAt s.cursor = closeSet from hat]
      decide
    · exact Source.closesFrom_closeSet hescaped hat ▸ h.inside hset
    · exact absurd (hset.symm.trans (h.start_eq hgroup).2) (by decide)
  | bracket b hset hle hat =>
    have hnext := (h.outside hset).single hle (by rw [hat]; decide) (by rw [hat]; decide)
      (by rw [hat]; decide)
    refine ⟨hset, rfl, hnext, h.start, fun hgroup => ?_⟩
    -- the byte at hand is no end of a capture, so the element does not begin with it
    have hstart := (h.start_eq hgroup).1
    rw [hstart] at hgroup
    exact absurd (hat.symm.trans hgroup) (by decide)
  | single b n hset _ hle hclose htakes =>
    have hhere : Owes cfg.pattern s.closes s.cursor := h.outside hset
    cases htakes with
    | byte hpercent hopen hgroup =>
      exact ⟨hset, rfl, hhere.single hle hpercent hopen hgroup, hhere, hgroup⟩
    | escape hat =>
      refine ⟨hset, rfl, hhere.escape hle hat, hhere, fun hgroup => ?_⟩
      exact absurd (hat.symm.trans hgroup) (by decide)

/-- A quantifier is passed over, or there is none. -/
theorem cursor_takeQuantifier (cfg : Setting) (s : State) :
    (takeQuantifier cfg s).1.cursor = s.cursor ∨
      (takeQuantifier cfg s).1.cursor = s.cursor + 1 ∧
        Source.isQuantifier (cfg.pattern.byteAt s.cursor) = true := by
  have quantifier : ∀ {q : UInt8}, cfg.pattern.byteAt s.cursor = q → Source.isQuantifier q = true →
      Source.isQuantifier (cfg.pattern.byteAt s.cursor) = true := fun hat hq => hat ▸ hq
  unfold takeQuantifier
  dsimp only
  split
  · next hat => exact Or.inr ⟨rfl, quantifier hat rfl⟩
  · split
    · next hat => exact Or.inr ⟨rfl, quantifier hat rfl⟩
    · split
      · next hat => exact Or.inr ⟨rfl, quantifier hat rfl⟩
      · split
        · next hat => exact Or.inr ⟨rfl, quantifier hat rfl⟩
        · exact Or.inl rfl

/-- Behind the frontier and the quantifier, the element is tallied as well. -/
theorem TalliedElement.behind {e p : State} (h : TalliedElement cfg e) (hp : Passes (tally e) p) :
    TalliedElement cfg (quantify cfg p) := by
  have hpassed : TalliedElement cfg p := by
    cases hp with
    | free => exact ⟨h.inSet, h.repeating, h.outside, h.start, h.start_ne⟩
    | held => exact ⟨h.inSet, h.repeating, h.outside, h.start, h.start_ne⟩
  obtain ⟨least, most, n, hq, -, hn⟩ := takeQuantifier_eq cfg p
  have hcursor := cursor_takeQuantifier cfg p
  rw [hq] at hcursor
  rw [quantify, hq]
  refine ⟨hpassed.inSet, hpassed.repeating, ?_, hpassed.start, hpassed.start_ne⟩
  rcases hn with rfl | ⟨rfl, hlt⟩
  · exact hpassed.outside
  · rcases hcursor with hsame | ⟨-, hquantifier⟩
    · exact absurd hsame (Nat.succ_ne_self _)
    · exact hpassed.outside.passOver hlt (Source.isMark_of_isQuantifier hquantifier)

/-- **Closing an element keeps the tally.** -/
theorem TalliedElement.closes {e : State} (h : TalliedElement cfg e) (hends : StopsAtEnd cfg)
    (hs : Straight cfg s) (hlt : s.cursor < cfg.stop) (hpos : s.position ≠ cfg.text.size)
    (hread : read cfg { s with repeating := false } = .element e) (hclose : Closes cfg e s') :
    Tallied cfg s' := by
  have atEnd : ∀ {p}, Passes (tally e) p → (quantify cfg p).finished = true →
      (quantify cfg p).closes.length = cfg.pattern.closeCount := by
    intro p hp hfinished
    have hcursor : (quantify cfg p).cursor = cfg.stop := of_decide_eq_true hfinished
    exact (h.behind hp).outside.length_of_stop hends (Nat.le_of_eq hcursor.symm)
  -- an element that is not repeated is followed by one that has not been read
  have fresh : ∀ {p} {P : Prop}, Passes (tally e) p → (quantify cfg p).repeating = true → P :=
    fun hp hrepeating => absurd ((h.behind hp).repeating.symm.trans hrepeating) (by decide)
  cases hclose with
  | again hp =>
    have hb := h.behind hp
    exact .of_owes hb.inSet hb.start hb.start (fun _ => rfl) (atEnd hp) fun _ => hb.start_ne
  | @giveWay p hp hacc _ hpass hlimit hlazy hnext =>
    have hb := h.behind hp
    have hway := giveWay?_eq hlt hpos hread hpass hacc hlimit hlazy hnext
    have hover := hb.outside.passOver ‹_› (hs.giveWay _ hway)
    refine .of_owes hb.inSet hover hb.start (fun hat => absurd hat hb.start_ne) ?_ (fresh hp)
    intro hfinished
    have hcursor : (quantify cfg p).cursor + 1 = cfg.stop := of_decide_eq_true hfinished
    exact hover.length_of_stop hends (Nat.le_of_eq hcursor.symm)
  | taken hp =>
    have hb := h.behind hp
    exact .of_owes hb.inSet hb.outside hb.outside (fun _ => rfl) (atEnd hp) (fresh hp)
  | left hp =>
    have hb := h.behind hp
    exact .of_owes hb.inSet hb.outside hb.outside (fun _ => rfl) (atEnd hp) (fresh hp)

/-- **Every turn of a match that goes straight keeps the tally.** -/
theorem Tallied.turns (h : Tallied cfg s) (hends : StopsAtEnd cfg) (hs : Straight cfg s)
    (hr : Rereads cfg s) (hstop : cfg.stop ≤ cfg.pattern.length) (hlt : s.cursor < cfg.stop)
    (hturn : Turns cfg s s') : Tallied cfg s' := by
  cases hturn with
  | back hpos hretry hreturns hfinished =>
    have hset : s.inSet = false := hr.inSet_eq_false hpos
    obtain ⟨hmark, -⟩ := hs.back _ (returnPoint?_eq hlt hpos hfinished hreturns hretry)
    have hover := (h.outside hset).passOver (Nat.lt_of_lt_of_le hlt hstop) hmark
    refine .of_owes hset hover h.start (fun hgroup => ?_) h.finished nofun
    -- the end of a capture would have been passed over
    obtain ⟨-, -, hne⟩ := Source.isMark_eq_false_iff.mp hmark
    rw [show s.elementStart = s.cursor from (h.start_eq hgroup).1] at hgroup
    exact absurd hgroup hne
  | skip hpos hread hskip => exact h.skips hs hr hskip
  | close hpos hread he hclosed hclose =>
    exact (h.completes he).closes hends hs hlt hpos hread hclose

/-! ## 4.  The beginning and the end -/

/-- A match begins with everything owed. -/
theorem tallied_of_start {pattern : Source} {text : Text} {offset : Nat}
    (h : start pattern text offset = .ready cfg s) : Tallied cfg s := by
  have hfirst : Owes pattern [] 0 := ⟨rfl, by rw [Source.closesFrom_zero]; exact Nat.zero_add _⟩
  unfold start at h
  split at h
  · cases h
  · dsimp only at h
    split at h
    · cases h
    · cases h
      by_cases hcaret : (pattern.byteAt 0 == caret) = true
      · have hat : pattern.byteAt 0 = caret := beq_iff_eq.mp hcaret
        have hlt : 0 < pattern.length := Source.lt_length_of_byteAt_ne (by rw [hat]; decide)
        have hnext := hfirst.passOver hlt (by rw [hat]; decide)
        rw [if_pos hcaret]
        exact .of_owes rfl hnext hfirst (fun hgroup => absurd (hat.symm.trans hgroup) (by decide))
          nofun nofun
      · rw [if_neg hcaret]
        exact .of_owes rfl hfirst hfirst (fun _ => rfl) nofun nofun

/-- What is left of the pattern at the end of the input closes the captures that are owed. -/
theorem Tallied.length_add_of_remainder? {rest : Source} {n : Nat} (h : Tallied cfg s)
    (hends : StopsAtEnd cfg) (hset : s.inSet = false) (hstop : cfg.stop ≤ cfg.pattern.length)
    (hlt : s.cursor < cfg.stop) (hrest : remainder? cfg s = some rest)
    (hn : rest.tailCloses? = some n) : s.closes.length + n = cfg.pattern.closeCount := by
  have howes := h.outside hset
  have hcount : Source.countCloses false false ((cfg.pattern.take cfg.stop).drop s.cursor) =
      rest.closeCount := by
    unfold remainder? at hrest
    dsimp only at hrest
    split at hrest
    · next hrepeating =>
      -- the element that repeats is left out, and does not begin with the end of a capture
      have hlength : s.cursor < (cfg.pattern.take cfg.stop).length := by
        rw [List.length_take]
        omega
      have hbyte : Source.byteAt (cfg.pattern.take cfg.stop) s.cursor =
          cfg.pattern.byteAt s.cursor := by
        rw [Source.byteAt, Source.byteAt, List.getD_eq_getElem?_getD, List.getD_eq_getElem?_getD,
          List.getElem?_take_of_lt hlt]
      rw [Source.drop_eq_cons_byteAt hlength, hbyte] at hrest ⊢
      exact Source.countCloses_of_afterElement? (h.repeating hrepeating) hrest
    · cases hrest
      rfl
  rw [← howes.closed, closesFrom_eq_countCloses hends (Nat.le_of_lt hlt) howes.escaped, hcount,
    Source.countCloses_of_tailCloses? hn]

end LuaPattern
end Linewise
