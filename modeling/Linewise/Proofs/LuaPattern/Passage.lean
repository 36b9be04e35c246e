import Linewise.Proofs.LuaPattern.Exhaustion
import Linewise.Proofs.LuaPattern.Spelling

/-!
# How the machine passes an element

Between two parts of a template the machine *rests* (`Rests`): nothing is pending, and the bytes in
front of the cursor are those of the parts that are left. An element that repeats brings it back to
its own start (`Again`), with a count, and perhaps with a point to remember.

## 1.  Where the machine stands

`Facing` says what stands in front of the machine, `Idle` and `Fresh` that nothing is pending. An
element begins the same way from `Rests` and from `Again`; what both have in common is `Begun`.

## 2.  Closing an element

Once its atom is read and its quantifier taken, there are four ways on: the element is repeated
(`Begun.leads_again`), it is done with and has taken the character (`Rests.leads_taken`) or has not
(`Begun.leads_left`), or the match ends (`Rests.rejects`).

## 3.  Repeating an element

By induction on what is left of the text, an element that repeats comes to where its atom stops
(`Again.leads_stop`). That is also where the element leaves the text (`Rests.outcome_element`),
except that at the end of the text the machine is not behind the element, but back at its start.
-/

namespace Linewise
namespace LuaPattern

variable {cfg : Setting} {s s' : State} {items rest : List Item} {a : Atom} {q : Quantifier}
  {c : UInt8}

/-! ## 1.  Where the machine stands -/

/-- The cursor stands in front of some parts of a template, and the position in front of a
character. -/
structure Facing (cfg : Setting) (items : List Item) (s : State) : Prop where
  /-- The parts lie in the pattern. -/
  stop_le : cfg.stop ≤ cfg.pattern.length
  /-- The machine may go back once for each byte of it. -/
  length_lt : cfg.pattern.length < cfg.returnLimit
  /-- The bytes of the parts stand at the cursor. -/
  source : cfg.pattern.drop s.cursor = sourceOf items ++ anchorTail cfg.toEnd
  /-- They end where the pattern does. -/
  stop_eq : s.cursor + (sourceOf items).length = cfg.stop
  /-- None of them is taken for the anchor at the end. -/
  endsPlain : EndsPlain cfg.toEnd items
  /-- The position is no place inside of a character. -/
  atChar : cfg.text.AtChar s.position
  /-- The machine has gone back at most once for each byte behind the cursor. -/
  returns_le : s.returns ≤ s.cursor

/-- No set is open, no frontier waits, and no advance is owed to one. -/
structure Idle (s : State) : Prop where
  /-- No set is open. -/
  inSet : s.inSet = false
  /-- Nothing has accepted yet. -/
  accepts : s.accepts = false
  /-- No frontier waits. -/
  frontier : s.frontier = none
  /-- No advance is owed. -/
  rewound : s.rewound = false

/-- No element is begun. -/
structure Fresh (s : State) : Prop extends Idle s where
  /-- The last set has been forgotten. -/
  inverted : s.inverted = false
  /-- The limits are those of an element without a quantifier. -/
  least : s.least = 1
  /-- The limits are those of an element without a quantifier. -/
  most : s.most = some 1
  /-- Nothing has been counted. -/
  count : s.count = 0
  /-- Nothing repeats. -/
  repeating : s.repeating = false

/-- The machine rests in front of some parts. -/
structure Rests (cfg : Setting) (items : List Item) (s : State) : Prop where
  /-- Where it stands. -/
  facing : Facing cfg items s
  /-- No element is begun. -/
  fresh : Fresh s
  /-- Only behind the last part is it finished. -/
  finished : s.finished = true → items = []

/-- The machine is back at the start of an element that has taken a character. -/
structure Again (cfg : Setting) (a : Atom) (q : Quantifier) (rest : List Item) (s : State) :
    Prop where
  /-- The element repeats. -/
  repeats : q.most = none
  /-- Where it stands. -/
  facing : Facing cfg (.element a q :: rest) s
  /-- Nothing is pending. -/
  idle : Idle s
  /-- The set was inverted, if it is one. -/
  inverted : s.inverted = a.inverted
  /-- The limits are those of the quantifier. -/
  least : s.least = q.least
  /-- The limits are those of the quantifier. -/
  most : s.most = none
  /-- A character has been taken. -/
  count : 1 ≤ s.count
  /-- It is finished if the element is the last part. -/
  finished : s.finished = true ↔ rest = []
  /-- It has gone back to the start of the element. -/
  repeating : s.repeating = true

/-- The machine is at the start of an element, for the first time or again. -/
structure Begun (cfg : Setting) (a : Atom) (q : Quantifier) (rest : List Item) (s : State) :
    Prop extends Idle s where
  /-- Where it stands. -/
  facing : Facing cfg (.element a q :: rest) s
  /-- If a set was inverted, it was the one of the element. -/
  inverted : s.inverted = true → a.inverted = true
  /-- An element without a quantifier leaves the limits as they are. -/
  limits : q = .once → s.least = 1 ∧ s.most = some 1

/-- What else distinguishes two states on the way: the captures that were closed between them, where
in the text the machine has come to, and what it remembers there. -/
structure Moves (s s' : State) (places : List Nat) (position : Nat) (retry : Option Nat) :
    Prop where
  /-- The captures that are closed. -/
  closes : s'.closes = s.closes ++ places
  /-- Where it stands in the text. -/
  position : s'.position = position
  /-- What it remembers. -/
  retry : s'.retry = retry

/-- Where a match moves without closing a capture. -/
theorem moves_of_closes_eq (h : s'.closes = s.closes) : Moves s s' [] s'.position s'.retry :=
  ⟨by rw [h, List.append_nil], rfl, rfl⟩

namespace Facing

theorem cursor_lt {i : Item} (h : Facing cfg (i :: rest) s) : s.cursor < cfg.stop := by
  have hsource := i.length_source_pos
  have hstop := h.stop_eq
  rw [sourceOf_cons, List.length_append] at hstop
  omega

/-- Behind a part the machine faces the parts that are left. -/
theorem behind {i : Item} (h : Facing cfg (i :: rest) s)
    (hcursor : s'.cursor = s.cursor + i.source.length) (hatChar : cfg.text.AtChar s'.position)
    (hreturns : s'.returns ≤ s.returns + 1) : Facing cfg rest s' where
  stop_le := h.stop_le
  length_lt := h.length_lt
  source := by
    have hsource := h.source
    rw [sourceOf_cons, List.append_assoc] at hsource
    rw [hcursor]
    exact Source.drop_add_of_drop hsource
  stop_eq := by
    have hstop := h.stop_eq
    rw [sourceOf_cons, List.length_append] at hstop
    omega
  endsPlain := h.endsPlain.tail
  atChar := hatChar
  returns_le := by
    have hsource := i.length_source_pos
    have hle := h.returns_le
    omega

/-- The machine faces the same parts wherever in the text it stands. -/
theorem moved (h : Facing cfg items s) (hcursor : s'.cursor = s.cursor)
    (hatChar : cfg.text.AtChar s'.position) (hreturns : s'.returns = s.returns) :
    Facing cfg items s' where
  stop_le := h.stop_le
  length_lt := h.length_lt
  source := by rw [hcursor, h.source]
  stop_eq := by rw [hcursor, h.stop_eq]
  endsPlain := h.endsPlain
  atChar := hatChar
  returns_le := by rw [hcursor, hreturns]; exact h.returns_le

theorem atom_source (h : Facing cfg (.element a q :: rest) s) :
    cfg.pattern.drop s.cursor =
      a.source ++ (q.source ++ (sourceOf rest ++ anchorTail cfg.toEnd)) := by
  rw [h.source, sourceOf_cons, Item.source]
  simp

/-- The next character. -/
theorem exists_char (h : Facing cfg items s) (hpos : s.position ≠ cfg.text.size) :
    ∃ c, cfg.text[s.position]? = some c := by
  have hle := h.atChar.le_size
  exact ⟨_, Array.getElem?_eq_getElem (by omega)⟩

/-- Behind the next character another one begins, or the text ends. -/
theorem atChar_advance (h : Facing cfg items s) (hpos : s.position ≠ cfg.text.size) :
    cfg.text.AtChar (cfg.text.charStart (s.position + 1)) := by
  have hle := h.atChar.le_size
  exact Text.atChar_charStart (by omega)

end Facing

theorem Quantifier.ne_once (hq : q.most = none) : q ≠ .once := by
  rintro rfl
  cases hq

theorem Rests.begun (h : Rests cfg (.element a q :: rest) s) : Begun cfg a q rest s where
  toIdle := h.fresh.toIdle
  facing := h.facing
  inverted := fun hinv => absurd hinv (by simp [h.fresh.inverted])
  limits := fun _ => ⟨h.fresh.least, h.fresh.most⟩

theorem Again.begun (h : Again cfg a q rest s) : Begun cfg a q rest s where
  toIdle := h.idle
  facing := h.facing
  inverted := fun hinv => h.inverted ▸ hinv
  limits := fun honce => absurd honce (Quantifier.ne_once h.repeats)

/-! ## 2.  Closing an element -/

/-- The state behind the atom of an element. -/
def behindAtom (a : Atom) (c : UInt8) (s : State) : State :=
  { s with
    repeating := false
    inverted := a.inverted
    elementStart := s.cursor
    accepts := a.accepts c
    cursor := s.cursor + a.source.length }

/-- The state behind the quantifier of an element. -/
def behindQuantifier (cfg : Setting) (a : Atom) (q : Quantifier) (c : UInt8) (s : State) : State :=
  { behindAtom a c s with
    accepts := false
    count := if a.accepts c then s.count + 1 else s.count
    least := q.least
    most := q.most
    cursor := s.cursor + (Item.element a q).source.length
    finished := s.cursor + (Item.element a q).source.length = cfg.stop }

/-- Where no quantifier stands, none is taken. -/
theorem takeQuantifier_of_not_isQuantifier
    (hplain : Source.isQuantifier (cfg.pattern.byteAt s.cursor) = false) :
    takeQuantifier cfg s = (s, false) := by
  have hbyte : ∀ b, Source.isQuantifier b = true → cfg.pattern.byteAt s.cursor ≠ b := by
    rintro b hb rfl
    exact absurd hb (by simp [hplain])
  rw [takeQuantifier, if_neg (hbyte _ rfl), if_neg (hbyte _ rfl), if_neg (hbyte _ rfl),
    if_neg (hbyte _ rfl)]

/-- At the beginning of a part there is no quantifier. -/
theorem takeQuantifier_sourceOf {toEnd : Bool}
    (hat : cfg.pattern.drop s.cursor = sourceOf items ++ anchorTail toEnd) :
    takeQuantifier cfg s = (s, false) := by
  refine takeQuantifier_of_not_isQuantifier ?_
  rcases begins_or_eq_dollar_of_drop hat with hzero | hdollar | hbegins
  · rw [hzero]
    rfl
  · rw [hdollar]
    rfl
  · simp only [begins, Bool.and_eq_true, Bool.not_eq_true'] at hbegins
    exact hbegins.2

/-- The quantifier of an element is taken, if it has one. -/
theorem takeQuantifier_source
    (hat : cfg.pattern.drop s.cursor = q.source ++ (sourceOf rest ++ anchorTail cfg.toEnd))
    (hlimits : q = .once → s.least = 1 ∧ s.most = some 1) :
    takeQuantifier cfg s =
      ({ s with least := q.least, most := q.most, cursor := s.cursor + q.source.length },
        q != .once) := by
  cases q with
  | once =>
    obtain ⟨hleast, hmost⟩ := hlimits rfl
    have hsame : { s with least := 1, most := some 1 } = s := by
      cases s
      simp_all
    rw [takeQuantifier_sourceOf hat]
    exact congrArg (·, false) hsame.symm
  | optional =>
    simp [takeQuantifier, Source.byteAt_eq_of_drop hat, Quantifier.least, Quantifier.most,
      Quantifier.source, question, minus, star, plus]
  | many =>
    simp [takeQuantifier, Source.byteAt_eq_of_drop hat, Quantifier.least, Quantifier.most,
      Quantifier.source, minus, star]
  | several =>
    simp [takeQuantifier, Source.byteAt_eq_of_drop hat, Quantifier.least, Quantifier.most,
      Quantifier.source, minus, star, plus]

/-- From the start of an element the machine reads its atom. -/
theorem Begun.spells (h : Begun cfg a q rest s) (hc : cfg.text[s.position]? = some c) :
    Spells cfg { s with repeating := false } (behindAtom a c s) := by
  have hstop := h.facing.stop_eq
  rw [sourceOf_cons, Item.source, List.length_append, List.length_append] at hstop
  exact spells_atom (s := { s with repeating := false }) a h.inSet h.accepts h.inverted
    h.facing.atom_source rfl (by show s.cursor + _ ≤ _; omega) hc

/-- Behind the atom the machine takes the quantifier, and repeats the element or is done with it. -/
theorem Begun.close_behindAtom (h : Begun cfg a q rest s) :
    close cfg (behindAtom a c s) =
      if a.accepts c && belowLimit (behindQuantifier cfg a q c s).count q.most then
        again cfg (behindQuantifier cfg a q c s) (q != .once)
      else settle cfg (behindQuantifier cfg a q c s) (a.accepts c) := by
  have hpass : passFrontier cfg (tally (behindAtom a c s)) = .next (tally (behindAtom a c s)) := by
    have hnone : (tally (behindAtom a c s)).frontier = none := h.frontier
    rw [passFrontier, hnone]
  have hat : cfg.pattern.drop (tally (behindAtom a c s)).cursor =
      q.source ++ (sourceOf rest ++ anchorTail cfg.toEnd) :=
    Source.drop_add_of_drop h.facing.atom_source
  have htake := takeQuantifier_source (s := tally (behindAtom a c s)) hat h.limits
  have hquantify : quantify cfg (tally (behindAtom a c s)) = behindQuantifier cfg a q c s := by
    rw [quantify, htake]
    simp [behindQuantifier, tally, behindAtom, Item.source, Nat.add_assoc]
    rfl
  rw [close_of_passes hpass, hquantify, htake]
  rfl

/-- The machine comes to the turn that closes an element. -/
theorem Begun.leads_close (h : Begun cfg a q rest s) (hc : cfg.text[s.position]? = some c) :
    ∃ t, Leads cfg s t ∧ step cfg t =
      if a.accepts c && belowLimit (behindQuantifier cfg a q c s).count q.most then
        again cfg (behindQuantifier cfg a q c s) (q != .once)
      else settle cfg (behindQuantifier cfg a q c s) (a.accepts c) := by
  have hpos : s.position ≠ cfg.text.size := Nat.ne_of_lt (Array.getElem?_eq_some_iff.mp hc).1
  obtain ⟨t, hleads, hstep⟩ := leads_of_spells h.facing.stop_le (h.spells hc) hpos
  exact ⟨t, hleads, hstep.trans h.close_behindAtom⟩

/-- An element is finished if it is the last part. -/
theorem Facing.finished_iff {i : Item} (h : Facing cfg (i :: rest) s) :
    s.cursor + i.source.length = cfg.stop ↔ rest = [] := by
  have hstop := h.stop_eq
  rw [sourceOf_cons, List.length_append] at hstop
  constructor
  · intro hend
    cases rest with
    | nil => rfl
    | cons j rest =>
      have hsource := j.length_source_pos
      rw [sourceOf_cons, List.length_append] at hstop
      omega
  · rintro rfl
    simpa using hstop

/-! ### The four ways on -/

/-- A repeated element takes a character. If the part behind it accepts the character as well, the
machine remembers it. -/
theorem Begun.leads_again (h : Begun cfg a q rest s) (hq : q.most = none)
    (hc : cfg.text[s.position]? = some c) (hacc : a.accepts c = true) :
    ∃ s', Leads cfg s s' ∧ Again cfg a q rest s' ∧
      Moves s s' [] (cfg.text.charStart (s.position + 1))
        (if nextAccepts rest c then some s.position else s.retry) := by
  obtain ⟨t, hleads, hstep⟩ := h.leads_close hc
  have hprobe : probe (cfg.pattern.drop (behindQuantifier cfg a q c s).cursor) cfg.text
      (behindQuantifier cfg a q c s).position = some (nextAccepts rest c) := by
    have hsource := h.facing.source
    rw [sourceOf_cons, List.append_assoc] at hsource
    have hdrop := Source.drop_add_of_drop hsource
    rw [show (behindQuantifier cfg a q c s).cursor =
      s.cursor + (Item.element a q).source.length from rfl, hdrop]
    exact probe_sourceOf h.facing.endsPlain.tail hc
  have hgreedy : (q != .once) = true := by simpa using Quantifier.ne_once hq
  rw [hacc, hq, hgreedy, Bool.true_and, belowLimit, if_pos rfl, again, hprobe] at hstep
  have hposition : (advance cfg
      { behindQuantifier cfg a q c s with
        retry := if nextAccepts rest c then some s.position else s.retry
        cursor := s.cursor
        repeating := true }).position = cfg.text.charStart (s.position + 1) := by
    simp [advance, behindQuantifier, behindAtom, h.rewound]
  have hatChar : cfg.text.AtChar (cfg.text.charStart (s.position + 1)) :=
    h.facing.atChar_advance (Nat.ne_of_lt (Array.getElem?_eq_some_iff.mp hc).1)
  refine ⟨_, hleads.trans (leads_of_step hstep), ?_, hposition ▸ moves_of_closes_eq rfl⟩
  exact
    { repeats := hq
      facing := h.facing.moved rfl (hposition ▸ hatChar) rfl
      idle := ⟨h.inSet, rfl, h.frontier, rfl⟩
      inverted := rfl
      least := rfl
      most := hq
      count := by simp [advance, behindQuantifier, hacc]
      finished := by
        rw [← h.facing.finished_iff]
        simp [advance, behindQuantifier]
      repeating := rfl }

/-- An element is settled with the character it took, if it was taken often enough. -/
theorem settle_of_taken (hleast : s.least ≤ s.count) (hmost : aboveLimit s.count s.most = false)
    (hcount : 0 < s.count) :
    settle cfg s true = .next (settled (advance cfg s) s.cursor) := by
  have henough : ¬s.count < s.least := Nat.not_lt_of_le hleast
  simp [settle, henough, hmost, hcount, settled]

/-- An element is settled without the character at hand, if it was taken often enough. -/
theorem settle_of_left (hleast : s.least ≤ s.count) (hmost : aboveLimit s.count s.most = false) :
    settle cfg s false = .next (settled s s.cursor) := by
  have henough : ¬s.count < s.least := Nat.not_lt_of_le hleast
  simp [settle, henough, hmost, settled]

theorem settle_of_lt {recent : Bool} (hleast : s.count < s.least) :
    settle cfg s recent = .done .reject := by
  simp [settle, hleast]

/-- Behind a part that is done with, the machine rests. -/
theorem Facing.rests_settled {i : Item} {b : State} (h : Facing cfg (i :: rest) s)
    (hidle : Idle b) (hrepeating : b.repeating = false)
    (hcursor : b.cursor = s.cursor + i.source.length)
    (hfinished : b.finished = true ↔ b.cursor = cfg.stop) (hatChar : cfg.text.AtChar b.position)
    (hreturns : b.returns ≤ s.returns + 1) (cursor : Nat) :
    Rests cfg rest (settled b cursor) where
  facing := h.behind hcursor hatChar hreturns
  fresh :=
    { inSet := hidle.inSet
      accepts := hidle.accepts
      frontier := hidle.frontier
      rewound := hidle.rewound
      inverted := rfl
      least := rfl
      most := rfl
      count := rfl
      repeating := hrepeating }
  finished := fun hend => h.finished_iff.mp (by rw [← hcursor, hfinished.mp hend])

theorem Idle.behindQuantifier (h : Idle s) : Idle (behindQuantifier cfg a q c s) where
  inSet := h.inSet
  accepts := rfl
  frontier := h.frontier
  rewound := h.rewound

theorem Quantifier.least_le_one (q : Quantifier) : q.least ≤ 1 := by
  cases q <;> decide

/-- An element that takes one character takes it. -/
theorem Rests.leads_taken (h : Rests cfg (.element a q :: rest) s) (hq : q.most = some 1)
    (hc : cfg.text[s.position]? = some c) (hacc : a.accepts c = true) :
    ∃ s', Leads cfg s s' ∧ Rests cfg rest s' ∧
      Moves s s' [] (cfg.text.charStart (s.position + 1)) s.retry := by
  have hidle := h.fresh.toIdle
  obtain ⟨t, hleads, hstep⟩ := h.begun.leads_close hc
  have hcount : (behindQuantifier cfg a q c s).count = 1 := by
    simp [behindQuantifier, hacc, h.fresh.count]
  have hposition : (advance cfg (behindQuantifier cfg a q c s)).position =
      cfg.text.charStart (s.position + 1) := by
    simp [advance, behindQuantifier, behindAtom, hidle.rewound]
  have hatChar : cfg.text.AtChar (cfg.text.charStart (s.position + 1)) :=
    h.facing.atChar_advance (Nat.ne_of_lt (Array.getElem?_eq_some_iff.mp hc).1)
  rw [hacc, hcount, hq, settle_of_taken (by rw [hcount]; exact q.least_le_one)
    (by rw [hcount]; simp [behindQuantifier, hq, aboveLimit]) (by omega)] at hstep
  refine ⟨_, hleads.trans (leads_of_step hstep), ?_, hposition ▸ moves_of_closes_eq rfl⟩
  exact h.facing.rests_settled (b := advance cfg (behindQuantifier cfg a q c s))
    ⟨hidle.inSet, rfl, hidle.frontier, rfl⟩ rfl rfl (by simp [advance, behindQuantifier])
    (hposition ▸ hatChar) (Nat.le_succ _) _

/-- The turn that closes an element which does not accept the character at hand. -/
theorem Begun.leads_settle (h : Begun cfg a q rest s) (hc : cfg.text[s.position]? = some c)
    (hacc : a.accepts c = false) :
    ∃ t, Leads cfg s t ∧ step cfg t = settle cfg (behindQuantifier cfg a q c s) false ∧
      (behindQuantifier cfg a q c s).count = s.count := by
  obtain ⟨t, hleads, hstep⟩ := h.leads_close hc
  refine ⟨t, hleads, ?_, ?_⟩
  · rw [hstep, hacc, Bool.false_and, if_neg Bool.false_ne_true]
  · simp [behindQuantifier, hacc]

/-- An element that does not accept the character at hand is left, if it was taken often enough. -/
theorem Begun.leads_left (h : Begun cfg a q rest s) (hleast : q.least ≤ s.count)
    (hmost : aboveLimit s.count q.most = false) (hc : cfg.text[s.position]? = some c)
    (hacc : a.accepts c = false) :
    ∃ s', Leads cfg s s' ∧ Rests cfg rest s' ∧ Moves s s' [] s.position s.retry := by
  obtain ⟨t, hleads, hstep, hcount⟩ := h.leads_settle hc hacc
  rw [settle_of_left (by rw [hcount]; exact hleast) (by rw [hcount]; exact hmost)] at hstep
  refine ⟨_, hleads.trans (leads_of_step hstep), ?_, moves_of_closes_eq rfl⟩
  exact h.facing.rests_settled h.toIdle.behindQuantifier rfl rfl (by simp [behindQuantifier])
    h.facing.atChar (Nat.le_succ _) _

/-- An element that does not accept the character at hand ends the match, if it has to be taken. -/
theorem Rests.rejects (h : Rests cfg (.element a q :: rest) s) (hq : q.least ≠ 0)
    (hc : cfg.text[s.position]? = some c) (hacc : a.accepts c = false) :
    Concludes cfg s .reject := by
  obtain ⟨t, hleads, hstep, hcount⟩ := h.begun.leads_settle hc hacc
  have hlt : (behindQuantifier cfg a q c s).count < (behindQuantifier cfg a q c s).least := by
    rw [hcount, h.fresh.count]
    exact Nat.pos_of_ne_zero hq
  rw [settle_of_lt hlt] at hstep
  exact hleads.concludes (concludes_of_step hstep)

/-! ## 3.  Repeating an element -/

theorem Moves.trans {t : State} {p p' : Nat} {retry retry' : Option Nat}
    (h : Moves s s' [] p retry) (h' : Moves s' t [] p' retry') : Moves s t [] p' retry' where
  position := h'.position
  retry := h'.retry
  closes := by rw [h'.closes, h.closes, List.append_nil, List.append_nil]

/-- Where the machine stands when a part has stopped: behind it, or, if the text has ended while an
element repeated, back at the start of the element. -/
inductive Stops (cfg : Setting) (rest : List Item) (s : State) : Item → Prop where
  /-- What comes next is for the parts behind it. -/
  | behind {i : Item} (h : Rests cfg rest s)
      (hleft : i.repeats = true → s.position ≠ cfg.text.size) : Stops cfg rest s i
  /-- The text has ended, and the element might have taken more. -/
  | within {a : Atom} {q : Quantifier} (h : Again cfg a q rest s)
      (hpos : s.position = cfg.text.size) : Stops cfg rest s (.element a q)

/-- **An element that repeats takes what it can reach**, and remembers the last character that it
shares with the parts behind it. -/
theorem Again.leads_stop (h : Again cfg a q rest s) {n : Nat}
    (hn : cfg.text.size ≤ s.position + n) :
    ∃ s', Leads cfg s s' ∧ Stops cfg rest s' (.element a q) ∧
      Moves s s' [] (a.reach cfg.text n s.position)
        ((a.lastShared? cfg.text rest n s.position).or s.retry) := by
  induction n generalizing s with
  | zero =>
    have hpos : s.position = cfg.text.size := by
      have hle := h.facing.atChar.le_size
      omega
    exact ⟨s, Leads.refl cfg s, .within h hpos, moves_of_closes_eq rfl⟩
  | succ n ih =>
    by_cases hpos : s.position = cfg.text.size
    · have hnone : cfg.text[s.position]? = none := by simp [hpos]
      refine ⟨s, Leads.refl cfg s, .within h hpos, ?_⟩
      rw [Atom.reach, Atom.lastShared?, hnone]
      exact moves_of_closes_eq rfl
    obtain ⟨c, hc⟩ := h.facing.exists_char hpos
    cases hacc : a.accepts c with
    | true =>
      obtain ⟨t, hleads, hagain, hmoves⟩ := h.begun.leads_again h.repeats hc hacc
      have hforward := cfg.text.le_charStart (s.position + 1)
      obtain ⟨s', hleads', hstops, hmoves'⟩ := ih hagain (by rw [hmoves.position]; omega)
      refine ⟨s', hleads.trans hleads', hstops, ?_⟩
      rw [hmoves.position, hmoves.retry] at hmoves'
      rw [Atom.reach_succ hc hacc, Atom.lastShared?_succ_or hc hacc]
      exact hmoves.trans hmoves'
    | false =>
      obtain ⟨t, hleads, hrests, hmoves⟩ := h.begun.leads_left
        (Nat.le_trans q.least_le_one h.count) (by rw [h.repeats]; rfl) hc hacc
      refine ⟨t, hleads, .behind hrests (fun _ => hmoves.position ▸ hpos), ?_⟩
      simpa [Atom.reach, Atom.lastShared?, hc, hacc] using hmoves

/-- What comes of a part that is read in front of a character: where it does not stop, the match
ends, and otherwise it goes on where it stops. -/
def Outcome (cfg : Setting) (i : Item) (rest : List Item) (s : State) : Prop :=
  match i.stop? cfg.text s.position with
  | none => Concludes cfg s .reject
  | some stop =>
    ∃ s', Leads cfg s s' ∧ Stops cfg rest s' i ∧
      Moves s s' (i.closes s.position) stop
        ((i.lastShared? cfg.text rest s.position).or s.retry)

/-- An element that takes at most one character. -/
theorem Rests.outcome_taken (h : Rests cfg (.element a q :: rest) s) (hq : q.most = some 1)
    (hc : cfg.text[s.position]? = some c) (hacc : a.accepts c = true) :
    Outcome cfg (.element a q) rest s := by
  have hforward : s.position < cfg.text.charStart (s.position + 1) :=
    cfg.text.le_charStart (s.position + 1)
  have hstop : (Item.element a q).stop? cfg.text s.position =
      some (cfg.text.charStart (s.position + 1)) := by
    simp [Item.stop?, Quantifier.limit, hq, Atom.reach, hc, hacc, hforward]
  have hshared : (Item.element a q).lastShared? cfg.text rest s.position = none := by
    simp [Item.lastShared?, hq]
  obtain ⟨s', hleads, hrests, hmoves⟩ := h.leads_taken hq hc hacc
  rw [Outcome, hstop, hshared]
  exact ⟨s', hleads, .behind hrests (by simp [Item.repeats, hq]), hmoves⟩

/-- An element that repeats, after its first character. -/
theorem Rests.outcome_repeated (h : Rests cfg (.element a q :: rest) s) (hq : q.most = none)
    (hc : cfg.text[s.position]? = some c) (hacc : a.accepts c = true) :
    Outcome cfg (.element a q) rest s := by
  obtain ⟨n, hn⟩ : ∃ n, cfg.text.size = n + 1 := ⟨cfg.text.size - 1, by
    have hlt := (Array.getElem?_eq_some_iff.mp hc).1
    omega⟩
  have hforward := cfg.text.le_charStart (s.position + 1)
  have hreach := a.le_reach cfg.text n (cfg.text.charStart (s.position + 1))
  have hstop : (Item.element a q).stop? cfg.text s.position =
      some (a.reach cfg.text n (cfg.text.charStart (s.position + 1))) := by
    rw [Item.stop?, Quantifier.limit, hq, Option.getD_none, hn, Atom.reach_succ hc hacc,
      if_pos (Or.inr (by omega))]
  obtain ⟨t, hleads, hagain, hmoves⟩ := h.begun.leads_again hq hc hacc
  obtain ⟨s', hleads', hstops, hmoves'⟩ := hagain.leads_stop (n := n)
    (by rw [hmoves.position]; omega)
  rw [hmoves.position, hmoves.retry] at hmoves'
  rw [Outcome, hstop, Item.lastShared?, if_pos hq, hn, Atom.lastShared?_succ_or hc hacc]
  exact ⟨s', hleads.trans hleads', hstops, hmoves.trans hmoves'⟩

/-- An element that does not accept the next character. -/
theorem Rests.outcome_refused (h : Rests cfg (.element a q :: rest) s)
    (hc : cfg.text[s.position]? = some c) (hacc : a.accepts c = false) :
    Outcome cfg (.element a q) rest s := by
  have hreach : ∀ n, a.reach cfg.text n s.position = s.position := by
    intro n
    cases n <;> simp [Atom.reach, hc, hacc]
  by_cases hleast : q.least = 0
  · have hstop : (Item.element a q).stop? cfg.text s.position = some s.position := by
      simp [Item.stop?, hreach, hleast]
    have hshared : (Item.element a q).lastShared? cfg.text rest s.position = none := by
      cases hsize : cfg.text.size <;> simp [Item.lastShared?, hsize, Atom.lastShared?, hc, hacc]
    have hmost : aboveLimit s.count q.most = false := by
      rw [h.fresh.count]
      cases q.most <;> simp [aboveLimit]
    obtain ⟨s', hleads, hrests, hmoves⟩ := h.begun.leads_left (by omega) hmost hc hacc
    have hpos : s.position ≠ cfg.text.size := Nat.ne_of_lt (Array.getElem?_eq_some_iff.mp hc).1
    rw [Outcome, hstop, hshared]
    exact ⟨s', hleads, .behind hrests (fun _ => hmoves.position ▸ hpos), hmoves⟩
  · have hstop : (Item.element a q).stop? cfg.text s.position = none := by
      simp [Item.stop?, hreach, hleast]
    rw [Outcome, hstop]
    exact h.rejects hleast hc hacc

/-- **An element that is read in front of a character** leaves the text where it stops, or ends the
match. -/
theorem Rests.outcome_element (h : Rests cfg (.element a q :: rest) s)
    (hpos : s.position ≠ cfg.text.size) : Outcome cfg (.element a q) rest s := by
  obtain ⟨c, hc⟩ := h.facing.exists_char hpos
  cases hacc : a.accepts c with
  | false => exact h.outcome_refused hc hacc
  | true =>
    cases q with
    | once | optional => exact h.outcome_taken rfl hc hacc
    | many | several => exact h.outcome_repeated rfl hc hacc

end LuaPattern
end Linewise
