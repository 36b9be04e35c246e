import Linewise.Proofs.LuaPattern.LeftToRight
import Linewise.Proofs.LuaPattern.Trace

/-!
# How the machine reads a part

`Spells cfg s e` says that the machine, reading on from `s`, completes the element that `e` stands
behind. Reading neither moves in the text nor looks at anything but the byte at hand, so the
relation serves the machine (`leads_of_spells`) and a probe (`probeFrom_of_spells`) alike.

The main statement is `spells_atom`: where the bytes of an atom stand at the cursor, the machine
reads exactly these bytes, and the state behind them says whether the atom accepts the character at
hand. For a set this goes member by member. Once a member has accepted, the rest of the set is
passed over byte by byte up to a `]` that does not follow a `%`; that this is the closing one is
what the conditions on the members of a `Bracket` are for.
-/

namespace Linewise
namespace LuaPattern

variable {cfg : Setting} {s s' e : State}

/-! ## Bytes of a pattern -/

theorem Source.byteAt_eq_of_drop {p more : Source} {i : Nat} {b : UInt8}
    (h : p.drop i = b :: more) : p.byteAt i = b := by
  have hget : p[i]? = some b := by
    rw [← List.head?_drop, h, List.head?_cons]
  rw [Source.byteAt, List.getD_eq_getElem?_getD, hget, Option.getD_some]

theorem Source.drop_add_of_drop {p xs ys : Source} {i : Nat} (h : p.drop i = xs ++ ys) :
    p.drop (i + xs.length) = ys := by
  rw [← List.drop_drop, h, List.drop_left]

theorem Source.drop_succ_of_drop {p more : Source} {i : Nat} {b : UInt8}
    (h : p.drop i = b :: more) : p.drop (i + 1) = more := by
  rw [← List.drop_drop, h]
  rfl

/-! ## Reading on -/

/-- The machine, reading on from a state, completes an element. -/
inductive Spells (cfg : Setting) : State → State → Prop where
  /-- One reading completes it. -/
  | element {s e : State} (hcursor : s.cursor < cfg.stop) (hread : read cfg s = .element e) :
      Spells cfg s e
  /-- One reading completes nothing, and the machine reads on. -/
  | skip {s s' e : State} (hcursor : s.cursor < cfg.stop) (hread : read cfg s = .skip s')
      (h : Spells cfg s' e) : Spells cfg s e

/-! ### One byte -/

theorem read_of_not_inSet (hset : s.inSet = false)
    (hat : cfg.pattern.byteAt s.cursor ≠ closeSet) :
    read cfg s = readByte cfg { s with elementStart := s.cursor } := by
  simp [read, hset, hat]

theorem read_of_not_accepts (hset : s.inSet = true) (hacc : s.accepts = false) :
    read cfg s = readByte cfg s := by
  simp [read, hset, hacc]

theorem read_of_closesSet? (hset : s.inSet = true) (hacc : s.accepts = true)
    (hclose : closesSet? cfg s = some false) :
    read cfg s = .skip { s with cursor := s.cursor + 1 } := by
  simp [read, hset, hacc, hclose]

/-- A byte that stands for itself where it is read. -/
theorem readByte_literal {b c : UInt8} (hat : cfg.pattern.byteAt s.cursor = b) (hzero : b ≠ 0)
    (hdot : b ≠ dot) (hpercent : b ≠ percent) (hclose : b ≠ closeSet)
    (hgroup : s.inSet = true ∨ b ≠ openGroup ∧ b ≠ closeGroup ∧ b ≠ openSet)
    (hc : cfg.text[s.position]? = some c) :
    readByte cfg s = finishRead { s with accepts := b == c, cursor := s.cursor + 1 } := by
  -- outside of a set the byte is no bracket, and inside of one brackets have no meaning
  have hplain : ∀ bracket, (b = bracket → s.inSet = true) →
      ¬(decide (b = bracket) && !s.inSet) = true := by
    intro bracket hbracket hboth
    simp only [Bool.and_eq_true, decide_eq_true_eq, Bool.not_eq_true'] at hboth
    exact absurd (hbracket hboth.1) (by simp [hboth.2])
  have hopen : b = openGroup → s.inSet = true := fun h => hgroup.resolve_right fun hne => hne.1 h
  have hshut : b = closeGroup → s.inSet = true :=
    fun h => hgroup.resolve_right fun hne => hne.2.1 h
  have hset : b = openSet → s.inSet = true := fun h => hgroup.resolve_right fun hne => hne.2.2 h
  rw [readByte, hat, if_neg hzero, if_neg hdot, if_neg (hplain _ hopen), if_neg (hplain _ hshut),
    if_neg (hplain _ hset), if_neg (by simp [hclose]), if_neg hpercent, readLiteral, hc]

/-- A `%`, with a byte behind it that makes no frontier. -/
theorem readByte_percent {kind c : UInt8} {more : Source}
    (hat : cfg.pattern.drop s.cursor = percent :: kind :: more) (hzero : kind ≠ 0)
    (hletter : Ascii.toLower kind ≠ frontierLetter) (hc : cfg.text[s.position]? = some c) :
    readByte cfg s =
      finishRead { s with accepts := classAccepts kind c, cursor := s.cursor + 2 } := by
  have hbyte := Source.byteAt_eq_of_drop hat
  have hnext := Source.byteAt_eq_of_drop (Source.drop_succ_of_drop hat)
  have hescape : readByte cfg s = readEscape cfg s := by
    rw [readByte, hbyte]
    rfl
  rw [hescape, readEscape, hc]
  simp [hnext, hzero, hletter]

/-- A class or an escaped byte. -/
theorem readByte_escape {kind c : UInt8} {more : Source}
    (hat : cfg.pattern.drop s.cursor = percent :: kind :: more) (hkind : isEscape kind = true)
    (hc : cfg.text[s.position]? = some c) :
    readByte cfg s =
      finishRead { s with accepts := classAccepts kind c, cursor := s.cursor + 2 } :=
  readByte_percent hat (ne_zero_of_isEscape hkind) (toLower_ne_of_isEscape hkind) hc

/-! ### A set -/

theorem closesSet?_of_ne (h : cfg.pattern.byteAt s.cursor ≠ closeSet) :
    closesSet? cfg s = some false := by
  rw [closesSet?, if_neg h]

/-- A `]` behind a `%` does not close a set, and any other one does. -/
theorem closesSet?_of_eq {before : Nat} (h : cfg.pattern.byteAt s.cursor = closeSet)
    (hbefore : s.cursor = before + 1) :
    closesSet? cfg s = some (cfg.pattern.byteAt before != percent) := by
  rw [closesSet?, if_pos h, hbefore]

/-- The bracket that closes a set. -/
theorem readByte_closeSet (hat : cfg.pattern.byteAt s.cursor = closeSet) (hset : s.inSet = true) :
    readByte cfg s =
      .element
        { s with
          inSet := false
          accepts := if s.inverted then !s.accepts else s.accepts
          cursor := s.cursor + 1 } := by
  have hclose : readByte cfg s =
      finishRead { s with inSet := false, cursor := s.cursor + 1 } := by
    simp [readByte, hat, hset, closeSet, dot, openGroup, closeGroup, openSet]
  rw [hclose, finishRead_of_not_inSet rfl]

theorem getLast?_of_cons {m : Member} {members : List Member}
    (h : (m :: members).getLast?.map Member.source ≠ some [percent, percent]) :
    members.getLast?.map Member.source ≠ some [percent, percent] := by
  intro hlast
  refine h ?_
  rw [List.getLast?_cons]
  cases hmembers : members.getLast? with
  | none => simp [hmembers] at hlast
  | some last => simpa [hmembers] using hlast

/-- Only an escaped `%` leaves a `%` as the byte before the cursor. -/
theorem exists_byteAt_ne_percent {i : Nat} {m : Member} {more : Source}
    (hat : cfg.pattern.drop i = m.source ++ more) (hm : m.source ≠ [percent, percent]) :
    ∃ j, i + m.source.length = j + 1 ∧ cfg.pattern.byteAt j ≠ percent := by
  cases m with
  | byte b plain =>
    refine ⟨i, rfl, ?_⟩
    rw [Source.byteAt_eq_of_drop hat]
    exact (ne_of_isPlainMember plain).1
  | escape kind known =>
    refine ⟨i + 1, rfl, ?_⟩
    rw [Source.byteAt_eq_of_drop (Source.drop_succ_of_drop hat)]
    rintro rfl
    exact hm rfl

/-- No byte of a member closes the set. -/
theorem closesSet?_of_member {i k : Nat} {m : Member} {more : Source}
    (hat : cfg.pattern.drop i = m.source ++ more) (hk : k < m.source.length) :
    closesSet? cfg { s with cursor := i + k } = some false := by
  cases m with
  | byte b plain =>
    obtain rfl : k = 0 := Nat.lt_one_iff.mp hk
    refine closesSet?_of_ne ?_
    rw [show cfg.pattern.byteAt (i + 0) = b from Source.byteAt_eq_of_drop hat]
    exact (ne_of_isPlainMember plain).2.1
  | escape kind known =>
    have hbyte : cfg.pattern.byteAt i = percent := Source.byteAt_eq_of_drop hat
    have hkind : cfg.pattern.byteAt (i + 1) = kind :=
      Source.byteAt_eq_of_drop (Source.drop_succ_of_drop hat)
    obtain rfl | rfl : k = 0 ∨ k = 1 := Nat.le_one_iff_eq_zero_or_eq_one.mp (Nat.le_of_lt_succ hk)
    · exact closesSet?_of_ne (by rw [show cfg.pattern.byteAt (i + 0) = percent from hbyte]; decide)
    · -- the escaped byte does not close the set, even if it is a bracket
      by_cases hbracket : kind = closeSet
      · rw [closesSet?_of_eq (s := { s with cursor := i + 1 }) (hkind.trans hbracket) rfl, hbyte]
        rfl
      · exact closesSet?_of_ne (by rw [hkind]; exact hbracket)

/-- Once a member has accepted, the bytes of a member behind it are passed over. -/
theorem spells_passedMember {m : Member} {more : Source} (hset : s.inSet = true)
    (hacc : s.accepts = true) (hat : cfg.pattern.drop s.cursor = m.source ++ more)
    (hstop : s.cursor + m.source.length ≤ cfg.stop)
    (h : Spells cfg { s with cursor := s.cursor + m.source.length } e) : Spells cfg s e := by
  have hopen : closesSet? cfg s = some false :=
    closesSet?_of_member (s := s) (k := 0) hat (by cases m <;> exact Nat.succ_pos _)
  cases m with
  | byte b plain => exact .skip hstop (read_of_closesSet? hset hacc hopen) h
  | escape kind known =>
    have hopen' : closesSet? cfg { s with cursor := s.cursor + 1 } = some false :=
      closesSet?_of_member (s := s) (k := 1) hat (Nat.lt_succ_self 1)
    exact .skip (Nat.lt_of_succ_lt hstop) (read_of_closesSet? hset hacc hopen)
      (.skip hstop (read_of_closesSet? hset hacc hopen') h)

/-- Once a member has accepted, everything up to the closing bracket is passed over. -/
theorem spells_passedMembers (members : List Member) {more : Source} {n : Nat}
    (hset : s.inSet = true) (hacc : s.accepts = true)
    (hat : cfg.pattern.drop s.cursor = membersSource members ++ closeSet :: more)
    (hn : n = s.cursor + (membersSource members).length + 1) (hstop : n ≤ cfg.stop)
    (hbefore : members = [] → ∃ i, s.cursor = i + 1 ∧ cfg.pattern.byteAt i ≠ percent)
    (hlast : members.getLast?.map Member.source ≠ some [percent, percent]) :
    Spells cfg s { s with inSet := false, accepts := !s.inverted, cursor := n } := by
  induction members generalizing s with
  | nil =>
    obtain ⟨i, hi, hne⟩ := hbefore rfl
    have hbyte : cfg.pattern.byteAt s.cursor = closeSet := Source.byteAt_eq_of_drop hat
    have hcloses : closesSet? cfg s = some true := by
      rw [closesSet?_of_eq hbyte hi]
      simp [hne]
    have hread : read cfg s = readByte cfg s := by
      simp [read, hset, hacc, hcloses]
    have hcursor : n = s.cursor + 1 := hn
    refine .element (by omega) ?_
    rw [hread, readByte_closeSet hbyte hset, hcursor]
    simp [hacc]
  | cons m members ih =>
    have hlen : n = s.cursor + m.source.length + (membersSource members).length + 1 := by
      simp at hn
      omega
    have hmember : cfg.pattern.drop s.cursor =
        m.source ++ (membersSource members ++ closeSet :: more) := by
      rw [hat, membersSource_cons, List.append_assoc]
    refine spells_passedMember hset hacc hmember (by omega) ?_
    refine ih hset hacc (Source.drop_add_of_drop hmember) hlen ?_ (getLast?_of_cons hlast)
    rintro rfl
    exact exists_byteAt_ne_percent hmember fun hpercent => hlast (by simp [hpercent])

/-- As long as no member has accepted, the next one is read. -/
theorem read_member {m : Member} {more : Source} {c : UInt8} (hset : s.inSet = true)
    (hacc : s.accepts = false) (hat : cfg.pattern.drop s.cursor = m.source ++ more)
    (hc : cfg.text[s.position]? = some c) :
    read cfg s =
      .skip { s with accepts := m.accepts c, cursor := s.cursor + m.source.length } := by
  rw [read_of_not_accepts hset hacc]
  cases m with
  | byte b plain =>
    obtain ⟨hpercent, hclose, hdot⟩ := ne_of_isPlainMember plain
    rw [readByte_literal (Source.byteAt_eq_of_drop hat) (ne_zero_of_isPlainMember plain) hdot
      hpercent hclose (Or.inl hset) hc]
    exact finishRead_of_inSet hset
  | escape kind known =>
    rw [readByte_escape hat known hc]
    exact finishRead_of_inSet hset

/-- The members of a set, read one after the other. A `%%` at their end does no harm if none of them
accepts. -/
theorem spells_members (members : List Member) {more : Source} {c : UInt8} {n : Nat}
    (hset : s.inSet = true) (hacc : s.accepts = false)
    (hat : cfg.pattern.drop s.cursor = membersSource members ++ closeSet :: more)
    (hn : n = s.cursor + (membersSource members).length + 1) (hstop : n ≤ cfg.stop)
    (hlast : members.any (·.accepts c) = true →
      members.getLast?.map Member.source ≠ some [percent, percent])
    (hc : cfg.text[s.position]? = some c) :
    Spells cfg s
      { s with
        inSet := false
        accepts :=
          if s.inverted then !members.any (·.accepts c) else members.any (·.accepts c)
        cursor := n } := by
  induction members generalizing s with
  | nil =>
    have hbyte : cfg.pattern.byteAt s.cursor = closeSet := Source.byteAt_eq_of_drop hat
    have hcursor : n = s.cursor + 1 := hn
    refine .element (by omega) ?_
    rw [read_of_not_accepts hset hacc, readByte_closeSet hbyte hset, hcursor]
    simp [hacc]
  | cons m members ih =>
    have hlen : n = s.cursor + m.source.length + (membersSource members).length + 1 := by
      simp at hn
      omega
    have hmember : cfg.pattern.drop s.cursor =
        m.source ++ (membersSource members ++ closeSet :: more) := by
      rw [hat, membersSource_cons, List.append_assoc]
    have hbehind := Source.drop_add_of_drop hmember
    refine .skip (by omega) (read_member hset hacc hmember hc) ?_
    cases hm : m.accepts c with
    | true =>
      replace hlast := hlast (by simp [hm])
      have hpassed := spells_passedMembers
        (s := { s with accepts := true, cursor := s.cursor + m.source.length })
        members hset rfl hbehind hlen hstop ?_ (getLast?_of_cons hlast)
      · simpa [hm] using hpassed
      · rintro rfl
        exact exists_byteAt_ne_percent hmember fun hpercent => hlast (by simp [hpercent])
    | false =>
      have hmembers := ih
        (s := { s with accepts := false, cursor := s.cursor + m.source.length })
        hset rfl hbehind hlen
        (fun hany => getLast?_of_cons (hlast (by simp only [List.any_cons, hany, Bool.or_true])))
        hc
      simpa [hm] using hmembers

/-- The first member of a set does not invert it. -/
theorem byteAt_ne_caret_of_head_ne {i : Nat} {members : List Member} {more : Source}
    (hne : members ≠ []) (hhead : members.head?.map Member.source ≠ some [caret])
    (hat : cfg.pattern.drop i = membersSource members ++ more) :
    cfg.pattern.byteAt i ≠ caret := by
  obtain ⟨m, members, rfl⟩ := List.exists_cons_of_ne_nil hne
  rw [membersSource_cons, List.append_assoc] at hat
  cases m with
  | byte first plain =>
    rw [Source.byteAt_eq_of_drop hat]
    rintro rfl
    exact hhead rfl
  | escape kind known =>
    rw [Source.byteAt_eq_of_drop hat]
    decide

/-- The bracket that opens a set, and the `^` that inverts it. -/
theorem exists_read_opening {inverted : Bool} {members : List Member} {more : Source}
    (hne : members ≠ [])
    (hhead : inverted = false → members.head?.map Member.source ≠ some [caret])
    (hset : s.inSet = false) (hinv : s.inverted = true → inverted = true)
    (hat : cfg.pattern.drop s.cursor = setSource inverted members ++ more) :
    ∃ n, (setSource inverted members).length = n + (membersSource members).length + 1 ∧
      cfg.pattern.drop (s.cursor + n) = membersSource members ++ closeSet :: more ∧
      read cfg s =
        .skip
          { s with
            inSet := true
            inverted := inverted
            elementStart := s.cursor
            cursor := s.cursor + n } := by
  have hbyte : cfg.pattern.byteAt s.cursor = openSet := Source.byteAt_eq_of_drop hat
  have hread : read cfg s = readSetOpening cfg { s with elementStart := s.cursor } := by
    rw [read_of_not_inSet hset (by rw [hbyte]; decide)]
    simp [readByte, hbyte, hset, openSet, dot, openGroup, closeGroup]
  have hinside := Source.drop_succ_of_drop (b := openSet) hat
  cases inverted with
  | true =>
    have hat' : cfg.pattern.drop (s.cursor + 1) =
        caret :: (membersSource members ++ closeSet :: more) := by
      rw [hinside]
      simp
    refine ⟨2, ?_, Source.drop_succ_of_drop hat', ?_⟩
    · simp [setSource]
      omega
    · rw [hread, readSetOpening]
      simp [Source.byteAt_eq_of_drop hat']
  | false =>
    have hplain : s.inverted = false := Bool.eq_false_iff.mpr fun hs => absurd (hinv hs) (by simp)
    have hat' : cfg.pattern.drop (s.cursor + 1) = membersSource members ++ closeSet :: more := by
      rw [hinside]
      simp
    refine ⟨1, ?_, hat', ?_⟩
    · simp [setSource]
      omega
    · rw [hread, readSetOpening]
      simp [byteAt_ne_caret_of_head_ne hne (hhead rfl) hat', hplain]

/-- **A set is read to its end**, whatever its members, unless one of them accepts and the last one
is a `%%`. -/
theorem spells_set {inverted : Bool} {members : List Member} {more : Source} {c : UInt8} {n : Nat}
    (hne : members ≠ [])
    (hhead : inverted = false → members.head?.map Member.source ≠ some [caret])
    (hset : s.inSet = false) (hacc : s.accepts = false)
    (hinv : s.inverted = true → inverted = true)
    (hat : cfg.pattern.drop s.cursor = setSource inverted members ++ more)
    (hn : n = s.cursor + (setSource inverted members).length) (hstop : n ≤ cfg.stop)
    (hlast : members.any (·.accepts c) = true →
      members.getLast?.map Member.source ≠ some [percent, percent])
    (hc : cfg.text[s.position]? = some c) :
    Spells cfg s
      { s with
        inverted := inverted
        elementStart := s.cursor
        accepts := if inverted then !members.any (·.accepts c) else members.any (·.accepts c)
        cursor := n } := by
  obtain ⟨k, hlength, hinside, hread⟩ := exists_read_opening hne hhead hset hinv hat
  have hmembers := spells_members
    (s := { s with
      inSet := true, inverted := inverted, elementStart := s.cursor, cursor := s.cursor + k })
    (n := n) members rfl hacc hinside (by simp only; omega) hstop hlast hc
  refine .skip (by omega) hread ?_
  simpa [hset] using hmembers

/-- A set as an atom. -/
theorem spells_bracket (b : Bracket) {more : Source} {c : UInt8} {n : Nat}
    (hset : s.inSet = false) (hacc : s.accepts = false)
    (hinv : s.inverted = true → b.inverted = true)
    (hat : cfg.pattern.drop s.cursor = b.source ++ more)
    (hn : n = s.cursor + b.source.length) (hstop : n ≤ cfg.stop)
    (hc : cfg.text[s.position]? = some c) :
    Spells cfg s
      { s with
        inverted := b.inverted
        elementStart := s.cursor
        accepts := b.accepts c
        cursor := n } := by
  rw [b.source_eq] at hat hn
  exact spells_set b.nonempty b.head_ne hset hacc hinv hat hn hstop (fun _ => b.last_ne) hc

/-! ### An atom -/

/-- Outside of a set, what one reading finishes is an element. -/
theorem read_eq_element {b : Bool} {n : Nat} (hset : s.inSet = false) (hinv : s.inverted = false)
    (hat : cfg.pattern.byteAt s.cursor ≠ closeSet)
    (hread : readByte cfg { s with elementStart := s.cursor } =
      finishRead { s with elementStart := s.cursor, accepts := b, cursor := n }) :
    read cfg s = .element { s with elementStart := s.cursor, accepts := b, cursor := n } := by
  have hfinish : finishRead { s with elementStart := s.cursor, accepts := b, cursor := n } =
      .element
        { s with
          elementStart := s.cursor
          accepts := if s.inverted then !b else b
          cursor := n } := finishRead_of_not_inSet hset
  rw [read_of_not_inSet hset hat, hread, hfinish]
  simp [hinv]

/-- The byte of an element that is read as itself, outside of sets. -/
def isLiteral (b : UInt8) : Bool :=
  !([0, dot, percent, openSet, closeSet, openGroup, closeGroup].contains b)

theorem isLiteral_of_isPlain {b : UInt8} (h : isPlain b = true) : isLiteral b = true := by
  have hne : ∀ {magic}, magic ∈ magicBytes → b ≠ magic := ne_of_isPlain h
  have hzero := ne_zero_of_isPlain h
  have hdot : b ≠ dot := hne (by decide)
  have hpercent : b ≠ percent := hne (by decide)
  have hopenSet : b ≠ openSet := hne (by decide)
  have hcloseSet : b ≠ closeSet := hne (by decide)
  have hopenGroup : b ≠ openGroup := hne (by decide)
  have hcloseGroup : b ≠ closeGroup := hne (by decide)
  simp [isLiteral, *]

theorem read_literal {b c : UInt8} (hset : s.inSet = false) (hinv : s.inverted = false)
    (hat : cfg.pattern.byteAt s.cursor = b) (hliteral : isLiteral b = true)
    (hc : cfg.text[s.position]? = some c) :
    read cfg s =
      .element
        { s with elementStart := s.cursor, accepts := b == c, cursor := s.cursor + 1 } := by
  simp only [isLiteral, List.contains_cons, List.contains_nil, Bool.or_false, Bool.not_eq_true',
    Bool.or_eq_false_iff, beq_eq_false_iff_ne] at hliteral
  obtain ⟨hzero, hdot, hpercent, hopenSet, hcloseSet, hopenGroup, hcloseGroup⟩ := hliteral
  refine read_eq_element hset hinv (by rw [hat]; exact hcloseSet) ?_
  exact readByte_literal (s := { s with elementStart := s.cursor }) hat hzero hdot hpercent
    hcloseSet (Or.inr ⟨hopenGroup, hcloseGroup, hopenSet⟩) hc

/-- A `.` accepts any character. -/
theorem read_any (hset : s.inSet = false) (hinv : s.inverted = false)
    (hat : cfg.pattern.byteAt s.cursor = dot) :
    read cfg s =
      .element { s with elementStart := s.cursor, accepts := true, cursor := s.cursor + 1 } := by
  refine read_eq_element hset hinv (by rw [hat]; decide) ?_
  simp [readByte, hat, dot]

/-- **An atom is read to its end**, and the state behind it says whether it accepts the character
at hand. -/
theorem spells_atom (a : Atom) {more : Source} {c : UInt8} {n : Nat}
    (hset : s.inSet = false) (hacc : s.accepts = false)
    (hinv : s.inverted = true → a.inverted = true)
    (hat : cfg.pattern.drop s.cursor = a.source ++ more)
    (hn : n = s.cursor + a.source.length) (hstop : n ≤ cfg.stop)
    (hc : cfg.text[s.position]? = some c) :
    Spells cfg s
      { s with
        inverted := a.inverted
        elementStart := s.cursor
        accepts := a.accepts c
        cursor := n } := by
  have hplain : a.inverted = false → s.inverted = false := by
    intro ha
    cases hs : s.inverted with
    | false => rfl
    | true => exact absurd (hinv hs) (by simp [ha])
  cases a with
  | byte b plain =>
    have hliteral : isLiteral b = true := isLiteral_of_isPlain plain
    have helement := read_literal hset (hplain rfl) (Source.byteAt_eq_of_drop hat) hliteral hc
    have hcursor : n = s.cursor + 1 := hn
    refine .element (by omega) ?_
    simpa [hplain rfl, Atom.inverted, Atom.accepts, hcursor] using helement
  | any =>
    have helement := read_any hset (hplain rfl) (Source.byteAt_eq_of_drop hat)
    have hcursor : n = s.cursor + 1 := hn
    refine .element (by omega) ?_
    simpa [hplain rfl, Atom.inverted, Atom.accepts, hcursor] using helement
  | escape kind known =>
    have hbyte : cfg.pattern.byteAt s.cursor = percent := Source.byteAt_eq_of_drop hat
    have hread := readByte_escape (s := { s with elementStart := s.cursor }) hat known hc
    have helement := read_eq_element hset (hplain rfl) (by rw [hbyte]; decide) hread
    have hcursor : n = s.cursor + 2 := hn
    refine .element (by omega) ?_
    simpa [hplain rfl, Atom.inverted, Atom.accepts, hcursor] using helement
  | set b => exact spells_bracket b hset hacc hinv hat hn hstop hc

/-! ### Marks and frontiers -/

theorem read_openGroup (hset : s.inSet = false)
    (hat : cfg.pattern.byteAt s.cursor = openGroup) :
    read cfg s = .skip { s with elementStart := s.cursor, cursor := s.cursor + 1 } := by
  rw [read_of_not_inSet hset (by rw [hat]; decide)]
  simp [readByte, hat, hset, openGroup, dot]

theorem read_closeGroup (hset : s.inSet = false)
    (hat : cfg.pattern.byteAt s.cursor = closeGroup) :
    read cfg s =
      .skip
        { s with
          closes := s.closes ++ [s.position]
          elementStart := s.cursor + 1
          cursor := s.cursor + 1 } := by
  rw [read_of_not_inSet hset (by rw [hat]; decide)]
  simp [readByte, hat, hset, openGroup, closeGroup, dot]

theorem read_frontier {c : UInt8} {more : Source} (hset : s.inSet = false)
    (hat : cfg.pattern.drop s.cursor = percent :: frontierLetter :: more)
    (hc : cfg.text[s.position]? = some c) :
    read cfg s =
      .skip
        { s with
          elementStart := s.cursor
          frontier := some (s.cursor, s.position)
          cursor := s.cursor + 2 } := by
  have hbyte := Source.byteAt_eq_of_drop hat
  have hletter := Source.byteAt_eq_of_drop (Source.drop_succ_of_drop hat)
  have hescape : readByte cfg { s with elementStart := s.cursor } =
      readEscape cfg { s with elementStart := s.cursor } := by
    rw [readByte, hbyte]
    rfl
  rw [read_of_not_inSet hset (by rw [hbyte]; decide), hescape, readEscape, hc]
  simp only [hletter]
  rfl

/-! ## The machine and a probe -/

/-- A reading that completes nothing moves the cursor, and neither the position nor the mark of a
repetition. -/
theorem Skips.forward (h : Skips cfg s s') :
    s.cursor < s'.cursor ∧ s'.position = s.position ∧ s'.repeating = s.repeating := by
  cases h with
  | member b n hset hn hle => exact ⟨Nat.lt_add_of_pos_right hn, rfl, rfl⟩
  | openGroup => exact ⟨Nat.lt_succ_self _, rfl, rfl⟩
  | closeGroup => exact ⟨Nat.lt_succ_self _, rfl, rfl⟩
  | openSet inv n hset hn => exact ⟨Nat.lt_add_of_pos_right hn, rfl, rfl⟩
  | frontier => exact ⟨Nat.lt_add_of_pos_right Nat.two_pos, rfl, rfl⟩

theorem lt_cursor_of_spells (hstop : cfg.stop ≤ cfg.pattern.length) (h : Spells cfg s e) :
    s.cursor < e.cursor := by
  induction h with
  | @element s e hcursor hread =>
    obtain ⟨_, _, _, n, rfl, -, hn, -⟩ :=
      completes_eq (completes_of_read (Nat.lt_of_lt_of_le hcursor hstop) hread)
    exact Nat.lt_add_of_pos_right hn
  | skip hcursor hread h ih =>
    have hforward := (skips_of_read (Nat.lt_of_lt_of_le hcursor hstop) hread).forward
    exact Nat.lt_trans hforward.1 ih

/-- The machine comes to the turn that closes the element. -/
theorem leads_of_spells (hstop : cfg.stop ≤ cfg.pattern.length)
    (h : Spells cfg { s with repeating := false } e) (hpos : s.position ≠ cfg.text.size) :
    ∃ t, Leads cfg s t ∧ step cfg t = close cfg e := by
  generalize hs : { s with repeating := false } = marked at h
  induction h generalizing s with
  | @element marked e hcursor hread =>
    subst hs
    refine ⟨s, Leads.refl cfg s, ?_⟩
    rw [step, if_neg (Nat.not_le_of_lt hcursor), if_neg hpos, hread]
  | @skip marked s' e hcursor hread h ih =>
    subst hs
    obtain ⟨-, hposition, hrepeating⟩ :=
      (skips_of_read (Nat.lt_of_lt_of_le hcursor hstop) hread).forward
    have hnext : step cfg s = .next s' := by
      rw [step, if_neg (Nat.not_le_of_lt hcursor), if_neg hpos, hread]
    have hsame : { s' with repeating := false } = s' := by
      cases s'
      simp_all
    obtain ⟨t, hleads, hclose⟩ := ih (by rw [hposition]; exact hpos) hsame
    exact ⟨t, (leads_of_step hnext).trans hleads, hclose⟩

/-- A probe answers whether the element accepts that it spells. -/
theorem probeFrom_of_spells (hstop : cfg.stop ≤ cfg.pattern.length) (h : Spells cfg s e)
    (hpos : s.position ≠ cfg.text.size) {n : Nat} (hn : e.cursor ≤ s.cursor + n) :
    probeFrom cfg n s = some e.accepts := by
  induction h generalizing n with
  | @element s e hcursor hread =>
    have hlt := lt_cursor_of_spells hstop (.element hcursor hread)
    obtain ⟨n, rfl⟩ : ∃ k, n = k + 1 := ⟨n - 1, by omega⟩
    rw [probeFrom, if_neg (by simp [hpos, hcursor]), hread]
  | @skip s s' e hcursor hread h ih =>
    have hlt := lt_cursor_of_spells hstop h
    obtain ⟨hforward, hposition, -⟩ :=
      (skips_of_read (Nat.lt_of_lt_of_le hcursor hstop) hread).forward
    obtain ⟨n, rfl⟩ : ∃ k, n = k + 1 := ⟨n - 1, by omega⟩
    rw [probeFrom, if_neg (by simp [hpos, hcursor]), hread]
    exact ih (hposition ▸ hpos) (by omega)

/-! ## The start of a template -/

/-- The cursor behind the anchor at the start. -/
def Template.lead (p : Template) : Nat := if p.anchored then 1 else 0

/-- What stays the same while a template is matched. -/
def Template.setting (p : Template) (t : Text) (offset : Nat) : Setting where
  pattern := p.source
  text := t
  stop := p.lead + (sourceOf p.items).length
  toEnd := p.toEnd
  returnLimit := (p.source.length + 1) * (t.size - offset + 1)

theorem Template.drop_lead (p : Template) :
    p.source.drop p.lead = sourceOf p.items ++ anchorTail p.toEnd := by
  cases h : p.anchored <;> simp [Template.source, Template.lead, h]

theorem Template.length_source (p : Template) :
    p.source.length = p.lead + (sourceOf p.items).length + (anchorTail p.toEnd).length := by
  have hlead : (if p.anchored then [caret] else []).length = p.lead := by
    cases h : p.anchored <;> simp [Template.lead, h]
  rw [Template.source, List.length_append, List.length_append, hlead]

/-- Where a match stops reading lies in the pattern. -/
theorem Template.stop_setting_le (p : Template) (t : Text) (offset : Nat) :
    (p.setting t offset).stop ≤ p.source.length := by
  rw [p.length_source]
  exact Nat.le_add_right _ _

/-- A `^` stands at the start of an anchored template alone. -/
theorem Template.byteAt_zero_eq_caret_iff (p : Template) :
    p.source.byteAt 0 = caret ↔ p.anchored = true := by
  cases h : p.anchored with
  | true => simp [Template.source, h, Source.byteAt]
  | false =>
    have hbegin := begins_or_eq_dollar_of_drop
      (show p.source.drop 0 = sourceOf p.items ++ anchorTail p.toEnd by
        simp [Template.source, h])
    rcases hbegin with hzero | hdollar | hbegins
    · simp [hzero, caret]
    · simp [hdollar, caret, dollar]
    · have hne : p.source.byteAt 0 ≠ caret := by
        simp only [begins, Bool.and_eq_true, bne_iff_ne] at hbegins
        exact hbegins.1
      simp [hne]

theorem Source.byteAt_pred_length (p : Source) : p.byteAt (p.length - 1) = p.getLast?.getD 0 := by
  rw [Source.byteAt, List.getD_eq_getElem?_getD, List.getLast?_eq_getElem?]

/-- A final `$` is the anchor at the end, and none of the parts. -/
theorem Template.anchoredAtEnd_iff (p : Template) :
    (p.lead < p.source.length ∧ p.source.byteAt (p.source.length - 1) = dollar) ↔
      p.toEnd = true := by
  rw [Source.byteAt_pred_length, Template.length_source]
  cases h : p.toEnd with
  | true =>
    have hlast : p.source.getLast? = some dollar := by
      rw [Template.source, h, List.getLast?_append]
      rfl
    have hlength : (anchorTail true).length = 1 := rfl
    exact iff_of_true ⟨by omega, by rw [hlast]; rfl⟩ rfl
  | false =>
    refine ⟨fun ⟨hlt, hbyte⟩ => ?_, fun hfalse => absurd hfalse (by simp)⟩
    have hne : sourceOf p.items ≠ [] := by
      intro hnil
      simp [hnil, anchorTail] at hlt
    obtain ⟨last, hitems⟩ := Option.isSome_iff_exists.mp (List.getLast?_isSome.mpr hne)
    have hlast : p.source.getLast? = some last := by
      rw [Template.source, h, anchorTail, if_neg Bool.false_ne_true, List.append_nil,
        List.getLast?_append, hitems]
      rfl
    rw [hlast, Option.getD_some] at hbyte
    exact absurd (getLast?_sourceOf (hbyte ▸ hitems)) (p.endsPlain h)

/-- **A match of a template begins behind its anchor**, and its parts lie between the cursor and the
end of the pattern. -/
theorem Template.start_eq (p : Template) {t : Text} {offset : Nat} (hoffset : offset ≤ t.size)
    (hanchor : (p.anchored && offset != 0) = false) :
    start p.source t offset = .ready (p.setting t offset) (atStart p.lead offset) := by
  have hcaret : (p.source.byteAt 0 == caret) = p.anchored := by
    rw [Bool.eq_iff_iff, beq_iff_eq]
    exact p.byteAt_zero_eq_caret_iff
  have htoEnd : (decide (p.lead < p.source.length) &&
      p.source.byteAt (p.source.length - 1) == dollar) = p.toEnd := by
    rw [Bool.eq_iff_iff, Bool.and_eq_true, decide_eq_true_eq, beq_iff_eq]
    exact p.anchoredAtEnd_iff
  have hstop : (if p.toEnd then p.source.length - 1 else p.source.length) =
      p.lead + (sourceOf p.items).length := by
    rw [p.length_source]
    cases p.toEnd <;> simp [anchorTail]
  rw [start, if_neg (Nat.not_lt_of_le hoffset)]
  dsimp only
  rw [hcaret, hanchor, if_neg Bool.false_ne_true]
  have hlead : (if p.anchored = true then 1 else 0) = p.lead := rfl
  rw [hlead, htoEnd, hstop]
  rfl

/-! ## Looking ahead -/

/-- A probe of consecutive parts asks the first one that accepts anything. -/
theorem probeFrom_sourceOf {items : List Item} {c : UInt8} {n : Nat}
    (hpattern : cfg.stop ≤ cfg.pattern.length)
    (hat : cfg.pattern.drop s.cursor = sourceOf items ++ anchorTail cfg.toEnd)
    (hstop : s.cursor + (sourceOf items).length = cfg.stop)
    (hset : s.inSet = false) (hacc : s.accepts = false) (hinv : s.inverted = false)
    (hc : cfg.text[s.position]? = some c) (hn : cfg.stop < s.cursor + n) :
    probeFrom cfg n s = some (nextAccepts items c) := by
  have hpos : s.position ≠ cfg.text.size := by
    have hlt := (Array.getElem?_eq_some_iff.mp hc).1
    omega
  have hnotInv : ∀ b : Bool, s.inverted = true → b = true := by simp [hinv]
  induction items generalizing s n with
  | nil =>
    obtain ⟨n, rfl⟩ : ∃ k, n = k + 1 := ⟨n - 1, by simp at hstop; omega⟩
    have hend : cfg.stop ≤ s.cursor := by simp [← hstop]
    rw [probeFrom, if_pos (by simp [hend])]
    rfl
  | cons i rest ih =>
    rw [sourceOf_cons, List.append_assoc] at hat
    rw [sourceOf_cons, List.length_append] at hstop
    have hlt : s.cursor < cfg.stop := by
      have hsource := i.length_source_pos
      omega
    obtain ⟨n, rfl⟩ : ∃ k, n = k + 1 := ⟨n - 1, by omega⟩
    have hbehind := Source.drop_add_of_drop hat
    cases i with
    | openGroup =>
      have hbyte : cfg.pattern.byteAt s.cursor = LuaPattern.openGroup :=
        Source.byteAt_eq_of_drop hat
      rw [probeFrom, if_neg (by simp [hpos, hlt]), read_openGroup hset hbyte]
      exact ih hbehind (by simpa [Item.source, Nat.add_assoc] using hstop) hset hacc hinv hc
        (by simp only; omega) hpos hnotInv
    | closeGroup =>
      have hbyte : cfg.pattern.byteAt s.cursor = LuaPattern.closeGroup :=
        Source.byteAt_eq_of_drop hat
      rw [probeFrom, if_neg (by simp [hpos, hlt]), read_closeGroup hset hbyte]
      exact ih hbehind (by simpa [Item.source, Nat.add_assoc] using hstop) hset hacc hinv hc
        (by simp only; omega) hpos hnotInv
    | frontier b =>
      have hlen : b.source.length + 2 = (Item.frontier b).source.length := rfl
      rw [probeFrom, if_neg (by simp [hpos, hlt]), read_frontier hset hat hc]
      have hspells := spells_bracket (s := { s with
          elementStart := s.cursor
          frontier := some (s.cursor, s.position)
          cursor := s.cursor + 2 })
        b hset hacc (hnotInv _)
        (Source.drop_succ_of_drop (Source.drop_succ_of_drop hat)) rfl (by simp only; omega) hc
      exact probeFrom_of_spells hpattern hspells hpos (by simp only; omega)
    | element a q =>
      have hatom : cfg.pattern.drop s.cursor =
          a.source ++ (q.source ++ (sourceOf rest ++ anchorTail cfg.toEnd)) := by
        rw [hat, Item.source, List.append_assoc]
      have hlen : (Item.element a q).source.length = a.source.length + q.source.length :=
        List.length_append
      have hspells := spells_atom a hset hacc (hnotInv _) hatom rfl (by omega) hc
      exact probeFrom_of_spells hpattern hspells hpos (by simp only; omega)

/-- **A probe asks the first part that accepts anything**, whether it accepts the character at
hand. -/
theorem probe_sourceOf {items : List Item} {toEnd : Bool} {t : Text} {p : Nat} {c : UInt8}
    (hplain : EndsPlain toEnd items) (hc : t[p]? = some c) :
    probe (sourceOf items ++ anchorTail toEnd) t p = some (nextAccepts items c) := by
  have hle : p ≤ t.size := Nat.le_of_lt (Array.getElem?_eq_some_iff.mp hc).1
  let whole : Template := ⟨false, items, toEnd, hplain⟩
  have hstart : start (sourceOf items ++ anchorTail toEnd) t p =
      .ready (whole.setting t p) (atStart 0 p) := whole.start_eq hle rfl
  have hlen : (sourceOf items ++ anchorTail toEnd).length =
      (sourceOf items).length + (anchorTail toEnd).length := List.length_append
  have hstop : (whole.setting t p).stop = (sourceOf items).length := Nat.zero_add _
  have hpattern : (whole.setting t p).stop ≤ (sourceOf items ++ anchorTail toEnd).length := by
    omega
  rw [probe, hstart]
  exact probeFrom_sourceOf hpattern whole.drop_lead rfl rfl rfl rfl hc (by
    simp only [hstop, hlen, atStart]
    omega)

end LuaPattern
end Linewise
