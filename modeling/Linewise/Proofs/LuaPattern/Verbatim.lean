import Linewise.Proofs.LuaPattern.Exactness
import Linewise.Proofs.Text.Encoded

/-!
# Patterns that stand for themselves

A pattern without any meaning of its own is a word that the text should begin with. Each of its
bytes is written as it is, if it is none of those that carry a meaning, or behind a `%`, if it is
neither a letter nor a digit (`Writes`).

## 1.  Bytes that stand for themselves

What the machine takes from the pattern for one byte of the word (`Writes.exists_read`), that none
of these bytes is taken for a quantifier or an anchor at the start, and that at the end of the text
nothing of a word can be left out (`Writes.optionalCloses?_take`).

## 2.  Reading a word

The pattern advances by bytes and the text by characters: `verbatim?` is where this ends. It is what
the machine answers with (`boundariesAt?_of_writes`), up to one thing. A final `$` is an anchor,
also where a `%` stands in front of it; it is read all the same, so that a word which ends in a `$`
has to end with the text.

## 3.  Words in a text

A word of ASCII bytes is found where its bytes stand (`verbatim?_of_ascii`). Any other word of a
string has a byte from the inside of a character, and none of these bytes is ever looked at in the
text, so such a word is found nowhere (`verbatim?_of_isContinuation`).

## 4.  Words of ordinary characters

`boundariesAt?_word_iff` says of a string without bytes that carry a meaning where it is found
exactly where it stands: wherever it is made of ASCII characters, or does not stand.
-/

namespace Linewise
namespace LuaPattern

variable {cfg : Setting} {s s' : State} {src : Source} {w : List UInt8} {b c : UInt8} {t : Text}
  {p : Nat}

/-! ## 1.  Bytes that stand for themselves -/

/-- A byte that stands for itself without a `%`. -/
def isOrdinary (b : UInt8) : Bool := b != 0 && !magicBytes.contains b

/-- A pattern stands for a word, byte by byte. -/
inductive Writes : Source → List UInt8 → Prop where
  /-- Nothing is left. -/
  | nil : Writes [] []
  /-- A byte on its own. -/
  | ordinary {src : Source} {w : List UInt8} {b : UInt8} (hb : isOrdinary b = true)
      (h : Writes src w) : Writes (b :: src) (b :: w)
  /-- A byte behind a `%`. -/
  | escaped {src : Source} {w : List UInt8} {b : UInt8} (hzero : b ≠ 0)
      (hb : Ascii.isAlnum b = false) (h : Writes src w) : Writes (percent :: b :: src) (b :: w)

theorem ne_of_isOrdinary {magic : UInt8} (h : isOrdinary b = true) (hmagic : magic ∈ magicBytes) :
    b ≠ magic := by
  rintro rfl
  simp [isOrdinary, hmagic] at h

theorem ne_zero_of_isOrdinary (h : isOrdinary b = true) : b ≠ 0 := by
  rintro rfl
  exact absurd h (by decide)

theorem isOrdinary_of_isPlain (h : isPlain b = true) : isOrdinary b = true := by
  have hzero := ne_zero_of_isPlain h
  rw [isPlain, Bool.and_eq_true] at h
  rw [isOrdinary, h.2, Bool.and_true, bne_iff_ne]
  exact hzero

theorem isLiteral_of_isOrdinary (h : isOrdinary b = true) : isLiteral b = true := by
  have hne : ∀ {magic}, magic ∈ magicBytes → b ≠ magic := ne_of_isOrdinary h
  have hzero := ne_zero_of_isOrdinary h
  have hdot : b ≠ dot := hne (by decide)
  have hpercent : b ≠ percent := hne (by decide)
  have hopenSet : b ≠ openSet := hne (by decide)
  have hcloseSet : b ≠ closeSet := hne (by decide)
  have hopenGroup : b ≠ openGroup := hne (by decide)
  have hcloseGroup : b ≠ closeGroup := hne (by decide)
  simp [isLiteral, *]

/-- A byte that is neither a letter nor a digit names no class and no frontier. -/
theorem toLower_of_not_isAlnum (h : Ascii.isAlnum b = false) : Ascii.toLower b = b := by
  simp only [Ascii.isAlnum, Ascii.isAlpha, Bool.or_eq_false_iff] at h
  rw [Ascii.toLower, h.1.2, if_neg Bool.false_ne_true]

theorem toLower_ne_of_not_isAlnum (h : Ascii.isAlnum b = false) :
    Ascii.toLower b ≠ frontierLetter := by
  rw [toLower_of_not_isAlnum h]
  rintro rfl
  exact absurd h (by decide)

/-- Behind a `%`, a byte that is neither a letter nor a digit accepts itself alone. -/
theorem classAccepts_of_not_isAlnum (h : Ascii.isAlnum b = false) (c : UInt8) :
    classAccepts b c = (b == c) := by
  have hne : ∀ letter, Ascii.isAlnum letter = true → b ≠ letter := by
    rintro letter hletter rfl
    exact absurd hletter (by simp [h])
  rw [classAccepts, toLower_of_not_isAlnum h]
  simp only [hne _ (show Ascii.isAlnum 0x61 = true by decide),
    hne _ (show Ascii.isAlnum 0x77 = true by decide),
    hne _ (show Ascii.isAlnum 0x6C = true by decide),
    hne _ (show Ascii.isAlnum 0x75 = true by decide),
    hne _ (show Ascii.isAlnum 0x64 = true by decide),
    hne _ (show Ascii.isAlnum 0x67 = true by decide),
    hne _ (show Ascii.isAlnum 0x63 = true by decide),
    hne _ (show Ascii.isAlnum 0x70 = true by decide),
    hne _ (show Ascii.isAlnum 0x73 = true by decide),
    hne _ (show Ascii.isAlnum 0x78 = true by decide),
    hne _ (show Ascii.isAlnum 0x7A = true by decide), if_false, if_true]

/-! ### The next byte -/

namespace Writes

/-- A word begins with no anchor, and no quantifier stands in it. -/
theorem head (h : Writes src w) (hhead : b ∈ src.head?) :
    b ≠ caret ∧ Source.isQuantifier b = false := by
  cases h with
  | nil => cases hhead
  | ordinary hb h =>
    cases hhead
    have hne : ∀ {magic}, magic ∈ magicBytes → b ≠ magic := ne_of_isOrdinary hb
    have hminus : b ≠ minus := hne (by decide)
    have hstar : b ≠ star := hne (by decide)
    have hplus : b ≠ plus := hne (by decide)
    have hquestion : b ≠ question := hne (by decide)
    exact ⟨hne (by decide), by simp [Source.isQuantifier, Source.isOptional, *]⟩
  | escaped hzero hb h =>
    cases hhead
    exact ⟨by decide, by decide⟩

theorem isQuantifier_byteAt {i : Nat} (h : Writes (cfg.pattern.drop i) w) :
    Source.isQuantifier (cfg.pattern.byteAt i) = false := by
  cases hget : cfg.pattern[i]? with
  | none =>
    rw [Source.byteAt, List.getD_eq_getElem?_getD, hget]
    rfl
  | some d =>
    rw [Source.byteAt, List.getD_eq_getElem?_getD, hget, Option.getD_some]
    exact (h.head (by rw [List.head?_drop, hget]; rfl)).2

/-- A word ends where its pattern does. -/
theorem getLast?_eq (h : Writes src w) : src.getLast? = w.getLast? := by
  induction h with
  | nil => rfl
  | ordinary hb h ih => rw [List.getLast?_cons, List.getLast?_cons, ih]
  | escaped hzero hb h ih =>
    rw [List.getLast?_cons, List.getLast?_cons, List.getLast?_cons, ih, Option.getD_some]

/-- **What the machine reads for one byte of a word**: an element that accepts this byte alone. -/
theorem exists_read (h : Writes (cfg.pattern.drop s.cursor) (b :: w)) (hset : s.inSet = false)
    (hinv : s.inverted = false) (hc : cfg.text[s.position]? = some c) :
    ∃ n, Writes (cfg.pattern.drop (s.cursor + n)) w ∧ s.cursor + n ≤ cfg.pattern.length ∧
      read cfg s =
        .element
          { s with elementStart := s.cursor, accepts := b == c, cursor := s.cursor + n } := by
  have hle : ∀ n, (cfg.pattern.drop s.cursor).length = n + 1 →
      s.cursor + (n + 1) ≤ cfg.pattern.length := by
    intro n hn
    rw [List.length_drop] at hn
    omega
  generalize hsrc : cfg.pattern.drop s.cursor = src at h
  cases h with
  | @ordinary src w b hb h =>
    refine ⟨1, ?_, ?_, read_literal hset hinv (Source.byteAt_eq_of_drop hsrc)
      (isLiteral_of_isOrdinary hb) hc⟩
    · rw [Source.drop_succ_of_drop hsrc]
      exact h
    · have := hle src.length (by rw [hsrc]; rfl)
      omega
  | @escaped src w b hzero hb h =>
    have hbyte := Source.byteAt_eq_of_drop hsrc
    have hread := readByte_percent (s := { s with elementStart := s.cursor }) hsrc hzero
      (toLower_ne_of_not_isAlnum hb) hc
    refine ⟨2, ?_, ?_, ?_⟩
    · rw [Source.drop_succ_of_drop (Source.drop_succ_of_drop hsrc)]
      exact h
    · have := hle (src.length + 1) (by rw [hsrc]; rfl)
      omega
    · rw [← classAccepts_of_not_isAlnum hb]
      exact read_eq_element hset hinv (by rw [hbyte]; decide) hread

end Writes

/-! ### Nothing can be left out -/

/-- At the end of the text a match fails if something is left that has to be taken. -/
theorem step_of_size (hlt : s.cursor < cfg.stop) (hpos : s.position = cfg.text.size)
    (hfinished : s.finished = false) (hretry : s.retry = none)
    (hrest : (remainder? cfg s).bind Source.tailCloses? = none) : step cfg s = .done .reject := by
  rw [step, if_neg (Nat.not_le_of_lt hlt), if_pos hpos, atEnd, hfinished, if_neg Bool.false_ne_true,
    hretry]
  simp only [exhausted, hrest]

theorem remainder?_of_not_repeating (h : s.repeating = false) :
    remainder? cfg s = some ((cfg.pattern.drop s.cursor).take (cfg.stop - s.cursor)) := by
  rw [remainder?, h, if_neg Bool.false_ne_true, List.drop_take]

namespace Writes

/-- **At the end of the text nothing of a word can be left out**, also where its pattern is cut. -/
theorem optionalCloses?_take (h : Writes src (b :: w)) {n : Nat} (hn : 0 < n) (m : Nat) :
    Source.optionalCloses? m (src.take n) = none := by
  obtain ⟨n, rfl⟩ : ∃ k, n = k + 1 := ⟨n - 1, by omega⟩
  have hhead : ∀ {more : Source} {m : Nat}, Writes more w → ∀ q ∈ (more.take m).head?,
      Source.isQuantifier q = false := by
    intro more m hmore q hq
    rw [List.head?_take] at hq
    split at hq
    · cases hq
    · exact (hmore.head hq).2
  cases h with
  | @ordinary src w b hb h =>
    have hne : ∀ {magic}, magic ∈ magicBytes → b ≠ magic := ne_of_isOrdinary hb
    have helement : Source.Element [b] :=
      .byte (hne (by decide)) (hne (by decide)) (hne (by decide)) (hne (by decide))
    rw [List.take_succ_cons]
    exact helement.optionalCloses?_eq_none (hhead h) m
  | @escaped src w b hzero hb h =>
    rw [List.take_succ_cons]
    cases n with
    | zero => cases m <;> rfl
    | succ n =>
      have helement : Source.Element [percent, b] := .escape (toLower_ne_of_not_isAlnum hb)
      rw [List.take_succ_cons]
      exact helement.optionalCloses?_eq_none (hhead h) m

end Writes

/-! ## 2.  Reading a word -/

/-- Where a word ends whose bytes are compared with the characters of a text from `p` on, one with
the first byte of each. -/
def verbatim? (t : Text) : List UInt8 → Nat → Option Nat
  | [], p => some p
  | b :: w, p => if t[p]? = some b then verbatim? t w (t.charStart (p + 1)) else none

/-- The end of a match as its only boundary. With a final `$` it has to be the end of the text. -/
def endingAt (t : Text) (toEnd : Bool) (stop : Nat) : Option (List Nat) :=
  if toEnd && stop ≠ t.size then none else some [stop]

/-- What is cut off of a pattern is a final `$`. -/
structure CutAtDollar (cfg : Setting) : Prop where
  /-- It is one byte, or nothing. -/
  length_eq : cfg.pattern.length = cfg.stop + if cfg.toEnd then 1 else 0
  /-- It is a `$`. -/
  getLast?_eq : cfg.toEnd = true → cfg.pattern.getLast? = some dollar

/-- The cursor stands in front of a word, with which the pattern ends. -/
structure Spelled (cfg : Setting) (w : List UInt8) (s : State) : Prop extends Fresh s where
  /-- The bytes of the word. -/
  writes : Writes (cfg.pattern.drop s.cursor) w
  /-- The cursor stands in the pattern. -/
  cursor_le : s.cursor ≤ cfg.pattern.length
  /-- The position lies in the text. -/
  position_le : s.position ≤ cfg.text.size
  /-- Nothing is remembered. -/
  retry : s.retry = none
  /-- Only behind the word it is finished. -/
  finished : s.finished = true → w = []

/-! ### One byte -/

/-- An element is closed where no frontier waits and no quantifier stands behind it. -/
theorem close_of_plain {e : State} (hfrontier : e.frontier = none)
    (hplain : Source.isQuantifier (cfg.pattern.byteAt e.cursor) = false) :
    close cfg e =
      let counted :=
        { e with
          count := if e.accepts then e.count + 1 else e.count
          accepts := false
          finished := e.cursor = cfg.stop }
      if e.accepts && belowLimit counted.count e.most then again cfg counted false
      else settle cfg counted e.accepts := by
  have hpass : passFrontier cfg (tally e) = .next (tally e) := by
    have hnone : (tally e).frontier = none := hfrontier
    rw [passFrontier, hnone]
  have htake := takeQuantifier_of_not_isQuantifier (s := tally e) hplain
  have hquantify : quantify cfg (tally e) =
      { tally e with finished := decide (e.cursor = cfg.stop) } := by
    rw [quantify, htake]
    rfl
  rw [close_of_passes hpass, hquantify, htake]
  rfl

/-- An element that is taken once is settled. -/
theorem close_of_once {e : State} (hfrontier : e.frontier = none)
    (hplain : Source.isQuantifier (cfg.pattern.byteAt e.cursor) = false) (hmost : e.most = some 1)
    (hcount : e.count = 0) :
    close cfg e =
      settle cfg
        { e with
          count := if e.accepts then 1 else 0
          accepts := false
          finished := e.cursor = cfg.stop }
        e.accepts := by
  rw [close_of_plain hfrontier hplain, hmost, hcount]
  cases e.accepts <;> rfl

/-- In front of a byte of the word the pattern has not ended. -/
theorem CutAtDollar.lt_stop (hcut : CutAtDollar cfg) {i : Nat}
    (h : Writes (cfg.pattern.drop i) (b :: w)) : i < cfg.stop := by
  have hlength := hcut.length_eq
  have hdrop : (cfg.pattern.drop i).length = cfg.pattern.length - i := List.length_drop
  generalize hsrc : cfg.pattern.drop i = src at h hdrop
  cases h with
  | @ordinary src w b hb h =>
    rw [List.length_cons] at hdrop
    rcases Nat.lt_or_ge i cfg.stop with hlt | hge
    · exact hlt
    · -- the byte would be the last one, which is the `$`
      have htoEnd : cfg.toEnd = true := by
        by_contra hopen
        rw [if_neg hopen] at hlength
        omega
      rw [if_pos htoEnd] at hlength
      have hnil : src = [] := List.eq_nil_of_length_eq_zero (by omega)
      have hlast : cfg.pattern.getLast? = some b := by
        rw [← List.take_append_drop i cfg.pattern, hsrc, hnil, List.getLast?_append]
        rfl
      rw [hcut.getLast?_eq htoEnd] at hlast
      exact absurd (Option.some.inj hlast).symm (ne_of_isOrdinary hb (by decide))
  | @escaped src w b hzero hb h =>
    simp only [List.length_cons] at hdrop
    split at hlength <;> omega

namespace Spelled

theorem step_settle (hcut : CutAtDollar cfg) (h : Spelled cfg (b :: w) s)
    (hc : cfg.text[s.position]? = some c) :
    ∃ n, Writes (cfg.pattern.drop (s.cursor + n)) w ∧ s.cursor + n ≤ cfg.pattern.length ∧
      step cfg s =
        settle cfg
          { s with
            repeating := false
            elementStart := s.cursor
            cursor := s.cursor + n
            count := if b = c then 1 else 0
            finished := s.cursor + n = cfg.stop }
          (b == c) := by
  have hpos : s.position ≠ cfg.text.size := Nat.ne_of_lt (Array.getElem?_eq_some_iff.mp hc).1
  obtain ⟨n, hwrites, hle, hread⟩ := Writes.exists_read
    (s := { s with repeating := false }) h.writes h.inSet h.inverted hc
  have hclose := close_of_once
    (e := { s with
      repeating := false, elementStart := s.cursor, accepts := b == c, cursor := s.cursor + n })
    h.frontier hwrites.isQuantifier_byteAt h.most h.count
  refine ⟨n, hwrites, hle, ?_⟩
  rw [step, if_neg (Nat.not_le_of_lt (hcut.lt_stop h.writes)), if_neg hpos, hread]
  exact hclose.trans (by simp [h.accepts])

/-- A byte of the word is passed where it begins the next character. -/
theorem step_of_eq (hcut : CutAtDollar cfg) (h : Spelled cfg (b :: w) s)
    (hc : cfg.text[s.position]? = some b) :
    ∃ s', step cfg s = .next s' ∧ Spelled cfg w s' ∧
      s'.position = cfg.text.charStart (s.position + 1) ∧ s'.closes = s.closes := by
  have hlt : s.position < cfg.text.size := (Array.getElem?_eq_some_iff.mp hc).1
  obtain ⟨n, hwrites, hle, hstep⟩ := h.step_settle hcut hc
  rw [beq_self_eq_true, if_pos rfl, settle_of_taken (by simp [h.least])
    (by simp [h.most, aboveLimit]) Nat.one_pos] at hstep
  refine ⟨_, hstep, ?_, ?_, rfl⟩
  · exact
      { inSet := h.inSet
        accepts := h.accepts
        frontier := h.frontier
        rewound := rfl
        inverted := rfl
        least := rfl
        most := rfl
        count := rfl
        repeating := rfl
        writes := hwrites
        cursor_le := hle
        position_le := by
          simp only [settled, advance, h.rewound, Bool.false_eq_true, if_false]
          exact Text.charStart_le_size hlt
        retry := h.retry
        finished := fun hend => by
          cases w with
          | nil => rfl
          | cons d w =>
            exact absurd (of_decide_eq_true hend) (Nat.ne_of_lt (hcut.lt_stop hwrites)) }
  · simp [settled, advance, h.rewound]

/-- Anywhere else the match ends there. -/
theorem step_of_ne (hcut : CutAtDollar cfg) (h : Spelled cfg (b :: w) s)
    (hc : cfg.text[s.position]? = some c) (hne : b ≠ c) : step cfg s = .done .reject := by
  obtain ⟨n, -, -, hstep⟩ := h.step_settle hcut hc
  rw [hstep, if_neg hne]
  exact settle_of_lt (by simp [h.least])

/-- At the end of the text a word that is left does not match. -/
theorem step_of_size (hcut : CutAtDollar cfg) (h : Spelled cfg (b :: w) s)
    (hpos : s.position = cfg.text.size) : step cfg s = .done .reject := by
  have hlt := hcut.lt_stop h.writes
  have hfinished : s.finished = false := by
    cases hs : s.finished with
    | false => rfl
    | true => cases h.finished hs
  refine LuaPattern.step_of_size hlt hpos hfinished h.retry ?_
  rw [remainder?_of_not_repeating h.repeating, Option.bind_some]
  exact h.writes.optionalCloses?_take (Nat.sub_pos_of_lt hlt) _

/-- Behind the word the match ends. -/
theorem step_nil (hcut : CutAtDollar cfg) (h : Spelled cfg [] s) :
    step cfg s = .done (verdictOn s.closes (endingAt cfg.text cfg.toEnd s.position)) := by
  have hend : cfg.pattern.length ≤ s.cursor := by
    have hwrites := h.writes
    generalize hsrc : cfg.pattern.drop s.cursor = src at hwrites
    cases hwrites
    exact List.drop_eq_nil_iff.mp hsrc
  have hstop : cfg.stop ≤ s.cursor := by
    have hlength := hcut.length_eq
    omega
  rw [step, if_pos hstop, conclude, endingAt]
  split <;> rfl

/-- **A match of a word ends where the word does**, read from the position on. -/
theorem concludes (hcut : CutAtDollar cfg) (h : Spelled cfg w s) :
    Concludes cfg s
      (verdictOn s.closes
        ((verbatim? cfg.text w s.position).bind (endingAt cfg.text cfg.toEnd))) := by
  induction w generalizing s with
  | nil => exact concludes_of_step (h.step_nil hcut)
  | cons b w ih =>
    rw [verbatim?]
    split
    · next hc =>
      obtain ⟨s', hstep, hspelled, hposition, hcloses⟩ := h.step_of_eq hcut hc
      have hrest := ih hspelled
      rw [hposition, hcloses] at hrest
      exact (leads_of_step hstep).concludes hrest
    · next hc =>
      have hreject : step cfg s = .done .reject := by
        rcases Nat.eq_or_lt_of_le h.position_le with hpos | hlt
        · exact h.step_of_size hcut hpos
        · have hc' : cfg.text[s.position]? = some cfg.text[s.position] :=
            Array.getElem?_eq_getElem hlt
          exact h.step_of_ne hcut hc' fun heq => hc (heq ▸ hc')
      exact concludes_of_step hreject

end Spelled

/-! ### The whole match -/

/-- What stays the same while a pattern without an anchor at the start is matched. -/
def settingOf (src : Source) (t : Text) (p : Nat) : Setting where
  pattern := src
  text := t
  stop := if src.getLast? == some dollar then src.length - 1 else src.length
  toEnd := src.getLast? == some dollar
  returnLimit := (src.length + 1) * (t.size - p + 1)

/-- A pattern is read to its end, and a match may end anywhere. -/
structure Unanchored (cfg : Setting) : Prop where
  /-- Nothing is cut off. -/
  stop_eq : cfg.stop = cfg.pattern.length
  /-- There is no anchor. -/
  toEnd : cfg.toEnd = false

theorem Unanchored.cutAtDollar (h : Unanchored cfg) : CutAtDollar cfg where
  length_eq := by rw [h.stop_eq, h.toEnd]; rfl
  getLast?_eq := fun hend => absurd (h.toEnd.symm.trans hend) Bool.false_ne_true

theorem start_of_ne_caret (hcaret : src.byteAt 0 ≠ caret) (hp : p ≤ t.size) :
    start src t p = .ready (settingOf src t p) (atStart 0 p) := by
  have htoEnd : (decide (0 < src.length) && src.byteAt (src.length - 1) == dollar) =
      (src.getLast? == some dollar) := by
    rw [Source.byteAt_pred_length]
    cases hlast : src.getLast? with
    | none => simp [dollar]
    | some d =>
      have hne : src ≠ [] := by
        rintro rfl
        cases hlast
      simp [List.length_pos_of_ne_nil hne]
  rw [start, if_neg (Nat.not_lt_of_le hp)]
  simp only [beq_false_of_ne hcaret, Bool.false_and, Bool.false_eq_true, if_false, htoEnd]
  rfl

theorem cutAtDollar_settingOf (src : Source) (t : Text) (p : Nat) :
    CutAtDollar (settingOf src t p) where
  length_eq := by
    cases src with
    | nil => rfl
    | cons b src =>
      rw [settingOf]
      cases (b :: src).getLast? == some dollar <;> rfl
  getLast?_eq := fun hend => beq_iff_eq.mp hend

theorem unanchored_settingOf (hlast : src.getLast? ≠ some dollar) (t : Text) (p : Nat) :
    Unanchored (settingOf src t p) := by
  have htoEnd : (src.getLast? == some dollar) = false := beq_false_of_ne hlast
  exact ⟨by rw [settingOf, htoEnd]; rfl, htoEnd⟩

/-- Where a pattern without an anchor is used up, it matches. -/
theorem Unanchored.step_eq (h : Unanchored cfg) (hcursor : cfg.pattern.length ≤ s.cursor) :
    step cfg s = .done (.accept (s.closes ++ [s.position])) := by
  rw [step, if_pos (by rw [h.stop_eq]; exact hcursor), conclude, h.toEnd]
  rfl

theorem fresh_atStart (cursor p : Nat) : Fresh (atStart cursor p) where
  inSet := rfl
  accepts := rfl
  frontier := rfl
  rewound := rfl
  inverted := rfl
  least := rfl
  most := rfl
  count := rfl
  repeating := rfl

/-- **A word matches where it is read**, and where it has to be the end of the text if its last byte
is a `$`. -/
theorem boundariesAt?_of_writes (h : Writes src w) (hp : p ≤ t.size) :
    boundariesAt? src t p =
      (verbatim? t w p).bind (endingAt t (w.getLast? == some dollar)) := by
  have hcaret : src.byteAt 0 ≠ caret := by
    cases src with
    | nil => exact show (0 : UInt8) ≠ caret by decide
    | cons b src => exact (h.head (b := b) rfl).1
  have hspelled : Spelled (settingOf src t p) w (atStart 0 p) :=
    { fresh_atStart 0 p with
      writes := h
      cursor_le := Nat.zero_le _
      position_le := hp
      retry := rfl
      finished := fun hend => absurd hend Bool.false_ne_true }
  rw [← h.getLast?_eq]
  exact boundariesAt?_of_concludes (start_of_ne_caret hcaret hp)
    (hspelled.concludes (cutAtDollar_settingOf src t p))

/-! ## 3.  Words in a text -/

/-- **A word of whole characters** is read where its bytes stand. -/
theorem verbatim?_of_ascii (ht : t.Encoded) (hascii : Ascii.All w) (p : Nat) :
    verbatim? t w p = if w <+: t.toList.drop p then some (p + w.length) else none := by
  induction w generalizing p with
  | nil => simp [verbatim?]
  | cons b w ih =>
    obtain ⟨hb, hw⟩ := List.forall_mem_cons.mp hascii
    rw [verbatim?]
    cases hc : t[p]? with
    | none =>
      rw [Text.drop_toList_of_size_le (Array.getElem?_eq_none_iff.mp hc)]
      simp
    | some c =>
      rw [Text.drop_toList_of_getElem? hc]
      by_cases hbc : b = c
      · have hchar : t.AtChar (p + 1) := ht.atChar_succ hc (hbc ▸ hb)
        rw [Text.charStart_of_atChar hchar, ih hw]
        simp [hbc, Nat.add_assoc, Nat.add_comm 1]
      · simp [hbc, Ne.symm hbc]

/-- **A word with a byte from the inside of a character** is read nowhere: in the text only the
first byte of a character is looked at. -/
theorem verbatim?_of_isContinuation (hw : ∃ b ∈ w, Text.isContinuation b = true)
    (hchar : t.AtChar p) : verbatim? t w p = none := by
  induction w generalizing p with
  | nil => simp at hw
  | cons b w ih =>
    rw [verbatim?]
    split
    · next hc =>
      have hhead := hchar.not_continuation b hc
      refine ih ?_ (Text.atChar_charStart (Array.getElem?_eq_some_iff.mp hc).1)
      obtain ⟨d, hd, hcontinuation⟩ := hw
      rcases List.mem_cons.mp hd with rfl | hmem
      · exact absurd hhead (by simp [hcontinuation])
      · exact ⟨d, hmem, hcontinuation⟩
    · rfl

/-! ## 4.  Words of ordinary characters -/

/-- The characters that carry a meaning outside of sets. -/
def magicChars : List Char := ['^', '$', '(', ')', '%', '.', '[', ']', '*', '+', '-', '?']

/-- A string without `NUL` and without characters that carry a meaning. -/
def IsWord (w : String) : Prop := ∀ c ∈ w.toList, c ≠ '\x00' ∧ c ∉ magicChars

instance (w : String) : Decidable (IsWord w) :=
  List.decidableBAll _ w.toList

theorem isOrdinary_of_isWord {w : String} (h : IsWord w) :
    ∀ b ∈ (Text.ofString w).toList, isOrdinary b = true := by
  have hordinary : ∀ b : UInt8, (b < 0x80 → Char.ofNat b.toNat ≠ '\x00' ∧
      Char.ofNat b.toNat ∉ magicChars) → isOrdinary b = true := by
    rintro ⟨b⟩
    revert b
    decide
  exact fun b hb => hordinary b fun hlt => h _ (Text.ofNat_mem_of_mem_ofString hb hlt)

theorem writes_of_ordinary (h : ∀ b ∈ w, isOrdinary b = true) : Writes w w := by
  induction w with
  | nil => exact .nil
  | cons b w ih =>
    obtain ⟨hb, hw⟩ := List.forall_mem_cons.mp h
    exact .ordinary hb (ih hw)

/-- A word without an escape does not end in an anchor. -/
theorem boundariesAt?_of_ordinary (h : ∀ b ∈ w, isOrdinary b = true) (hp : p ≤ t.size) :
    boundariesAt? w t p = (verbatim? t w p).map fun stop => [stop] := by
  have hlast : (w.getLast? == some dollar) = false := by
    refine beq_false_of_ne fun hdollar => ?_
    exact absurd rfl (ne_of_isOrdinary (h _ (List.mem_of_getLast? hdollar))
      (show dollar ∈ magicBytes by decide))
  rw [boundariesAt?_of_writes (writes_of_ordinary h) hp, hlast]
  cases verbatim? t w p <;> rfl

/-- **A word of ordinary characters is found where it stands**, with its end as the only boundary,
if it is made of ASCII characters. A word with any other character is found nowhere: the pattern
advances by one byte where the text advances by a character. -/
theorem boundariesAt?_word_iff {w s : String} (hw : IsWord w)
    (hchar : (Text.ofString s).AtChar p) :
    boundariesAt? (Text.ofString w).toList (Text.ofString s) p =
        (if (Text.ofString w).toList <+: (Text.ofString s).toList.drop p then
          some [p + (Text.ofString w).size]
        else none) ↔
      Ascii.All (Text.ofString w).toList ∨
        ¬(Text.ofString w).toList <+: (Text.ofString s).toList.drop p := by
  rw [boundariesAt?_of_ordinary (isOrdinary_of_isWord hw) hchar.le_size]
  by_cases hascii : Ascii.All (Text.ofString w).toList
  · rw [verbatim?_of_ascii (Text.encoded_ofString s) hascii, Array.length_toList]
    refine iff_of_true ?_ (Or.inl hascii)
    split <;> rfl
  · rw [verbatim?_of_isContinuation (Text.exists_isContinuation_of_not_ascii hascii) hchar]
    by_cases hstands : (Text.ofString w).toList <+: (Text.ofString s).toList.drop p
    · rw [if_pos hstands]
      exact iff_of_false (Option.some_ne_none _).symm fun h => h.elim hascii fun h => h hstands
    · rw [if_neg hstands]
      exact iff_of_true rfl (Or.inr hstands)

theorem boundariesAt?_word_ab :
    IsWord "ab" ∧ (Text.ofString "éab").AtChar 2 ∧
      (boundariesAt? (Text.ofString "ab").toList (Text.ofString "éab") 2 =
          (if (Text.ofString "ab").toList <+: (Text.ofString "éab").toList.drop 2 then
            some [2 + (Text.ofString "ab").size]
          else none) ↔
        Ascii.All (Text.ofString "ab").toList ∨
          ¬(Text.ofString "ab").toList <+: (Text.ofString "éab").toList.drop 2) := by
  have hword : IsWord "ab" := by decide
  have hchar : (Text.ofString "éab").AtChar 2 := by
    refine ⟨by decide, fun c hc => ?_⟩
    cases hc
    rfl
  exact ⟨hword, hchar, boundariesAt?_word_iff hword hchar⟩

/-- **The pattern `é` does not match the text `é`.** Its first byte takes the whole character, and
no character is left for its second byte. -/
theorem not_found_accent :
    IsWord "é" ∧ (Text.ofString "é").AtChar 0 ∧
      (Text.ofString "é").toList <+: (Text.ofString "é").toList.drop 0 ∧
      boundariesAt? (Text.ofString "é").toList (Text.ofString "é") 0 = none ∧
      boundariesAt? (Text.ofString "é").toList (Text.ofString "é") 0 ≠ some [2] := by
  have hchar : (Text.ofString "é").AtChar 0 := (Text.encoded_ofString "é").atChar_zero
  have hnone : boundariesAt? (Text.ofString "é").toList (Text.ofString "é") 0 = none :=
    boundariesAt?_of_concludes rfl ⟨2, rfl, rfl⟩
  refine ⟨by decide, hchar, List.prefix_refl _, hnone, ?_⟩
  rw [hnone]
  exact (Option.some_ne_none _).symm

end LuaPattern
end Linewise
