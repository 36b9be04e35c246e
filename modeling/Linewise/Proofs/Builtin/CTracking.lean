import Linewise.Proofs.Builtin.CMode
import Linewise.Proofs.Text.Encoded
import Linewise.Proofs.Tokenizer.Resumption

/-!
# A scan tracks the modes of C

A grammar can be seen as one of C (`CView`) if its first four rules are line comments, block
comments, strings and character constants, and the rules behind them are tokens that take nothing
with which one of the four begins, except as their first byte. Nothing else is asked of the tokens.

## 1.  Fixed bytes

`Pattern.Finds` is about a pattern that matches fixed bytes, and `IsRegion` about a region that
begins and ends with them. Inside of such a region a step does what `CMode.inside` says.

## 2.  What enters

In code, the rule that enters is decided by the bytes ahead as in `CMode.turn` (`CView.enters`).
Only where the bytes ahead begin nothing, the tokens are asked, and only by a full pass.

## 3.  Steps

A scan tracks a mode if the carry is that of the mode (`Tracks`). Each step goes on to a mode from
which the rest of the line ends as it did before (`CView.tracks_step`), so the whole scan ends in
the mode in which the line ends. A full pass has to stay in front of characters while it is in code,
since only there it is known what a token takes. A quick pass does not: it skips bytes.

## 4.  Lines

A carry resumes to a mode, whatever it holds (`CView.exists_resume`), since nothing is nested and
only three rules close. From there, a line ends in the mode that its bytes lead to
(`CView.carry_line`).
-/

namespace Linewise

/-! ## 1.  Fixed bytes -/

/-- A pattern matches encoded text where these bytes stand, and takes them. -/
def Pattern.Finds (p : Pattern) (bytes : List UInt8) : Prop :=
  ∀ (t : Text) (offset : Nat), t.Encoded → offset < t.size → p.boundariesAt? t offset =
    if bytes <+: t.toList.drop offset then some [offset + bytes.length] else none

theorem Pattern.Finds.consumed?_eq {p : Pattern} {bytes : List UInt8} (h : p.Finds bytes)
    (hne : bytes ≠ []) {t : Text} (ht : t.Encoded) {offset : Nat} (hlt : offset < t.size) :
    consumed? p t offset =
      if bytes <+: t.toList.drop offset then some [offset + bytes.length] else none := by
  have hpos : 0 < bytes.length := List.length_pos_of_ne_nil hne
  rw [consumed?_eq_filter, h t offset ht hlt]
  split
  · simp [hpos]
  · rfl

/-- The segments of a match end at one of its boundaries, or take nothing. -/
theorem segments_eq_or_mem (g : Grammar) (r : Rule Grammar) (t : Text) (index last : Nat)
    (bounds : List Nat) : (segments g r t index last bounds).2 = last ∨
      (segments g r t index last bounds).2 ∈ bounds := by
  induction bounds generalizing index last with
  | nil => exact Or.inl rfl
  | cons bound bounds ih =>
    rw [segments]
    rcases ih (index + 1) (max bound last) with hstop | hmem
    · show (segments g r t (index + 1) (max bound last) bounds).2 = last ∨
        (segments g r t (index + 1) (max bound last) bounds).2 ∈ bound :: bounds
      rw [hstop]
      rcases Nat.le_total bound last with hle | hle
      · exact Or.inl (Nat.max_eq_right hle)
      · rw [Nat.max_eq_left hle]
        exact Or.inr List.mem_cons_self
    · exact Or.inr (List.mem_cons_of_mem _ hmem)

namespace Builtin

open CMode (code)

/-- A rule of a region that begins and ends with fixed bytes. -/
structure IsRegion (r : Rule Grammar) (opener closer : List UInt8) (escapes : Bool) : Prop where
  /-- It begins with these. -/
  enter : r.enter.Finds opener
  /-- It ends with these. -/
  close : ∃ p, r.close = some p ∧ p.Finds closer
  /-- A backslash keeps it open, if there are escapes. -/
  escape : Option.Rel Pattern.Finds r.escape (if escapes then some [backslash] else none)
  /-- Nothing is nested in it. -/
  nested : r.nested = none

variable {g : Grammar} {pass : Pass} {s : Scan} {r : Rule Grammar} {m : CMode}

theorem IsRegion.isSome_close {opener closer : List UInt8} {escapes : Bool}
    (hr : IsRegion r opener closer escapes) : r.close.isSome = true := by
  obtain ⟨p, hclose, -⟩ := hr.close
  rw [hclose]
  rfl

/-- An escape is found where there are escapes and a backslash stands. -/
theorem IsRegion.escape_eq {opener closer : List UInt8} {escapes : Bool}
    (hr : IsRegion r opener closer escapes) {t : Text} (ht : t.Encoded) {offset : Nat}
    (hlt : offset < t.size) : r.escape.bind (fun p => p.boundariesAt? t offset) =
      if escapes = true ∧ [backslash] <+: t.toList.drop offset then some [offset + 1]
      else none := by
  have hescape := hr.escape
  cases escapes with
  | false =>
    cases hcase : r.escape with
    | none => rfl
    | some p =>
      rw [hcase] at hescape
      cases hescape
  | true =>
    cases hcase : r.escape with
    | none =>
      rw [hcase] at hescape
      cases hescape
    | some p =>
      rw [hcase] at hescape
      cases hescape with
      | some hfinds => simpa using hfinds t offset ht hlt

/-- The end of the region is found where the closer stands. -/
theorem IsRegion.close_eq {opener closer : List UInt8} {escapes : Bool}
    (hr : IsRegion r opener closer escapes) (hne : closer ≠ []) {t : Text} (ht : t.Encoded)
    {offset : Nat} (hlt : offset < t.size) : r.close.bind (fun p => consumed? p t offset) =
      if closer <+: t.toList.drop offset then some [offset + closer.length] else none := by
  obtain ⟨p, hclose, hfinds⟩ := hr.close
  rw [hclose, Option.bind_some, hfinds.consumed?_eq hne ht hlt]

/-- **Inside of a region, a step does what the bytes ahead do to the mode.** It comes in front of a
character if it leaves the mode. -/
theorem IsRegion.inside_of_step {opener closer : List UInt8} {escapes : Bool}
    (hr : IsRegion r opener closer escapes) (hne : closer ≠ []) (hascii : Ascii.All closer)
    (ht : pass.text.Encoded) (hlt : s.offset < pass.text.size) (hpending : s.pending ≤ s.offset)
    (hstack : s.stack = .root g) (hcarry : s.carry = m.carry)
    (hopen : s.stack.openRule? s.carry = some r) :
    ∃ n m', m.inside closer escapes (pass.text.toList.drop s.offset) = some (n, m') ∧
      (s.step pass).1.stack = .root g ∧ (s.step pass).1.carry = m'.carry ∧
      (s.step pass).1.offset = min (s.offset + 1 + n) pass.text.size ∧
      (m' = m ∨ pass.text.AtChar (s.step pass).1.offset) := by
  have hle := (Scan.advances_step pass hpending hlt).offset_le
  rw [Scan.step_of_open hstack hopen, Scan.insideRegion_eq, hr.escape_eq ht hlt,
    hr.close_eq hne ht hlt] at *
  by_cases hescape : escapes = true ∧ [backslash] <+: pass.text.toList.drop s.offset
  · rw [if_pos hescape]
    refine ⟨1, m, by rw [CMode.inside, if_pos hescape], hstack, hcarry, ?_, Or.inl rfl⟩
    simp [matchEnd]
  rw [if_neg hescape] at *
  by_cases hclose : closer <+: pass.text.toList.drop s.offset
  · rw [if_pos hclose] at *
    have hpos : 0 < closer.length := List.length_pos_of_ne_nil hne
    have hstop : max (s.offset + closer.length) s.pending = s.offset + closer.length := by omega
    simp only [segments, hstop] at hle ⊢
    refine ⟨closer.length - 1, code, by rw [CMode.inside, if_neg hescape, if_pos hclose], hstack,
      ?_, by omega, Or.inr (ht.atChar_add_length hclose hne hascii)⟩
    rw [hstack, hcarry, Stack.depth_root, CMode.truncate_carry]
  · rw [if_neg hclose]
    refine ⟨0, m, by rw [CMode.inside, if_neg hescape, if_neg hclose], hstack, hcarry, ?_,
      Or.inl rfl⟩
    show s.offset + 1 = min (s.offset + 1 + 0) pass.text.size
    omega

/-! ## 2.  What enters -/

/-- A rule of a token that takes nothing with which a comment, a string or a character constant
begins, except as its first byte. -/
structure IsToken (r : Rule Grammar) : Prop where
  /-- It leaves nothing open. -/
  close : r.close = none
  /-- Nothing is nested in it. -/
  nested : r.nested = none
  /-- In front of a character, its matches end in front of characters, and take plain bytes behind
  the first one. -/
  plain : ∀ (t : Text) (offset : Nat) (bounds : List Nat), t.Encoded → t.AtChar offset →
    r.enter.boundariesAt? t offset = some bounds → ∀ b ∈ bounds, t.AtChar b ∧
      ∀ j c, offset < j → j < b → t[j]? = some c → CMode.isPlain c = true

/-- A grammar as one of C. -/
structure CView (g : Grammar) where
  /-- The rule of line comments. -/
  lineComment : Rule Grammar
  /-- The rule of block comments. -/
  comment : Rule Grammar
  /-- The rule of strings. -/
  string : Rule Grammar
  /-- The rule of character constants. -/
  char : Rule Grammar
  /-- The rules of tokens. -/
  tokens : List (Rule Grammar)
  /-- These are the rules, in order. -/
  rules_eq : g.rules = lineComment :: comment :: string :: char :: tokens
  /-- A line comment takes the rest of the line. -/
  lineComment_enter : ∀ (t : Text) (offset : Nat), t.Encoded → offset < t.size →
    lineComment.enter.boundariesAt? t offset =
      if [slash, slash] <+: t.toList.drop offset then some [t.size] else none
  /-- It leaves nothing open. -/
  lineComment_close : lineComment.close = none
  /-- Nothing is nested in it. -/
  lineComment_nested : lineComment.nested = none
  /-- Block comments. -/
  comment_isRegion : IsRegion comment [slash, asterisk] [asterisk, slash] false
  /-- Strings. -/
  string_isRegion : IsRegion string [doubleQuote] [doubleQuote] true
  /-- Character constants. -/
  char_isRegion : IsRegion char [apostrophe] [apostrophe] true
  /-- Tokens. -/
  isToken : ∀ r ∈ tokens, IsToken r
  /-- One of them takes the characters of more than one byte. -/
  exists_token : ∀ (t : Text) (offset : Nat) (c : UInt8), t.AtChar offset → t[offset]? = some c →
    0x80 ≤ c → ∃ r ∈ tokens, consumed? r.enter t offset ≠ none

namespace CView

/-- The region of a mode. -/
def region? (k : CView g) : CMode → Option (Rule Grammar)
  | .code => none
  | .comment => some k.comment
  | .string => some k.string
  | .char => some k.char

/-- What a pass tries where no comment, string or character constant begins. -/
def others (k : CView g) (quick : Bool) : List (Rule Grammar) := if quick then [] else k.tokens

/-- What can enter in code at an offset. -/
inductive Enters (k : CView g) (quick : Bool) (t : Text) (offset : Nat) :
    Option (Nat × Rule Grammar × List Nat) → Prop where
  /-- A line comment, which takes the rest of the line. -/
  | lineComment (hturn : code.turn (t.toList.drop offset) = none) :
      Enters k quick t offset (some (0, k.lineComment, [t.size]))
  /-- The region of another mode. -/
  | region {m : CMode} {i n : Nat} {r : Rule Grammar} (hi : m.index? = some i)
      (hr : k.region? m = some r) (hturn : code.turn (t.toList.drop offset) = some (n, m)) :
      Enters k quick t offset (some (i, r, [offset + 1 + n]))
  /-- A token, which only a full pass looks for. -/
  | token {i : Nat} {r : Rule Grammar} {bounds : List Nat}
      (hturn : code.turn (t.toList.drop offset) = some (0, code)) (hquick : quick = false)
      (hr : r ∈ k.tokens) (hmatch : consumed? r.enter t offset = some bounds) :
      Enters k quick t offset (some (i, r, bounds))
  /-- Nothing. -/
  | nothing (hturn : code.turn (t.toList.drop offset) = some (0, code))
      (hnone : ∀ r ∈ k.others quick, consumed? r.enter t offset = none) :
      Enters k quick t offset none

theorem statefulCount_eq (k : CView g) : g.statefulCount = 4 := by
  have hchar : g.rules[3]? = some k.char := by rw [k.rules_eq]; rfl
  have hstateful : k.char.isStateful = true :=
    Rule.isStateful_of_close k.char_isRegion.isSome_close
  refine Nat.le_antisymm (Rule.statefulCount_le fun i r hr hle => ?_)
    (Rule.lt_statefulCount hchar hstateful)
  have hmem : r ∈ k.tokens := by
    obtain ⟨i, rfl⟩ := Nat.exists_eq_add_of_le hle
    rw [k.rules_eq, Nat.add_comm] at hr
    exact List.mem_of_getElem? hr
  rw [Rule.isStateful, (k.isToken r hmem).close, (k.isToken r hmem).nested]
  rfl

theorem tried_eq (k : CView g) (hstack : s.stack = .root g) : s.tried pass =
    k.lineComment :: k.comment :: k.string :: k.char :: k.others pass.quick := by
  have hrules : s.stack.top.rules = k.lineComment :: k.comment :: k.string :: k.char :: k.tokens :=
    by rw [hstack, ← k.rules_eq]; rfl
  have hcount : s.stack.top.statefulCount = 4 := by rw [hstack]; exact k.statefulCount_eq
  rw [Scan.tried, others, hcount, hrules]
  cases pass.quick <;> rfl

theorem consumed?_lineComment (k : CView g) {t : Text} (ht : t.Encoded) {offset : Nat}
    (hlt : offset < t.size) : consumed? k.lineComment.enter t offset =
      if [slash, slash] <+: t.toList.drop offset then some [t.size] else none := by
  rw [consumed?_eq_filter, k.lineComment_enter t offset ht hlt]
  split
  · simp [hlt]
  · rfl

/-- **What enters in code is decided by the bytes ahead.** -/
theorem enters (k : CView g) (quick : Bool) {t : Text} (ht : t.Encoded) {offset : Nat}
    (hlt : offset < t.size) : k.Enters quick t offset
      (firstMatch? t offset 0
        (k.lineComment :: k.comment :: k.string :: k.char :: k.others quick)) := by
  have hline := k.consumed?_lineComment ht hlt
  have hcomment := k.comment_isRegion.enter.consumed?_eq (by simp) ht hlt
  have hstring := k.string_isRegion.enter.consumed?_eq (by simp) ht hlt
  have hchar := k.char_isRegion.enter.consumed?_eq (by simp) ht hlt
  simp only [firstMatch?_cons, hline, hcomment, hstring, hchar]
  -- the rules are tried in the order in which a turn looks for their bytes
  by_cases h0 : [slash, slash] <+: t.toList.drop offset
  · rw [if_pos h0]
    exact .lineComment (by rw [CMode.turn, if_pos h0])
  rw [if_neg h0]
  by_cases h1 : [slash, asterisk] <+: t.toList.drop offset
  · rw [if_pos h1]
    exact .region (m := .comment) rfl rfl (by rw [CMode.turn, if_neg h0, if_pos h1])
  rw [if_neg h1]
  by_cases h2 : [doubleQuote] <+: t.toList.drop offset
  · rw [if_pos h2]
    exact .region (m := .string) rfl rfl (by rw [CMode.turn, if_neg h0, if_neg h1, if_pos h2])
  rw [if_neg h2]
  by_cases h3 : [apostrophe] <+: t.toList.drop offset
  · rw [if_pos h3]
    exact .region (m := .char) rfl rfl
      (by rw [CMode.turn, if_neg h0, if_neg h1, if_neg h2, if_pos h3])
  rw [if_neg h3]
  have hturn : code.turn (t.toList.drop offset) = some (0, code) := by
    rw [CMode.turn, if_neg h0, if_neg h1, if_neg h2, if_neg h3]
  cases hrest : firstMatch? t offset (0 + 1 + 1 + 1 + 1) (k.others quick) with
  | none => exact .nothing hturn (consumed?_of_firstMatch?_eq_none hrest)
  | some found =>
    obtain ⟨i, r, bounds⟩ := found
    obtain ⟨hmatch, -, hr⟩ := firstMatch?_eq_some hrest
    cases quick with
    | true => cases hr
    | false => exact .token hturn rfl (List.mem_of_getElem? hr) hmatch

/-- The region of a mode is the rule that the carry of the mode names. -/
theorem region?_eq (k : CView g) (m : CMode) :
    k.region? m = m.index?.bind fun i => g.rules[i]? := by
  rw [k.rules_eq]
  cases m <;> rfl

theorem openRule?_eq (k : CView g) (m : CMode) :
    (Stack.root g).openRule? m.carry = k.region? m := by
  rw [Stack.openRule?, Stack.depth_root, CMode.active?_carry, k.region?_eq]
  rfl

/-- The rules of regions close, and nothing is nested in them. -/
theorem of_region? (k : CView g) (hr : k.region? m = some r) :
    r.close.isSome = true ∧ r.nested = none := by
  cases m with
  | code => cases hr
  | comment =>
    cases hr
    exact ⟨k.comment_isRegion.isSome_close, k.comment_isRegion.nested⟩
  | string =>
    cases hr
    exact ⟨k.string_isRegion.isSome_close, k.string_isRegion.nested⟩
  | char =>
    cases hr
    exact ⟨k.char_isRegion.isSome_close, k.char_isRegion.nested⟩

/-! ## 3.  Steps -/

/-- What is passed over where no rule matches has letters and digits behind its first byte. -/
theorem isAlnum_of_lt_skip {t : Text} {offset j : Nat} {c : UInt8} (hlt : offset < j)
    (hskip : j < Scan.skip t offset) (hc : t[j]? = some c) : Ascii.isAlnum c = true := by
  rw [Scan.skip] at hskip
  exact Text.of_lt_countWhile (t.size - offset) (Nat.le_of_lt hlt) (by omega) hc

/-- If its first byte is a whole character, so is its last one. -/
theorem atChar_skip {t : Text} (ht : t.Encoded) {offset : Nat} {c : UInt8}
    (hc : t[offset]? = some c) (hascii : c < 0x80) : t.AtChar (Scan.skip t offset) := by
  have hlt : offset < Scan.skip t offset := Scan.lt_skip t offset
  have hle : Scan.skip t offset ≤ t.size := Scan.skip_le (Array.getElem?_eq_some_iff.mp hc).1
  obtain ⟨last, hlast⟩ : ∃ last, Scan.skip t offset = last + 1 :=
    Nat.exists_eq_add_of_le' (Nat.zero_lt_of_lt hlt)
  rcases Nat.eq_or_lt_of_le (Nat.le_of_lt_succ (hlast ▸ hlt)) with rfl | hbehind
  · rw [hlast]
    exact ht.atChar_succ hc hascii
  · have hd := Array.getElem?_eq_getElem (show last < t.size by omega)
    have hword := isAlnum_of_lt_skip hbehind (by omega) hd
    rw [hlast]
    exact ht.atChar_succ hd (Ascii.lt_of_isAlnum hword)

end CView

/-- A scan of a grammar of C is in a mode. -/
structure Tracks (g : Grammar) (pass : Pass) (m : CMode) (s : Scan) : Prop where
  /-- No other grammar is open. -/
  stack : s.stack = .root g
  /-- The carry is that of the mode. -/
  carry : s.carry = m.carry
  /-- A full pass in code is in front of a character. -/
  atChar : pass.quick = false → m = code → pass.text.AtChar s.offset

/-- The rest of the line ends in the same mode, from the mode `m` at `p` and from the mode `m'` at
`q`. -/
def Continues (t : Text) (m : CMode) (p : Nat) (m' : CMode) (q : Nat) : Prop :=
  m.after (t.toList.drop p) = m'.after (t.toList.drop q)

namespace CView

/-- Nothing enters, and a word or a byte is passed over. -/
theorem tracks_skip (k : CView g) (ht : pass.text.Encoded) (hlt : s.offset < pass.text.size)
    (h : Tracks g pass code s)
    (hturn : code.turn (pass.text.toList.drop s.offset) = some (0, code))
    (hnone : ∀ r ∈ k.others pass.quick, consumed? r.enter pass.text s.offset = none) :
    Tracks g pass code { s with offset := Scan.skip pass.text s.offset } ∧
      Continues pass.text code s.offset code (Scan.skip pass.text s.offset) := by
  refine ⟨⟨h.stack, h.carry, fun hfull _ => ?_⟩,
    CMode.after_code_drop_of_turn hlt hturn (Scan.lt_skip _ _)
      fun j c hj hskip hc => CMode.isPlain_of_isAlnum (isAlnum_of_lt_skip hj hskip hc)⟩
  have hc := Array.getElem?_eq_getElem hlt
  refine atChar_skip ht hc (UInt8.not_le.mp fun hwide => ?_)
  -- a token takes each character of more than one byte
  obtain ⟨r, hr, hmatch⟩ := k.exists_token _ _ _ (h.atChar hfull rfl) hc hwide
  exact hmatch (hnone r (by rw [others, hfull]; exact hr))

/-- A region is entered. -/
theorem tracks_region {i n : Nat} (hlt : s.offset < pass.text.size) (h : Tracks g pass code s)
    (hi : m.index? = some i)
    (hturn : code.turn (pass.text.toList.drop s.offset) = some (n, m)) :
    Tracks g pass m
        { s with
          carry := s.carry.mark s.stack.depth i
          offset := matchEnd [s.offset + 1 + n] s.offset
          pending := s.offset } ∧
      Continues pass.text code s.offset m (matchEnd [s.offset + 1 + n] s.offset) := by
  have hend : matchEnd [s.offset + 1 + n] s.offset = s.offset + 1 + n := by
    simp [matchEnd, Nat.add_assoc]
  rw [hend]
  refine ⟨⟨h.stack, ?_, fun _ hcode => ?_⟩, CMode.after_drop_of_turn hlt hturn⟩
  · rw [h.stack, h.carry, Stack.depth_root, CMode.mark_carry hi]
  · rw [hcode] at hi
    cases hi

/-- A line comment takes the rest of the line. -/
theorem tracks_lineComment (hlt : s.offset < pass.text.size) (h : Tracks g pass code s)
    (hturn : code.turn (pass.text.toList.drop s.offset) = none) (pending : Nat) :
    Tracks g pass code { s with offset := pass.text.size, pending := pending } ∧
      Continues pass.text code s.offset code pass.text.size := by
  refine ⟨⟨h.stack, h.carry, fun _ _ => pass.text.atChar_size⟩, ?_⟩
  rw [Continues, CMode.after_drop_of_turn_eq_none hlt hturn,
    Text.drop_toList_of_size_le (Nat.le_refl _), CMode.after_nil]

/-- A token is taken. -/
theorem tracks_token {bounds : List Nat} {stop : Nat} (ht : pass.text.Encoded)
    (hlt : s.offset < pass.text.size) (h : Tracks g pass code s)
    (hturn : code.turn (pass.text.toList.drop s.offset) = some (0, code))
    (hquick : pass.quick = false) (hr : IsToken r)
    (hmatch : r.enter.boundariesAt? pass.text s.offset = some bounds) (hstop : s.offset < stop)
    (hmem : stop ∈ bounds) (pending : Nat) :
    Tracks g pass code { s with offset := stop, pending := pending } ∧
      Continues pass.text code s.offset code stop := by
  obtain ⟨hchar, hplain⟩ := hr.plain _ _ _ ht (h.atChar hquick rfl) hmatch stop hmem
  exact ⟨⟨h.stack, h.carry, fun _ _ => hchar⟩,
    CMode.after_code_drop_of_turn hlt hturn hstop hplain⟩

/-- A step in code. -/
theorem tracks_step_code (k : CView g) (ht : pass.text.Encoded)
    (hlt : s.offset < pass.text.size) (hpending : s.pending ≤ s.offset)
    (h : Tracks g pass code s) : ∃ m', Tracks g pass m' (s.step pass).1 ∧
      Continues pass.text code s.offset m' (s.step pass).1.offset := by
  have hmoved := (Scan.advances_step pass hpending hlt).offset_lt
  have hidle : s.carry.active? s.stack.depth = none := by
    rw [h.stack, h.carry, Stack.depth_root, CMode.active?_carry]
    rfl
  have henters := k.enters pass.quick ht hlt
  rw [← k.tried_eq h.stack] at henters
  rw [Scan.step_of_idle h.stack hidle, Scan.enterRule_eq] at *
  generalize firstMatch? pass.text s.offset 0 (s.tried pass) = found at *
  cases henters with
  | lineComment hturn =>
    dsimp only
    rw [Scan.enter_of_token (by rw [Grammar.nested?, k.lineComment_nested])
      (by rw [k.lineComment_close]; rfl)]
    have hstop : max pass.text.size s.offset = pass.text.size := Nat.max_eq_left (Nat.le_of_lt hlt)
    simp only [segments, hstop]
    exact ⟨code, tracks_lineComment hlt h hturn _⟩
  | @region m i n r hi hr hturn =>
    obtain ⟨hclose, hnested⟩ := k.of_region? hr
    dsimp only
    rw [Scan.enter_of_region (by rw [Grammar.nested?, hnested]) hclose]
    exact ⟨m, tracks_region hlt h hi hturn⟩
  | @token i r bounds hturn hquick hr hmatch =>
    have htoken := k.isToken r hr
    dsimp only at hmoved ⊢
    rw [Scan.enter_of_token (by rw [Grammar.nested?, htoken.nested])
      (by rw [htoken.close]; rfl)] at hmoved ⊢
    obtain ⟨hbounds, -⟩ := consumed?_eq_some hmatch
    rcases segments_eq_or_mem s.stack.top r pass.text 0 s.offset bounds with hstop | hmem
    · exact absurd hstop (Nat.ne_of_gt hmoved)
    · exact ⟨code, tracks_token ht hlt h hturn hquick htoken hbounds hmoved hmem _⟩
  | nothing hturn hnone => exact ⟨code, k.tracks_skip ht hlt h hturn hnone⟩

/-- A step in the region of a mode. -/
theorem tracks_step_region (k : CView g) {opener closer : List UInt8} {escapes : Bool}
    (hr : IsRegion r opener closer escapes) (hne : closer ≠ []) (hascii : Ascii.All closer)
    (hregion : k.region? m = some r) (hturn : ∀ bytes, m.turn bytes = m.inside closer escapes bytes)
    (ht : pass.text.Encoded) (hlt : s.offset < pass.text.size) (hpending : s.pending ≤ s.offset)
    (h : Tracks g pass m s) : ∃ m', Tracks g pass m' (s.step pass).1 ∧
      Continues pass.text m s.offset m' (s.step pass).1.offset := by
  have hopen : s.stack.openRule? s.carry = some r := by
    rw [h.stack, h.carry, k.openRule?_eq, hregion]
  obtain ⟨n, m', hinside, hstack, hcarry, hoffset, hmode⟩ :=
    hr.inside_of_step hne hascii ht hlt hpending h.stack h.carry hopen
  refine ⟨m', ⟨hstack, hcarry, fun _ hcode => ?_⟩, ?_⟩
  · rcases hmode with rfl | hchar
    · rw [hcode] at hregion
      cases hregion
    · exact hchar
  · rw [Continues, hoffset, Text.drop_toList_min]
    exact CMode.after_drop_of_turn hlt ((hturn _).trans hinside)

/-- **Each step goes on to a mode from which the line ends as before.** -/
theorem tracks_step (k : CView g) (ht : pass.text.Encoded) (hlt : s.offset < pass.text.size)
    (hpending : s.pending ≤ s.offset) (h : Tracks g pass m s) :
    ∃ m', Tracks g pass m' (s.step pass).1 ∧
      Continues pass.text m s.offset m' (s.step pass).1.offset := by
  cases m with
  | code => exact k.tracks_step_code ht hlt hpending h
  | comment =>
    exact k.tracks_step_region k.comment_isRegion (by simp) (by decide) rfl (fun _ => rfl) ht hlt
      hpending h
  | string =>
    exact k.tracks_step_region k.string_isRegion (by simp) (by decide) rfl (fun _ => rfl) ht hlt
      hpending h
  | char =>
    exact k.tracks_step_region k.char_isRegion (by simp) (by decide) rfl (fun _ => rfl) ht hlt
      hpending h

/-- **So do all steps together.** -/
theorem tracks_steps (k : CView g) (ht : pass.text.Encoded) (n : Nat)
    (hpending : s.pending ≤ s.offset) (h : Tracks g pass m s) :
    ∃ m', Tracks g pass m' (Scan.steps pass n s).1 ∧
      Continues pass.text m s.offset m' (Scan.steps pass n s).1.offset := by
  induction n generalizing s m with
  | zero => exact ⟨m, h, rfl⟩
  | succ n ih =>
    rcases Nat.lt_or_ge s.offset pass.text.size with hlt | hge
    · obtain ⟨m', hstep, hfirst⟩ := k.tracks_step ht hlt hpending h
      obtain ⟨m'', hend, hrest⟩ := ih (Scan.advances_step pass hpending hlt).pending_le hstep
      rw [Scan.steps_succ n hlt]
      exact ⟨m'', hend, hfirst.trans hrest⟩
    · rw [Scan.steps_of_size_le _ hge]
      exact ⟨m, h, rfl⟩

/-! ## 4.  Lines -/

theorem nested?_eq_none (k : CView g) (table : Table) :
    ∀ r ∈ g.rules, Grammar.nested? table r = none := by
  intro r hr
  have hnested : r.nested = none := by
    rw [k.rules_eq] at hr
    simp only [List.mem_cons] at hr
    rcases hr with rfl | rfl | rfl | rfl | hr
    · exact k.lineComment_nested
    · exact k.comment_isRegion.nested
    · exact k.string_isRegion.nested
    · exact k.char_isRegion.nested
    · exact (k.isToken r hr).nested
  rw [Grammar.nested?, hnested]

/-- The rules that close are those of modes. -/
theorem exists_index? (k : CView g) {i : Nat} (hi : g.rules[i]? = some r)
    (hclose : r.close.isSome = true) : ∃ m : CMode, m.index? = some i := by
  match i with
  | 0 =>
    rw [k.rules_eq] at hi
    cases hi
    rw [k.lineComment_close] at hclose
    cases hclose
  | 1 => exact ⟨.comment, rfl⟩
  | 2 => exact ⟨.string, rfl⟩
  | 3 => exact ⟨.char, rfl⟩
  | i + 4 =>
    rw [k.rules_eq] at hi
    rw [(k.isToken r (List.mem_of_getElem? hi)).close] at hclose
    cases hclose

/-- **Whatever a carry holds, what is kept of it is a mode.** -/
theorem exists_resume (k : CView g) (table : Table) (c : Carry) :
    ∃ m : CMode, Stack.resume table g c = (.root g, m.carry) := by
  have hfits := Stack.fits_resume table g c
  have hstack := hfits.path.eq_root (k.nested?_eq_none table)
  suffices hcarry : ∃ m : CMode, (Stack.resume table g c).2 = m.carry by
    obtain ⟨m, hm⟩ := hcarry
    exact ⟨m, Prod.ext hstack hm⟩
  have habove := hfits.above
  have hregion := hfits.region
  rw [hstack, Stack.depth_root] at habove hregion
  have of_index? : ∀ m : CMode, (Stack.resume table g c).2.active? 0 = m.index? →
      (Stack.resume table g c).2 = m.carry := by
    intro m hm
    refine Carry.eq_of_active? habove m.truncate_carry_one fun l hl => ?_
    obtain rfl : l = 0 := Nat.lt_one_iff.mp hl
    rw [hm, CMode.active?_carry]
  cases hactive : (Stack.resume table g c).2.active? 0 with
  | none => exact ⟨code, of_index? code hactive⟩
  | some i =>
    obtain ⟨r, hi, hclose, -⟩ := hregion i hactive
    obtain ⟨m, hm⟩ := k.exists_index? hi hclose
    exact ⟨m, of_index? m (hactive.trans hm.symm)⟩

/-- **A line ends in the mode that its bytes lead to.** -/
theorem carry_line (k : CView g) (pass : Pass) (ht : pass.text.Encoded) {c : Carry}
    (hresume : Stack.resume pass.table g c = (.root g, m.carry)) :
    (Scan.line pass g c).1.carry = (m.after pass.text.toList).carry := by
  have hstart : Scan.start pass g c = ⟨.root g, m.carry, 0, 0⟩ := by
    rw [Scan.start, hresume]
  have htracks : Tracks g pass m ⟨.root g, m.carry, 0, 0⟩ := ⟨rfl, rfl, fun _ _ => ht.atChar_zero⟩
  obtain ⟨m', hend, hcontinues⟩ := k.tracks_steps ht pass.text.size (Nat.le_refl 0) htracks
  obtain ⟨hoffset, -⟩ := Scan.covers_steps pass pass.text.size (s := ⟨.root g, m.carry, 0, 0⟩)
    (Nat.le_refl 0) (Nat.zero_le _) (Nat.le_add_left _ _)
  rw [hoffset, Continues, Text.drop_toList_of_size_le (Nat.le_refl _), CMode.after_nil,
    List.drop_zero] at hcontinues
  rw [Scan.line, hstart, hcontinues]
  exact hend.carry

end CView

end Builtin
end Linewise
