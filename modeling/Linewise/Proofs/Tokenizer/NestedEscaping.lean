import Mathlib.Order.Nat
import Linewise.Proofs.Tokenizer.Escaping

/-!
# Escapes do not reach into a nested grammar

The end of a rule with a nested grammar is looked for from inside of that grammar, at every place
that the scan comes to. The escape of the rule is tried first there, as it is inside of a region.
But an escape that is found only keeps the rule open at its own place. It takes nothing along, and
the scan goes on by the steps of the nested grammar. So the next place that it comes to may be the
escaped delimiter itself, at which the grammar is left.

This module says what becomes of the law of the region (`Tokenizer.line_of_escapes`) if the rule has
a nested grammar without rules of its own.

## 1.  The places that a scan comes to

Where no rule matches, the scan passes over a word or a single byte. It comes to every place that is
not inside of a word, and to no other one (`Scan.not_met_of_lt_skip`, `Scan.insideWord_skip`).

## 2.  Where a nested grammar is left

The grammar is left at the first delimiter that the scan comes to, escaped or not
(`Scan.leavesAt_iff`).

## 3.  When the escapes protect the end

They do exactly if that delimiter is also the first one that is not escaped
(`Tokenizer.protects_iff`).
-/

namespace Linewise

/-! ## 1.  The places that a scan comes to -/

namespace Text

/-- A place has a letter or a digit on both sides. -/
def insideWord (t : Text) (j : Nat) : Bool :=
  0 < j && t[j - 1]?.any Ascii.isAlnum && t[j]?.any Ascii.isAlnum

/-- The byte `q` stands at a place that is not inside of a word. -/
def Met (t : Text) (q : UInt8) (j : Nat) : Prop := t[j]? = some q ∧ t.insideWord j = false

instance (t : Text) (q : UInt8) (j : Nat) : Decidable (t.Met q j) :=
  inferInstanceAs (Decidable (_ ∧ _))

variable {t : Text} {q e : UInt8} {j : Nat}

theorem insideWord_of_not_isAlnum (h : ∀ c, t[j]? = some c → Ascii.isAlnum c = false) :
    t.insideWord j = false := by
  have hnone : t[j]?.any Ascii.isAlnum = false :=
    (Option.any_eq_false _ _).mpr h
  rw [insideWord, hnone, Bool.and_false]

/-- A delimiter that is no letter and no digit is never passed over. -/
theorem met_iff (hq : Ascii.isAlnum q = false) : t.Met q j ↔ t[j]? = some q := by
  refine ⟨And.left, fun h => ⟨h, insideWord_of_not_isAlnum fun c hc => ?_⟩⟩
  obtain rfl : q = c := Option.some.inj (h.symm.trans hc)
  exact hq

end Text

namespace Scan

variable {t : Text} {q : UInt8} {offset j : Nat}

/-- What is passed over behind the first byte is inside of a word. -/
theorem not_met_of_lt_skip (hlt : offset < j) (hskip : j < skip t offset) : ¬t.Met q j := by
  rintro ⟨hq, hinside⟩
  rw [skip] at hskip
  have hsize := (Array.getElem?_eq_some_iff.mp hq).1
  have hbefore : t[j - 1]? = some t[j - 1] := Array.getElem?_eq_getElem (by omega)
  have hword : Ascii.isAlnum q = true :=
    Text.of_lt_countWhile (t.size - offset) (Nat.le_of_lt hlt) (by omega) hq
  have hword' : Ascii.isAlnum t[j - 1] = true :=
    Text.of_lt_countWhile (t.size - offset) (Nat.le_sub_one_of_lt hlt) (by omega) hbefore
  rw [Text.insideWord, hq, hbefore, Option.any_some, Option.any_some, hword, hword',
    decide_eq_true (Nat.zero_lt_of_lt hlt)] at hinside
  cases hinside

/-- What is passed over ends outside of a word. -/
theorem insideWord_skip (t : Text) (offset : Nat) : t.insideWord (skip t offset) = false := by
  have hcount := t.countWhile_le Ascii.isAlnum (t.size - offset) offset
  rcases Nat.eq_or_lt_of_le hcount with hall | hlt
  · -- up to the end of the text
    refine Text.insideWord_of_not_isAlnum fun c hc => ?_
    have hsize := (Array.getElem?_eq_some_iff.mp hc).1
    rw [skip, hall] at hsize
    omega
  by_cases hzero : t.countWhile Ascii.isAlnum (t.size - offset) offset = 0
  · -- a single byte, which is no letter and no digit
    have hnone : t[offset]?.any Ascii.isAlnum = false := by
      refine (Option.any_eq_false _ _).mpr fun c hc => ?_
      exact Text.not_of_countWhile_lt (t.size - offset) hlt (by rw [hzero]; exact hc)
    rw [skip, hzero, Text.insideWord, show offset + max 0 1 - 1 = offset by omega, hnone,
      Bool.and_false, Bool.false_and]
  · refine Text.insideWord_of_not_isAlnum fun c hc => ?_
    rw [skip, Nat.max_eq_left (Nat.pos_of_ne_zero hzero)] at hc
    exact Text.not_of_countWhile_lt (t.size - offset) hlt hc

/-! ## 2.  Where a nested grammar is left -/

/-- On the rest of the line, a nested grammar is left for the first time at a place. -/
inductive LeavesAt (pass : Pass) : Scan → Nat → Prop where
  /-- It is left at once. -/
  | here {s : Scan} (hlt : s.offset < pass.text.size)
      (hcloses : (s.closeNested? pass).isSome = true) : LeavesAt pass s s.offset
  /-- It is left behind a step. -/
  | later {s : Scan} {j : Nat} (hlt : s.offset < pass.text.size)
      (hstays : s.closeNested? pass = none) (hlater : LeavesAt pass (s.step pass).1 j) :
      LeavesAt pass s j

/-- The scan is inside of the nested grammar `inner` of the rule `r` of the root, and nothing is
open there. -/
structure Inside (root inner : Grammar) (r : Rule Grammar) (s : Scan) : Prop where
  /-- The two grammars are open. -/
  stack : s.stack = (Stack.root root).push inner
  /-- The rule is the one that opened the inner one. -/
  opened : (Stack.root root).openRule? s.carry = some r
  /-- Nothing is open in the inner one. -/
  idle : s.carry.active? 1 = none

variable {pass : Pass} {s : Scan} {root inner : Grammar} {r : Rule Grammar} {q e : UInt8}

theorem leavesAt_of_closes {result : Scan × List Piece} (hlt : s.offset < pass.text.size)
    (h : s.closeNested? pass = some result) : LeavesAt pass s j ↔ j = s.offset := by
  constructor
  · intro hleaves
    cases hleaves with
    | here => rfl
    | later _ hstays _ =>
      rw [h] at hstays
      cases hstays
  · rintro rfl
    exact .here hlt (by rw [h, Option.isSome_some])

theorem leavesAt_of_stays (hlt : s.offset < pass.text.size) (h : s.closeNested? pass = none) :
    LeavesAt pass s j ↔ LeavesAt pass (s.step pass).1 j := by
  constructor
  · intro hleaves
    cases hleaves with
    | here _ hcloses =>
      rw [h] at hcloses
      cases hcloses
    | later _ _ hlater => exact hlater
  · exact .later hlt h

/-- **The rule closes at every delimiter.** An escape that stands at the same place would be the
same byte. -/
theorem closeNested?_of_escapes (hr : r.Escapes q e) (ht : pass.text.Encoded)
    (h : Inside root inner r s) (hle : s.offset ≤ pass.text.size) :
    s.closeNested? pass =
      if pass.text[s.offset]? = some q then
        some (⟨.root root, .clear, s.offset + 1, s.offset + 1⟩,
          [s.pendingPiece pass.text s.offset,
            Piece.under root r.label pass.text s.offset (s.offset + 1)])
      else none := by
  obtain ⟨pe, hescape, he⟩ := hr.escape
  obtain ⟨pq, hclose, hq⟩ := hr.close
  have hbelow : s.stack.below = [root] := congrArg Stack.below h.stack
  have hopened : (Stack.mk root []).openRule? s.carry = some r := h.opened
  rw [closeNested?_eq, hbelow]
  simp only [hopened, hescape, hclose, Option.any_some, Option.bind_some,
    he.boundariesAt?_eq ht hle, hq.consumed?_eq ht hle]
  by_cases hend : pass.text[s.offset]? = some q
  · have hne : pass.text[s.offset]? ≠ some e := fun hbyte =>
      hr.ne (Option.some.inj (hend.symm.trans hbyte))
    rw [if_neg hne, if_pos hend, if_pos hend]
    simp [segments, Rule.label?, Rule.labels, Stack.root, Carry.truncate_zero]
  · rw [if_neg hend, if_neg hend]
    simp

/-- A nested grammar without rules passes over words and bytes. -/
theorem step_of_inside (h : Inside root inner r s) (hinner : inner.rules = [])
    (hstays : s.closeNested? pass = none) :
    s.step pass = ({ s with offset := skip pass.text s.offset }, []) := by
  have hidle : s.carry.active? s.stack.depth = none := by
    rw [h.stack]
    exact h.idle
  have htop : s.stack.top.rules = [] := (congrArg (·.top.rules) h.stack).trans hinner
  rw [step_eq, hstays, hidle]
  dsimp only
  rw [enterRule_eq, tried, htop, List.take_nil, ite_self]
  rfl

variable (pass) in
/-- **The grammar is left at the first delimiter that the scan comes to**, and it is still open at
the end of the line if there is none. The induction is on what is left of the line. -/
theorem leavesAt_iff (hr : r.Escapes q e) (ht : pass.text.Encoded) (hinner : inner.rules = [])
    (h : Inside root inner r s) (hpending : s.pending ≤ s.offset)
    (hle : s.offset ≤ pass.text.size) (hword : pass.text.insideWord s.offset = false) :
    (∀ j, LeavesAt pass s j ↔ IsLeast {i | s.offset ≤ i ∧ pass.text.Met q i} j) ∧
      ((∀ j, s.offset ≤ j → ¬pass.text.Met q j) → (rest pass s).1.carry = s.carry) := by
  induction s, hle using ahead_induction with
  | done s hle hend =>
    refine ⟨fun j => ⟨fun hleaves => ?_, fun hj => ?_⟩, fun _ => ?_⟩
    · cases hleaves with
      | here hlt _ => exact absurd hend (Nat.ne_of_lt hlt)
      | later hlt _ _ => exact absurd hend (Nat.ne_of_lt hlt)
    · obtain ⟨⟨hj, hq, -⟩, -⟩ := hj
      have hsize := (Array.getElem?_eq_some_iff.mp hq).1
      omega
    · rw [rest, restBy_of_size_le (Nat.le_of_eq hend.symm)]
  | step s hle hlt ih =>
    have hclose := closeNested?_of_escapes hr ht h hle
    by_cases hbyte : pass.text[s.offset]? = some q
    · -- a delimiter
      rw [if_pos hbyte] at hclose
      have hmet : pass.text.Met q s.offset := ⟨hbyte, hword⟩
      refine ⟨fun j => (leavesAt_of_closes hlt hclose).trans ⟨?_, fun hj => ?_⟩,
        fun hnone => absurd hmet (hnone _ (Nat.le_refl _))⟩
      · rintro rfl
        exact ⟨⟨Nat.le_refl _, hmet⟩, fun i hi => hi.1⟩
      · exact Nat.le_antisymm (hj.2 ⟨Nat.le_refl _, hmet⟩) hj.1.1
    · rw [if_neg hbyte] at hclose
      have hbehind := lt_skip pass.text s.offset
      have hahead := Nat.le_of_lt hbehind
      have hpassed : ∀ i, s.offset ≤ i → i < skip pass.text s.offset → ¬pass.text.Met q i := by
        intro i hi hskip hmet
        rcases Nat.eq_or_lt_of_le hi with rfl | hi
        · exact hbyte hmet.1
        · exact not_met_of_lt_skip hi hskip hmet
      obtain ⟨hleaves, hstays⟩ := ih { s with offset := skip pass.text s.offset } (skip_le hlt)
        hbehind ⟨h.stack, h.opened, h.idle⟩ (Nat.le_trans hpending hahead)
        (insideWord_skip pass.text s.offset)
      have hstep := step_of_inside h hinner hclose
      refine ⟨fun j => ?_, fun hnone => ?_⟩
      · rw [leavesAt_of_stays hlt hclose, hstep, hleaves, Text.isLeast_iff_of_le hahead hpassed]
      · rw [rest, restBy_of_step (forward_step pass) hpending hlt, ← rest, hstep]
        exact hstays fun j hj => hnone j (Nat.le_trans hahead hj)

end Scan

/-! ## 3.  When the escapes protect the end -/

namespace Text

variable {t : Text} {q e : UInt8}

/-- If the first delimiter that the scan comes to is the first unescaped one, or there is neither,
there is a delimiter that the scan comes to only if there is an unescaped one. -/
theorem not_met_of_not_unescaped (h : ∀ j, IsLeast {j | t.Met q j} j → t.Unescaped q e j)
    (hnone : ∀ j, ¬t.Unescaped q e j) (j : Nat) : ¬t.Met q j :=
  fun hj => hnone _ (h _ (Nat.isLeast_find ⟨j, hj⟩))

/-- For a delimiter that is no letter and no digit, the first delimiter has to be unescaped. -/
theorem isLeast_met_iff (hq : Ascii.isAlnum q = false) :
    (∀ j, IsLeast {j | t.Met q j} j ↔ IsLeast {j | t.Unescaped q e j} j) ↔
      ∀ j, IsLeast {j | t[j]? = some q} j → Even (t.countBefore e j) := by
  have hset : {j | t.Met q j} = {j | t[j]? = some q} := Set.ext fun _ => met_iff hq
  rw [hset]
  refine ⟨fun h j hj => ((h j).mp hj).1.2, fun h j => ⟨fun hj => ?_, fun hj => ?_⟩⟩
  · exact ⟨⟨hj.1, h j hj⟩, fun i hi => hj.2 hi.1⟩
  · -- the first delimiter of all is unescaped, so it is this one
    have hfirst := Nat.isLeast_find (p := fun i => t[i]? = some q) ⟨j, hj.1.1⟩
    refine ⟨hj.1.1, fun i hi => ?_⟩
    exact Nat.le_trans (hj.2 ⟨hfirst.1, h _ hfirst⟩) (hfirst.2 hi)

end Text

namespace Tokenizer

variable (k : Tokenizer) (i : Nat) (q e : UInt8) (quick : Bool) (line : String)

/-- In a line that begins inside of the nested grammar of a rule, the escape `e` protects the end
`q`: the grammar is left at the first unescaped delimiter and at no other place, and the rule is
still open at the end of the line if there is no such delimiter. -/
def Protects : Prop :=
  (∀ j, Scan.LeavesAt (k.passOn quick (Text.ofString line))
      (Scan.start (k.passOn quick (Text.ofString line)) k.root (Carry.clear.mark 0 i)) j ↔
    IsLeast {j | (Text.ofString line).Unescaped q e j} j) ∧
    ((∀ j, ¬(Text.ofString line).Unescaped q e j) →
      (k.tokenize quick (Text.ofString line) (Carry.clear.mark 0 i)).carry = Carry.clear.mark 0 i)

variable {k i q e}

/-- **The escape of a nested grammar without rules protects its end exactly if the first delimiter
that is not inside of a word is also the first unescaped one.** For a delimiter that is no letter
and no digit, this says that the first delimiter of the line, if there is one, is not escaped. -/
theorem protects_iff {r : Rule Grammar} {inner : Grammar} (hi : k.root.rules[i]? = some r)
    (hlt : i < maxRules) (hnested : Grammar.nested? k.table r = some inner)
    (hinner : inner.rules = []) (hr : r.Escapes q e) :
    (k.Protects i q e quick line ↔
        ∀ j, IsLeast {j | (Text.ofString line).Met q j} j ↔
          IsLeast {j | (Text.ofString line).Unescaped q e j} j) ∧
      (Ascii.isAlnum q = false →
        (k.Protects i q e quick line ↔
          ∀ j, IsLeast {j | (Text.ofString line)[j]? = some q} j →
            Even ((Text.ofString line).countBefore e j))) := by
  have hresume : Stack.resume k.table k.root (Carry.clear.mark 0 i) =
      ((Stack.root k.root).push inner, Carry.clear.mark 0 i) :=
    Stack.resume_of_fits
      ((Stack.fits_clear k.table k.root).mark_push hi hlt hnested (show 0 + 1 < 4 by decide))
  have hstart : Scan.start (k.passOn quick (Text.ofString line)) k.root (Carry.clear.mark 0 i) =
      ⟨(Stack.root k.root).push inner, Carry.clear.mark 0 i, 0, 0⟩ := by
    rw [Scan.start, passOn, hresume]
  have hactive := Carry.active?_mark .clear (show 0 < maxDepth by decide) hlt
  have hinside : Scan.Inside k.root inner r
      ⟨(Stack.root k.root).push inner, Carry.clear.mark 0 i, 0, 0⟩ := by
    refine ⟨rfl, ?_, ?_⟩
    · rw [Stack.openRule?, Stack.depth_root, hactive, if_pos rfl, Option.bind_some]
      exact hi
    · rw [hactive, if_neg Nat.one_ne_zero]
      decide
  obtain ⟨hleaves, hstays⟩ := Scan.leavesAt_iff (k.passOn quick (Text.ofString line)) hr
    (Text.encoded_ofString line) hinner hinside (Nat.le_refl 0) (Nat.zero_le _) rfl
  have hfirst : ∀ j, Scan.LeavesAt (k.passOn quick (Text.ofString line))
      (Scan.start (k.passOn quick (Text.ofString line)) k.root (Carry.clear.mark 0 i)) j ↔
        IsLeast {j | (Text.ofString line).Met q j} j := by
    intro j
    rw [hstart, hleaves]
    simp only [Nat.zero_le, true_and]
    rfl
  have hprotects : k.Protects i q e quick line ↔
      ∀ j, IsLeast {j | (Text.ofString line).Met q j} j ↔
        IsLeast {j | (Text.ofString line).Unescaped q e j} j := by
    constructor
    · exact fun h j => (hfirst j).symm.trans (h.1 j)
    · intro h
      refine ⟨fun j => (hfirst j).trans (h j), fun hnone => ?_⟩
      have hline := Scan.line_eq_rest (k.passOn quick (Text.ofString line)) k.root
        (Carry.clear.mark 0 i)
      rw [hstart] at hline
      have hmet := Text.not_met_of_not_unescaped (fun j hj => ((h j).mp hj).1) hnone
      exact (congrArg (fun result => result.1.carry) hline).trans (hstays fun j _ => hmet j)
  exact ⟨hprotects, fun hq => hprotects.trans (Text.isLeast_met_iff hq)⟩

/-- The rule of strings, with a grammar of its own for what is inside of them. -/
def nestingRule : Rule Grammar :=
  { stringRule with
    nested := some (.owned
      { name := none, defaultLabel := "inner", rules := [], symbols := .ofList [] }) }

/-- A tokenizer for such strings. -/
def nestingTokenizer : Tokenizer where
  table := Table.empty
  root := { name := none, defaultLabel := "default", rules := [nestingRule], symbols := .ofList [] }

theorem escapes_nestingRule : nestingRule.Escapes quoteByte backslashByte :=
  ⟨escapes_stringRule.close, escapes_stringRule.escape, escapes_stringRule.ne⟩

/-- In `\\"`, the quote is not escaped. -/
theorem protects_escapedBackslash :
    nestingTokenizer.root.rules[0]? = some nestingRule ∧ 0 < maxRules ∧
      (Grammar.nested? nestingTokenizer.table nestingRule).map (·.rules.length) = some 0 ∧
      nestingRule.Escapes quoteByte backslashByte ∧ Ascii.isAlnum quoteByte = false ∧
      nestingTokenizer.Protects 0 quoteByte backslashByte false "\\\\\"" := by
  have hfirst : IsLeast {j | (Text.ofString "\\\\\"")[j]? = some quoteByte} 2 := by
    have hnone : ∀ j < 2, (Text.ofString "\\\\\"")[j]? ≠ some quoteByte := by decide
    exact ⟨rfl, fun j hj => Nat.le_of_not_lt fun hlt => hnone j hlt hj⟩
  have hprotects := (protects_iff (k := nestingTokenizer) (i := 0) false "\\\\\"" rfl (by decide)
    rfl rfl escapes_nestingRule).2 (by decide)
  refine ⟨rfl, by decide, rfl, escapes_nestingRule, by decide, hprotects.mpr fun j hj => ?_⟩
  obtain rfl : j = 2 := Nat.le_antisymm (hj.2 hfirst.1) (hfirst.2 hj.1)
  decide

/-- **In `\"`, the grammar is left at the escaped quote.** -/
theorem not_protects_escapedQuote :
    nestingTokenizer.root.rules[0]? = some nestingRule ∧
      (Grammar.nested? nestingTokenizer.table nestingRule).map (·.rules.length) = some 0 ∧
      nestingRule.Escapes quoteByte backslashByte ∧
      (∀ j, ¬(Text.ofString "\\\"").Unescaped quoteByte backslashByte j) ∧
      nestingTokenizer.tokenize false (Text.ofString "\\\"") (Carry.clear.mark 0 0) =
        ⟨some [⟨"inner", 1⟩, ⟨"string", 1⟩], .clear⟩ ∧
      ¬nestingTokenizer.Protects 0 quoteByte backslashByte false "\\\"" := by
  have hnone : ∀ j, ¬(Text.ofString "\\\"").Unescaped quoteByte backslashByte j := by
    intro j hj
    have hlt : j < 2 := (Array.getElem?_eq_some_iff.mp hj.1).1
    have hsmall : ∀ j < 2, ¬(Text.ofString "\\\"").Unescaped quoteByte backslashByte j := by
      decide
    exact hsmall j hlt hj
  have htokenize : nestingTokenizer.tokenize false (Text.ofString "\\\"") (Carry.clear.mark 0 0) =
      ⟨some [⟨"inner", 1⟩, ⟨"string", 1⟩], .clear⟩ := by
    decide +kernel
  refine ⟨rfl, rfl, escapes_nestingRule, hnone, htokenize, fun h => ?_⟩
  have hopen := h.2 hnone
  rw [htokenize] at hopen
  exact absurd hopen (by decide)

end Tokenizer
end Linewise
