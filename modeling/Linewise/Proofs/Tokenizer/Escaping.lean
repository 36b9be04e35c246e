import Mathlib.Algebra.Group.Nat.Even
import Mathlib.Order.Bounds.Defs
import Linewise.Proofs.LuaPattern.Literal
import Linewise.Proofs.LuaPattern.Verbatim
import Linewise.Proofs.Tokenizer.Resumption
import Linewise.Proofs.Tokenizer.RestOfLine

/-!
# Escapes protect the end of a region

Many regions end with a single byte, such as the quote of a string, and have an escape that is a
single byte, such as a backslash. What such a line looks like is a matter of counting: the region
ends at the first delimiter with an even number of escapes directly in front of it
(`Text.Unescaped`). The scan does not count. It pairs each escape with the byte behind it, whatever
that is: another escape, the delimiter, or the first byte of a longer character.

## 1.  Single bytes

A pattern that is one byte which stands for itself (`Pattern.IsByte`) finds that byte and nothing
else, also inside of a character.

## 2.  Parity

The scan comes only to places in front of which the number of escapes is even. At such a place the
region closes, or the scan goes on to the next such place, and no delimiter in between is unescaped
(`Scan.step_of_escapes`).

## 3.  Whole lines

By induction on the bytes that are left, the region ends at the first unescaped delimiter or takes
the rest of the line (`Scan.rest_of_escapes`). `Tokenizer.line_of_escapes` says so of a line that
begins inside of the region.
-/

namespace Linewise

/-! ## 1.  Single bytes -/

/-- A pattern is one byte which stands for itself. -/
structure Pattern.IsByte (p : Pattern) (b : UInt8) : Prop where
  /-- The byte has no other meaning. -/
  plain : LuaPattern.isPlain b = true
  /-- It is all that the pattern consists of. -/
  source : ∃ source, p = .lua source ∧ Pattern.luaBytes source = [b]

section SingleByte

variable {p : Pattern} {b : UInt8} {t : Text} {offset : Nat}

/-- **Such a pattern finds its byte**, and takes it. -/
theorem Pattern.IsByte.boundariesAt?_eq (h : p.IsByte b) (ht : t.Encoded)
    (hle : offset ≤ t.size) :
    p.boundariesAt? t offset = if t[offset]? = some b then some [offset + 1] else none := by
  obtain ⟨source, rfl, hbytes⟩ := h.source
  have hordinary : ∀ d ∈ [b], LuaPattern.isOrdinary d = true :=
    List.forall_mem_singleton.mpr (LuaPattern.isOrdinary_of_isPlain h.plain)
  rw [Pattern.boundariesAt?, hbytes, LuaPattern.boundariesAt?_of_ordinary hordinary hle]
  cases hc : t[offset]? with
  | none => simp [LuaPattern.verbatim?, hc]
  | some c =>
    by_cases hcb : c = b
    · subst hcb
      have hchar : t.AtChar (offset + 1) :=
        ht.atChar_succ hc (LuaPattern.lt_of_isPlain h.plain)
      simp [LuaPattern.verbatim?, hc, Text.charStart_of_atChar hchar]
    · simp [LuaPattern.verbatim?, hc, hcb]

/-- What it takes counts. -/
theorem Pattern.IsByte.consumed?_eq (h : p.IsByte b) (ht : t.Encoded) (hle : offset ≤ t.size) :
    consumed? p t offset = if t[offset]? = some b then some [offset + 1] else none := by
  rw [consumed?_eq_filter, h.boundariesAt?_eq ht hle]
  split
  · simp
  · rfl

end SingleByte

/-- A rule closes with the byte `q`, and its escape is the byte `e`. -/
structure Rule.Escapes (r : Rule Grammar) (q e : UInt8) : Prop where
  /-- It closes with the one. -/
  close : ∃ p, r.close = some p ∧ p.IsByte q
  /-- It escapes with the other. -/
  escape : ∃ p, r.escape = some p ∧ p.IsByte e
  /-- They are different bytes. -/
  ne : q ≠ e

/-! ## 2.  Parity -/

namespace Text

/-- How many bytes `e` stand directly in front of a place. -/
def countBefore (t : Text) (e : UInt8) : Nat → Nat
  | 0 => 0
  | j + 1 => if t[j]? = some e then countBefore t e j + 1 else 0

/-- The byte `q` stands at a place, with an even number of bytes `e` directly in front of it. -/
def Unescaped (t : Text) (q e : UInt8) (j : Nat) : Prop :=
  t[j]? = some q ∧ Even (t.countBefore e j)

instance (t : Text) (q e : UInt8) (j : Nat) : Decidable (t.Unescaped q e j) :=
  inferInstanceAs (Decidable (_ ∧ _))

variable {t : Text} {q e : UInt8} {p : Nat}

theorem countBefore_succ_of_eq (h : t[p]? = some e) :
    t.countBefore e (p + 1) = t.countBefore e p + 1 := by
  rw [countBefore, if_pos h]

theorem countBefore_succ_of_ne (h : t[p]? ≠ some e) : t.countBefore e (p + 1) = 0 := by
  rw [countBefore, if_neg h]

/-- Behind an escape that is not escaped itself, the next byte is. -/
theorem not_even_countBefore (h : t[p]? = some e) (heven : Even (t.countBefore e p)) :
    ¬Even (t.countBefore e (p + 1)) := by
  rw [countBefore_succ_of_eq h, Nat.even_add_one, not_not]
  exact heven

/-- Behind both of them, the number is even again, whatever the escaped byte is. -/
theorem even_countBefore_add_two (h : t[p]? = some e) (heven : Even (t.countBefore e p)) :
    Even (t.countBefore e (p + 2)) := by
  by_cases hnext : t[p + 1]? = some e
  · rw [countBefore_succ_of_eq hnext, Nat.even_add_one]
    exact not_even_countBefore h heven
  · rw [countBefore_succ_of_ne hnext]
    exact Even.zero

/-- What is least from a place on is least from a later one on, if nothing lies between them. -/
theorem isLeast_iff_of_le {P : Nat → Prop} {p p' j : Nat} (hle : p ≤ p')
    (hnone : ∀ i, p ≤ i → i < p' → ¬P i) :
    IsLeast {i | p ≤ i ∧ P i} j ↔ IsLeast {i | p' ≤ i ∧ P i} j := by
  have hset : {i | p ≤ i ∧ P i} = {i | p' ≤ i ∧ P i} := by
    ext i
    refine ⟨fun ⟨hp, hi⟩ => ⟨Nat.le_of_not_lt fun hlt => hnone i hp hlt hi, hi⟩, fun ⟨hp, hi⟩ => ?_⟩
    exact ⟨Nat.le_trans hle hp, hi⟩
  rw [hset]

end Text

namespace Scan

variable {pass : Pass} {s : Scan} {g : Grammar} {r : Rule Grammar} {q e : UInt8}

/-- What a step inside of the region does. -/
theorem insideRegion_of_escapes (hr : r.Escapes q e) (ht : pass.text.Encoded)
    (hpending : s.pending ≤ s.offset) (hlt : s.offset < pass.text.size) :
    s.insideRegion pass r =
      if pass.text[s.offset]? = some e then
        ({ s with offset := min (s.offset + 2) pass.text.size }, [])
      else if pass.text[s.offset]? = some q then
        ({ s with
            carry := s.carry.truncate s.stack.depth
            offset := s.offset + 1
            pending := s.offset + 1 },
          [Piece.under s.stack.top r.label pass.text s.pending (s.offset + 1)])
      else ({ s with offset := s.offset + 1 }, []) := by
  obtain ⟨pe, hescape, he⟩ := hr.escape
  obtain ⟨pq, hclose, hq⟩ := hr.close
  have hle := Nat.le_of_lt hlt
  rw [insideRegion_eq, hescape, hclose, Option.bind_some, Option.bind_some,
    he.boundariesAt?_eq ht hle, hq.consumed?_eq ht hle]
  by_cases hbyte : pass.text[s.offset]? = some e
  · rw [if_pos hbyte, if_pos hbyte]
    simp [matchEnd]
  rw [if_neg hbyte, if_neg hbyte]
  by_cases hend : pass.text[s.offset]? = some q
  · have hstop : max (s.offset + 1) s.pending = s.offset + 1 := by omega
    rw [if_pos hend, if_pos hend]
    simp [segments, hstop, Rule.label?, Rule.labels]
  · rw [if_neg hend, if_neg hend]

/-- **At a place with an even number of escapes in front of it, the region closes, or the scan goes
on to the next such place**, or to the end of the line. No delimiter that is passed over on the way
is unescaped. -/
theorem step_of_escapes (hr : r.Escapes q e) (ht : pass.text.Encoded)
    (hstack : s.stack = .root g) (hopen : s.stack.openRule? s.carry = some r)
    (hpending : s.pending ≤ s.offset) (hlt : s.offset < pass.text.size)
    (heven : Even (pass.text.countBefore e s.offset)) :
    (pass.text.Unescaped q e s.offset ∧
        s.step pass =
          (⟨s.stack, s.carry.truncate 0, s.offset + 1, s.offset + 1⟩,
            [Piece.under g r.label pass.text s.pending (s.offset + 1)])) ∨
      ∃ p, s.offset < p ∧ p ≤ pass.text.size ∧ s.step pass = ({ s with offset := p }, []) ∧
        (p < pass.text.size → Even (pass.text.countBefore e p)) ∧
        ∀ j, s.offset ≤ j → j < p → ¬pass.text.Unescaped q e j := by
  have hne : some q ≠ some e := fun h => hr.ne (Option.some.inj h)
  rw [step_of_open hstack hopen, insideRegion_of_escapes hr ht hpending hlt]
  by_cases hbyte : pass.text[s.offset]? = some e
  · -- an escape takes the byte behind it along
    rw [if_pos hbyte]
    refine Or.inr ⟨min (s.offset + 2) pass.text.size, by omega, Nat.min_le_right _ _, rfl,
      fun hinside => ?_, fun j hj hlt' => ?_⟩
    · rw [Nat.min_eq_left (by omega)]
      exact Text.even_countBefore_add_two hbyte heven
    · rintro ⟨hq, heven'⟩
      rcases Nat.eq_or_lt_of_le hj with rfl | hbehind
      · exact hne (hq.symm.trans hbyte)
      · obtain rfl : j = s.offset + 1 := by omega
        exact Text.not_even_countBefore hbyte heven heven'
  rw [if_neg hbyte]
  by_cases hend : pass.text[s.offset]? = some q
  · rw [if_pos hend, hstack]
    exact Or.inl ⟨⟨hend, heven⟩, rfl⟩
  · rw [if_neg hend]
    refine Or.inr ⟨s.offset + 1, Nat.lt_succ_self _, hlt, rfl, fun _ => ?_, fun j hj hlt' => ?_⟩
    · rw [Text.countBefore_succ_of_ne hbyte]
      exact Even.zero
    · obtain rfl : j = s.offset := by omega
      exact fun h => hend h.1

/-! ## 3.  Whole lines -/

variable (pass) in
/-- **The region ends at the first unescaped delimiter**, or takes the rest of the line. The
induction is on what is left of the line. -/
theorem rest_of_escapes (hr : r.Escapes q e) (ht : pass.text.Encoded)
    (hstack : s.stack = .root g) (hopen : s.stack.openRule? s.carry = some r)
    (hpending : s.pending ≤ s.offset) (hle : s.offset ≤ pass.text.size)
    (heven : s.offset < pass.text.size → Even (pass.text.countBefore e s.offset)) :
    (∀ j, IsLeast {i | s.offset ≤ i ∧ pass.text.Unescaped q e i} j →
      rest pass s =
        ((rest pass ⟨s.stack, s.carry.truncate 0, j + 1, j + 1⟩).1,
          Piece.under g r.label pass.text s.pending (j + 1) ::
            (rest pass ⟨s.stack, s.carry.truncate 0, j + 1, j + 1⟩).2)) ∧
      ((∀ j, s.offset ≤ j → ¬pass.text.Unescaped q e j) →
        rest pass s = ({ s with offset := pass.text.size },
          [Piece.under g r.label pass.text s.pending pass.text.size])) := by
  induction s, hle using ahead_induction with
  | done s hle hend =>
    refine ⟨fun j hj => ?_, fun _ => ?_⟩
    · obtain ⟨⟨hj, hq, -⟩, -⟩ := hj
      have hinside := (Array.getElem?_eq_some_iff.mp hq).1
      omega
    · have hlabel : s.openLabel = r.label := by
        rw [openLabel, hopen]
      have htop : s.stack.top = g := congrArg Stack.top hstack
      rw [rest, restBy_of_size_le (Nat.le_of_eq hend.symm), pendingPiece, hlabel, htop, ← hend]
  | step s hle hlt ih =>
    rw [rest, restBy_of_step (forward_step pass) hpending hlt, ← rest]
    rcases step_of_escapes hr ht hstack hopen hpending hlt (heven hlt) with
      ⟨hunescaped, hstep⟩ | ⟨p, hbehind, hp, hstep, heven', hnone⟩
    · refine ⟨fun j hj => ?_, fun h => absurd hunescaped (h _ (Nat.le_refl _))⟩
      obtain rfl : j = s.offset :=
        Nat.le_antisymm (hj.2 ⟨Nat.le_refl _, hunescaped⟩) hj.1.1
      rw [hstep]
      rfl
    · have hahead := Nat.le_of_lt hbehind
      obtain ⟨hcloses, hstays⟩ := ih { s with offset := p } hp hbehind hstack hopen
        (Nat.le_trans hpending hahead) heven'
      rw [hstep]
      refine ⟨fun j hj => ?_, fun h => ?_⟩
      · exact hcloses j ((Text.isLeast_iff_of_le hahead hnone).mp hj)
      · exact hstays fun j hj => h j (Nat.le_trans hahead hj)

end Scan

namespace Tokenizer

/-- **A line that begins inside of a region takes the region up to the first unescaped delimiter**,
as one piece under the label of its rule. Behind it the line goes on with nothing open. If there is
no such delimiter, the whole line is one piece, and the region is still open at its end. -/
theorem line_of_escapes (k : Tokenizer) {i : Nat} {r : Rule Grammar} {q e : UInt8}
    (hi : k.root.rules[i]? = some r) (hlt : i < maxRules)
    (hplain : Grammar.nested? k.table r = none) (hr : r.Escapes q e) (quick : Bool)
    (line : String) :
    (∀ j, IsLeast {j | (Text.ofString line).Unescaped q e j} j →
        Scan.line (k.passOn quick (Text.ofString line)) k.root (Carry.clear.mark 0 i) =
          Scan.onward (Text.ofString line) (Scan.step (k.passOn quick (Text.ofString line)))
            (⟨.root k.root, .clear, j + 1, j + 1⟩,
              [Piece.under k.root r.label (Text.ofString line) 0 (j + 1)])) ∧
      ((∀ j, ¬(Text.ofString line).Unescaped q e j) →
        (k.tokenize quick (Text.ofString line) (Carry.clear.mark 0 i)).carry =
            Carry.clear.mark 0 i ∧
          (Scan.line (k.passOn quick (Text.ofString line)) k.root (Carry.clear.mark 0 i)).2 =
            [Piece.under k.root r.label (Text.ofString line) 0 (Text.ofString line).size]) := by
  have hclose : r.close.isSome = true := by
    obtain ⟨p, hp, -⟩ := hr.close
    rw [hp, Option.isSome_some]
  have hopen : (Stack.root k.root).openRule? (Carry.clear.mark 0 i) = some r := by
    rw [Stack.openRule?, Stack.depth_root, Carry.active?_mark _ (by decide) hlt, if_pos rfl,
      Option.bind_some]
    exact hi
  have hresume : Stack.resume k.table k.root (Carry.clear.mark 0 i) =
      (.root k.root, Carry.clear.mark 0 i) :=
    Stack.resume_of_fits ((Stack.fits_clear k.table k.root).mark_region hi hlt hclose hplain)
  have hstart : Scan.start (k.passOn quick (Text.ofString line)) k.root (Carry.clear.mark 0 i) =
      ⟨.root k.root, Carry.clear.mark 0 i, 0, 0⟩ := by
    rw [Scan.start, passOn, hresume]
  obtain ⟨hcloses, hstays⟩ := Scan.rest_of_escapes (k.passOn quick (Text.ofString line))
    (s := ⟨.root k.root, Carry.clear.mark 0 i, 0, 0⟩) hr (Text.encoded_ofString line) rfl hopen
    (Nat.le_refl 0) (Nat.zero_le _) fun _ => Even.zero
  have hline : Scan.line (k.passOn quick (Text.ofString line)) k.root (Carry.clear.mark 0 i) = _ :=
    (Scan.line_eq_rest _ _ _).trans (congrArg (Scan.rest _) hstart)
  refine ⟨fun j hj => ?_, fun hnone => ?_⟩
  · have hrest := hcloses j ⟨⟨Nat.zero_le j, hj.1⟩, fun i hi => hj.2 hi.2⟩
    rw [Carry.truncate_zero] at hrest
    exact hline.trans hrest
  · have hrest := hline.trans (hstays fun j _ => hnone j)
    exact ⟨congrArg (fun result => result.1.carry) hrest, congrArg Prod.snd hrest⟩

/-- The byte `"`. -/
def quoteByte : UInt8 := 0x22

/-- The byte `\`. -/
def backslashByte : UInt8 := 0x5C

/-- A rule of strings with escapes. -/
def stringRule : Rule Grammar :=
  ⟨.lua "\"", some (.lua "\""), some (.lua "\\"), "string", [], none⟩

/-- A tokenizer for such strings. -/
def stringTokenizer : Tokenizer where
  table := Table.empty
  root := { name := none, defaultLabel := "default", rules := [stringRule], symbols := .ofList [] }

theorem escapes_stringRule : stringRule.Escapes quoteByte backslashByte where
  close := ⟨_, rfl, rfl, _, rfl, rfl⟩
  escape := ⟨_, rfl, rfl, _, rfl, rfl⟩
  ne := by decide

/-- In `\"é"x`, the second quote ends the string. -/
theorem line_of_escapes_quotes :
    stringTokenizer.root.rules[0]? = some stringRule ∧ 0 < maxRules ∧
      Grammar.nested? stringTokenizer.table stringRule = none ∧
      stringRule.Escapes quoteByte backslashByte ∧
      IsLeast {j | (Text.ofString "\\\"é\"x").Unescaped quoteByte backslashByte j} 4 ∧
      (Scan.line (stringTokenizer.passOn false (Text.ofString "\\\"é\"x")) stringTokenizer.root
          (Carry.clear.mark 0 0)).2.head? =
        some (Piece.under stringTokenizer.root "string" (Text.ofString "\\\"é\"x") 0 5) := by
  have hnone : ∀ j < 4, ¬(Text.ofString "\\\"é\"x").Unescaped quoteByte backslashByte j := by
    decide
  have hleast : IsLeast {j | (Text.ofString "\\\"é\"x").Unescaped quoteByte backslashByte j} 4 :=
    ⟨⟨rfl, by decide⟩, fun j hj => Nat.le_of_not_lt fun hlt => hnone j hlt hj⟩
  have hline := (line_of_escapes stringTokenizer (i := 0) rfl (by decide) rfl escapes_stringRule
    false "\\\"é\"x").1 4 hleast
  refine ⟨rfl, by decide, rfl, escapes_stringRule, hleast, ?_⟩
  rw [hline]
  rfl

end Tokenizer
end Linewise
