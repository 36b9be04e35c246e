import Linewise.Proofs.LuaPattern.Turn

/-!
# Where captures close in a pattern

`Source.closeCount` counts the captures that a pattern closes in one go, from its first byte to its
last. A match asks what is left to be counted from a place in the middle (`Source.closesFrom`):
there it matters whether the byte is escaped (`Source.isEscaped`) and whether it stands inside of a
set.

## 1.  One byte

`Source.closesFrom_eq` is what one byte contributes, and the lemmas behind it are the cases of it
that a match meets.

## 2.  The end

A `$` that anchors the pattern contributes nothing, and nothing is left behind the place where the
pattern stops (`closesFrom_of_stop_le`).

## 3.  What can be left out

`Source.elementRest?` and `Source.afterElement?` jump over an element as a whole and leave the count
as it is, and the captures that `Source.tailCloses?` counts, while it looks for elements that cannot
be left out, are those of the whole rest (`Source.countCloses_of_tailCloses?`).
-/

namespace Linewise
namespace LuaPattern
namespace Source

/-- Whether the byte at a place follows a `%` that is not escaped itself. -/
def isEscaped (p : Source) : Nat → Bool
  | 0 => false
  | i + 1 => p.byteAt i == percent && !p.isEscaped i

/-- The bytes that the number of captures depends on. A `]` outside of a set is none of them. -/
def isMark (c : UInt8) : Bool := c == percent || c == openSet || c == closeGroup

/-- The captures that a pattern closes from a place on, which may stand inside of a set. -/
def closesFrom (p : Source) (inSet : Bool) (i : Nat) : Nat :=
  countCloses (p.isEscaped i) inSet (p.drop i)

variable {p : Source} {i : Nat} {inSet : Bool}

/-! ## 1.  One byte -/

theorem closesFrom_zero (p : Source) : p.closesFrom false 0 = p.closeCount := rfl

theorem isEscaped_succ_of_ne (h : p.byteAt i ≠ percent) : p.isEscaped (i + 1) = false := by
  rw [isEscaped, beq_false_of_ne h, Bool.false_and]

/-- An escaped byte does not escape the next one. -/
theorem isEscaped_succ_of_isEscaped (h : p.isEscaped i = true) : p.isEscaped (i + 1) = false := by
  rw [isEscaped, h, Bool.not_true, Bool.and_false]

theorem isEscaped_succ_of_percent (h : p.isEscaped i = false) (hat : p.byteAt i = percent) :
    p.isEscaped (i + 1) = true := by
  rw [isEscaped, hat, h]
  rfl

theorem drop_eq_cons_byteAt (hlt : i < p.length) : p.drop i = p.byteAt i :: p.drop (i + 1) := by
  rw [List.drop_eq_getElem_cons hlt, byteAt, List.getD_eq_getElem?_getD,
    List.getElem?_eq_getElem hlt, Option.getD_some]

/-- What the count goes on with behind an escaped byte. -/
theorem closesFrom_of_isEscaped (hlt : i < p.length) (h : p.isEscaped i = true) :
    p.closesFrom inSet i = p.closesFrom inSet (i + 1) := by
  rw [closesFrom, closesFrom, isEscaped_succ_of_isEscaped h, h, drop_eq_cons_byteAt hlt,
    countCloses]

/-- What the count goes on with behind a byte that is not escaped. -/
theorem closesFrom_eq (hlt : i < p.length) (h : p.isEscaped i = false) :
    p.closesFrom inSet i =
      if p.byteAt i = openSet then p.closesFrom true (i + 1)
      else if p.byteAt i = closeSet then p.closesFrom false (i + 1)
      else if p.byteAt i = closeGroup && !inSet then p.closesFrom inSet (i + 1) + 1
      else p.closesFrom inSet (i + 1) := by
  rw [closesFrom, h, drop_eq_cons_byteAt hlt, countCloses]
  by_cases hpercent : p.byteAt i = percent
  · rw [if_pos hpercent, closesFrom, isEscaped_succ_of_percent h hpercent, hpercent]
    simp [percent, openSet, closeSet, closeGroup, closesFrom, isEscaped_succ_of_percent h hpercent]
  · simp only [if_neg hpercent, closesFrom, isEscaped_succ_of_ne hpercent]

theorem closesFrom_openSet (h : p.isEscaped i = false) (hat : p.byteAt i = openSet) :
    p.closesFrom inSet i = p.closesFrom true (i + 1) := by
  rw [closesFrom_eq (lt_length_of_byteAt_ne (by rw [hat]; decide)) h, if_pos hat]

theorem closesFrom_closeSet (h : p.isEscaped i = false) (hat : p.byteAt i = closeSet) :
    p.closesFrom inSet i = p.closesFrom false (i + 1) := by
  rw [closesFrom_eq (lt_length_of_byteAt_ne (by rw [hat]; decide)) h, hat, if_neg (by decide),
    if_pos rfl]

theorem closesFrom_closeGroup (h : p.isEscaped i = false) (hat : p.byteAt i = closeGroup) :
    p.closesFrom false i = p.closesFrom false (i + 1) + 1 := by
  rw [closesFrom_eq (lt_length_of_byteAt_ne (by rw [hat]; decide)) h, hat, if_neg (by decide),
    if_neg (by decide), if_pos (by decide)]

theorem isMark_eq_false_iff {c : UInt8} :
    isMark c = false ↔ c ≠ percent ∧ c ≠ openSet ∧ c ≠ closeGroup := by
  simp [isMark, and_assoc]

/-- A byte that is no mark contributes nothing outside of sets. -/
theorem countCloses_of_isMark_eq_false {c : UInt8} (h : isMark c = false) (rest : Source) :
    countCloses false false (c :: rest) = countCloses false false rest := by
  obtain ⟨hpercent, hopen, hgroup⟩ := isMark_eq_false_iff.mp h
  have hplain : ¬(decide (c = closeGroup) && !false) = true := by simp [hgroup]
  rw [countCloses, if_neg hpercent, if_neg hopen, if_neg hplain, ite_self]

/-- Inside of a set only `]` changes the count. -/
theorem closesFrom_member (hlt : i < p.length) (h : p.isEscaped i = false)
    (hclose : p.byteAt i ≠ closeSet) : p.closesFrom true i = p.closesFrom true (i + 1) := by
  rw [closesFrom_eq hlt h, if_neg hclose]
  split
  · rfl
  · rw [if_neg (by simp)]

/-- Outside of a set, `[` and `)` do. -/
theorem closesFrom_single (hlt : i < p.length) (h : p.isEscaped i = false)
    (hopen : p.byteAt i ≠ openSet) (hgroup : p.byteAt i ≠ closeGroup) :
    p.closesFrom false i = p.closesFrom false (i + 1) := by
  rw [closesFrom_eq hlt h, if_neg hopen]
  split
  · rfl
  · rw [if_neg (by simp [hgroup])]

/-- Behind an escape, nothing is escaped. -/
theorem isEscaped_add_two (h : p.isEscaped i = false) (hat : p.byteAt i = percent) :
    p.isEscaped (i + 2) = false :=
  isEscaped_succ_of_isEscaped (isEscaped_succ_of_percent h hat)

/-- An escape is passed over together with the byte behind it. -/
theorem closesFrom_escape (hlt : i + 1 < p.length) (h : p.isEscaped i = false)
    (hat : p.byteAt i = percent) : p.closesFrom inSet i = p.closesFrom inSet (i + 2) := by
  have hescaped := isEscaped_succ_of_percent h hat
  rw [← closesFrom_of_isEscaped hlt hescaped, closesFrom_eq (Nat.lt_of_succ_lt hlt) h, hat]
  simp [percent, openSet, closeSet, closeGroup]

/-! ## 2.  The end -/

/-- A `$` at the end contributes nothing. -/
theorem countCloses_append_dollar (escaped inSet : Bool) (l : Source) :
    countCloses escaped inSet (l ++ [dollar]) = countCloses escaped inSet l := by
  induction l generalizing escaped inSet with
  | nil => cases escaped <;> rfl
  | cons c l ih =>
    cases escaped with
    | true => exact ih false inSet
    | false => simp only [List.cons_append, countCloses, ih]

end Source

/-- The pattern stops at its end, or in front of a `$` there. -/
def StopsAtEnd (cfg : Setting) : Prop :=
  cfg.pattern.drop cfg.stop = [] ∨ cfg.pattern.drop cfg.stop = [dollar]

theorem stopsAtEnd_of_start {cfg : Setting} {s : State} {pattern : Source} {text : Text}
    {offset : Nat} (h : start pattern text offset = .ready cfg s) : StopsAtEnd cfg := by
  unfold start at h
  split at h
  · cases h
  · dsimp only at h
    split at h
    · cases h
    · cases h
      by_cases hend : (decide ((if (pattern.byteAt 0 == caret) = true then 1 else 0) <
          pattern.length) && pattern.byteAt (pattern.length - 1) == dollar) = true
      · right
        obtain ⟨hlt, hlast⟩ := Bool.and_eq_true_iff.mp hend
        have hpos : 0 < pattern.length := Nat.lt_of_le_of_lt (Nat.zero_le _) (of_decide_eq_true hlt)
        show pattern.drop (if _ then pattern.length - 1 else pattern.length) = [dollar]
        rw [if_pos hend, Source.drop_eq_cons_byteAt (by omega), beq_iff_eq.mp hlast,
          List.drop_eq_nil_of_le (by omega)]
      · left
        show pattern.drop (if _ then pattern.length - 1 else pattern.length) = []
        rw [if_neg hend, List.drop_length]

/-- Nothing is left to be counted behind the place where the pattern stops. -/
theorem closesFrom_of_stop_le {cfg : Setting} {i : Nat} {inSet : Bool} (h : StopsAtEnd cfg)
    (hle : cfg.stop ≤ i) : cfg.pattern.closesFrom inSet i = 0 := by
  have hdrop : cfg.pattern.drop i = (cfg.pattern.drop cfg.stop).drop (i - cfg.stop) := by
    rw [List.drop_drop, Nat.add_sub_cancel' hle]
  have hnone : ∀ escaped, Source.countCloses escaped inSet [] = 0 := by
    intro escaped
    cases escaped <;> rfl
  rw [Source.closesFrom, hdrop]
  rcases h with hnil | hdollar
  · rw [hnil, List.drop_nil, hnone]
  · rw [hdollar]
    cases i - cfg.stop with
    | zero => exact (Source.countCloses_append_dollar _ _ []).trans (hnone _)
    | succ n => rw [List.drop_succ_cons, List.drop_nil, hnone]

/-- In front of that place, what the pattern stops at may be left out. -/
theorem closesFrom_eq_countCloses {cfg : Setting} {i : Nat} (h : StopsAtEnd cfg)
    (hle : i ≤ cfg.stop) (hescaped : cfg.pattern.isEscaped i = false) :
    cfg.pattern.closesFrom false i =
      Source.countCloses false false ((cfg.pattern.take cfg.stop).drop i) := by
  have hdrop : cfg.pattern.drop i =
      (cfg.pattern.take cfg.stop).drop i ++ cfg.pattern.drop cfg.stop := by
    have hparts := List.take_append_drop (cfg.stop - i) (cfg.pattern.drop i)
    rw [List.drop_drop, Nat.add_sub_cancel' hle, ← List.drop_take] at hparts
    exact hparts.symm
  rw [Source.closesFrom, hescaped, hdrop]
  rcases h with hnil | hdollar
  · rw [hnil, List.append_nil]
  · rw [hdollar, Source.countCloses_append_dollar]

namespace Source

/-! ## 3.  What can be left out -/

/-- Behind the `]` of a set, the count goes on outside of it. -/
theorem countCloses_of_setRest? {escaped : Bool} {l rest : Source}
    (h : setRest? escaped l = some rest) :
    countCloses escaped true l = countCloses false false rest := by
  induction l generalizing escaped with
  | nil => cases escaped <;> cases h
  | cons c l ih =>
    cases escaped with
    | true => exact ih h
    | false =>
      rw [setRest?] at h
      rw [countCloses]
      split at h
      · next hpercent => rw [if_pos hpercent, ih h]
      · next hpercent =>
        rw [if_neg hpercent]
        split at h
        · next hclose =>
          cases h
          rw [hclose, if_neg (by decide), if_pos rfl]
        · next hclose =>
          simp only [if_neg hclose, ih h, Bool.not_true, Bool.and_false, Bool.false_eq_true,
            if_false, ite_self]

/-- An element closes no capture. -/
theorem countCloses_of_elementRest? {c : UInt8} {l rest : Source} (hgroup : c ≠ closeGroup)
    (h : elementRest? (c :: l) = some rest) :
    countCloses false false (c :: l) = countCloses false false rest := by
  simp only [elementRest?] at h
  rw [countCloses]
  split at h
  · next hpercent =>
    rw [if_pos hpercent]
    split at h
    · cases h
      rfl
    · split at h
      · cases h
      · cases h
        rfl
  · next hpercent =>
    split at h
    · next hopen =>
      rw [if_neg hpercent, if_pos hopen]
      split at h
      · cases h
      · next d inner =>
        split at h
        · next hcaret =>
          rw [← countCloses_of_setRest? h, hcaret]
          rfl
        · exact countCloses_of_setRest? h
    · next hopen =>
      cases h
      exact countCloses_of_isMark_eq_false (isMark_eq_false_iff.mpr ⟨hpercent, hopen, hgroup⟩) l

/-- A quantifier is no mark. -/
theorem isMark_of_isQuantifier {q : UInt8} (h : isQuantifier q = true) : isMark q = false := by
  simp only [isQuantifier, isOptional, Bool.or_eq_true, beq_iff_eq] at h
  obtain ((rfl | rfl) | rfl) | rfl := h <;> rfl

/-- So it closes no capture. -/
theorem countCloses_of_isQuantifier {q : UInt8} (h : isQuantifier q = true) (rest : Source) :
    countCloses false false (q :: rest) = countCloses false false rest :=
  countCloses_of_isMark_eq_false (isMark_of_isQuantifier h) rest

/-- Neither does an element together with its quantifier. -/
theorem countCloses_of_afterElement? {c : UInt8} {l rest : Source} (hgroup : c ≠ closeGroup)
    (h : afterElement? (c :: l) = some rest) :
    countCloses false false (c :: l) = countCloses false false rest := by
  unfold afterElement? at h
  split at h
  · cases h
  · next hrest =>
    cases h
    exact countCloses_of_elementRest? hgroup hrest
  · next q behind hrest =>
    rw [countCloses_of_elementRest? hgroup hrest]
    split at h
    · next hq =>
      cases h
      exact countCloses_of_isQuantifier hq rest
    · cases h
      rfl

theorem countCloses_of_optionalCloses? (n : Nat) {l : Source} {k : Nat}
    (h : optionalCloses? n l = some k) : countCloses false false l = k := by
  induction n generalizing l k with
  | zero =>
    cases l with
    | nil => exact Option.some.inj h
    | cons c l => cases h
  | succ n ih =>
    cases l with
    | nil => exact Option.some.inj h
    | cons c l =>
      rw [optionalCloses?] at h
      split at h
      · next hopen =>
        rw [← ih h, hopen]
        rfl
      · split at h
        · next hclose =>
          obtain ⟨j, hj, rfl⟩ := Option.map_eq_some_iff.mp h
          rw [← ih hj, hclose]
          rfl
        · next hclose =>
          split at h
          · cases h
          · cases h
          · next q rest hrest =>
            split at h
            · next hq =>
              have hquantifier : isQuantifier q = true := by rw [isQuantifier, hq, Bool.true_or]
              rw [countCloses_of_elementRest? hclose hrest,
                countCloses_of_isQuantifier hquantifier, ih h]
            · cases h

/-- **A rest that can match the empty text closes the captures that are counted for it.** -/
theorem countCloses_of_tailCloses? {l : Source} {k : Nat} (h : tailCloses? l = some k) :
    l.closeCount = k := countCloses_of_optionalCloses? l.length h

end Source
end LuaPattern
end Linewise
