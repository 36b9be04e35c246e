import Mathlib.Data.Nat.Bitwise
import Linewise.Carry

/-!
# The fields of a carry

A carry is one word, but everything that is done to it is done to a field: `mark` writes one, and
`truncate` clears those from a level on. This file says so, first bit by bit and then for `field`
and `active?`, which is how the rest of the theory reads a carry.

## 1.  Bits

* `testBit_field` --- a field below `maxDepth` is eight bits of the word;
* `getLsbD_truncate`, `getLsbD_mark` --- the bits of a word that was truncated or marked.

## 2.  Fields

* `mark_of_not_markable` --- a level or a rule that does not fit is not marked;
* `field_truncate`, `field_mark` --- the same as above, field by field;
* `active?_truncate`, `active?_mark` --- and for the rules that the fields name.

## 3.  Carries without anything above a level

That truncating a carry to a level changes nothing says that nothing is open from that level on, and
that the unused half of the word is clear. `truncate_truncate` and `truncate_mark_eq` say how
truncating goes together with the other operations, so how such carries come about, and
`truncate_of_field_eq_zero` that a level whose field is clear can be given up as well.
-/

namespace Linewise
namespace Carry

variable {c : Carry} {l level rule n : Nat}

/-! ## 1.  Bits -/

/-- The word whose lowest `n` bits are set. -/
theorem getLsbD_lowBits (hn : n < 64) (i : Nat) :
    ((1#64 <<< n) - 1).getLsbD i = decide (i < n) := by
  have hpos : 0 < 2 ^ n := Nat.two_pow_pos n
  have hlt : 2 ^ n < 2 ^ 64 := Nat.pow_lt_pow_right (by decide) hn
  have hword : (1#64 <<< n) - 1 = BitVec.ofNat 64 (2 ^ n - 1) := by
    refine BitVec.eq_of_toNat_eq ?_
    simp only [BitVec.ofNat_eq_ofNat, BitVec.toNat_sub, BitVec.toNat_shiftLeft, BitVec.toNat_ofNat,
      Nat.shiftLeft_eq]
    omega
  rw [hword, BitVec.getLsbD_ofNat, Nat.testBit_two_pow_sub_one]
  by_cases h : i < n
  · simp [h, Nat.lt_trans h hn]
  · simp [h]

/-- The mask of one field. -/
theorem getLsbD_fieldMask (i : Nat) : (0xFF#64).getLsbD i = decide (i < 8) := by
  have hmask : 0xFF#64 = (1#64 <<< 8) - 1 := by decide
  rw [hmask, getLsbD_lowBits (show 8 < 64 by decide)]

/-- **A field is eight bits of the word.** -/
theorem testBit_field (c : Carry) (hl : l < maxDepth) (i : Nat) :
    (c.field l).testBit i = (decide (i < 8) && c.bits.getLsbD (8 * l + i)) := by
  rw [field, if_neg (Nat.not_le_of_lt hl), BitVec.testBit_toNat, BitVec.getLsbD_and,
    BitVec.ofNat_eq_ofNat, getLsbD_fieldMask, BitVec.getLsbD_ushiftRight, Bool.and_comm]

/-- There is no field past the last level. -/
theorem field_of_maxDepth_le (c : Carry) (hl : maxDepth ≤ l) : c.field l = 0 := by
  rw [field, if_pos hl]

theorem getLsbD_truncate (c : Carry) (n i : Nat) :
    (c.truncate n).bits.getLsbD i = (decide (i < 8 * min n maxDepth) && c.bits.getLsbD i) := by
  have hlt : 8 * min n maxDepth < 64 := by
    rw [maxDepth]
    omega
  rw [truncate]
  dsimp only
  rw [BitVec.getLsbD_and, getLsbD_lowBits hlt, Bool.and_comm]

theorem getLsbD_mark (c : Carry) (hlevel : level < maxDepth) (hrule : rule < maxRules) (i : Nat) :
    (c.mark level rule).bits.getLsbD i =
      if 8 * level ≤ i ∧ i < 8 * level + 8 then (rule + 1).testBit (i - 8 * level)
      else c.bits.getLsbD i := by
  have hguard : ¬ (maxDepth ≤ level || maxRules ≤ rule) = true := by
    simp only [Bool.or_eq_true, decide_eq_true_eq]
    omega
  have hsize : rule + 1 < 2 ^ 8 := by
    rw [maxRules] at hrule
    omega
  rw [maxDepth] at hlevel
  rw [mark, if_neg hguard]
  simp only [BitVec.getLsbD_or, BitVec.getLsbD_and, BitVec.getLsbD_not, BitVec.getLsbD_shiftLeft,
    getLsbD_fieldMask]
  rw [BitVec.getLsbD_ofNat]
  by_cases hfield : 8 * level ≤ i ∧ i < 8 * level + 8
  · rw [if_pos hfield]
    have h64 : i < 64 := by omega
    have hoff : i - 8 * level < 8 := by omega
    have hnot : ¬ i < 8 * level := by omega
    have hoff64 : i - 8 * level < 64 := by omega
    simp [h64, hoff, hnot, hoff64]
  · rw [if_neg hfield]
    by_cases hbelow : i < 8 * level
    · have h64 : i < 64 := by omega
      simp [hbelow, h64]
    · -- no rule number has a bit above its field
      have hbit : (rule + 1).testBit (i - 8 * level) = false := by
        refine Nat.testBit_lt_two_pow (Nat.lt_of_lt_of_le hsize ?_)
        exact Nat.pow_le_pow_right (by decide) (by omega)
      have hoff : ¬ i - 8 * level < 8 := by omega
      rw [hbit]
      by_cases h64 : i < 64
      · simp [h64, hoff]
      · simp [BitVec.getLsbD_of_ge c.bits i (Nat.le_of_not_lt h64), h64]

/-! ## 2.  Fields -/

/-- A carry has a field for this level, and the field can hold this rule. -/
structure Markable (level rule : Nat) : Prop where
  /-- There is a field for the level. -/
  level_lt : level < maxDepth
  /-- The number of the rule fits into it. -/
  rule_lt : rule < maxRules

/-- What does not fit is not marked. -/
theorem mark_of_not_markable (c : Carry) (h : ¬ Markable level rule) : c.mark level rule = c := by
  have hguard : (maxDepth ≤ level || maxRules ≤ rule) = true := by
    rw [Bool.or_eq_true, decide_eq_true_eq, decide_eq_true_eq]
    by_contra hfits
    exact h ⟨by omega, by omega⟩
  rw [mark, if_pos hguard]

theorem field_lt (c : Carry) (l : Nat) : c.field l < 2 ^ 8 := by
  rcases Nat.lt_or_ge l maxDepth with hl | hl
  · refine Nat.lt_pow_two_of_testBit _ fun i hi => ?_
    rw [testBit_field c hl, decide_eq_false (Nat.not_lt_of_le hi), Bool.false_and]
  · rw [field_of_maxDepth_le c hl]
    decide

/-- **Truncating clears the fields from a level on, and keeps those below it.** -/
theorem field_truncate (c : Carry) (n l : Nat) :
    (c.truncate n).field l = if l < n then c.field l else 0 := by
  rcases Nat.lt_or_ge l maxDepth with hl | hl
  · refine Nat.eq_of_testBit_eq fun i => ?_
    rw [testBit_field _ hl, getLsbD_truncate]
    rw [maxDepth] at hl ⊢
    by_cases hi : i < 8
    · by_cases hn : l < n
      · have hkept : 8 * l + i < 8 * min n 4 := by omega
        rw [if_pos hn, testBit_field _ hl]
        simp [hi, hkept]
      · have hcut : ¬ 8 * l + i < 8 * min n 4 := by omega
        simp [hn, hcut]
    · by_cases hn : l < n
      · rw [if_pos hn, testBit_field _ hl]
        simp [hi]
      · simp [hn, hi]
  · rw [field_of_maxDepth_le _ hl, field_of_maxDepth_le _ hl, ite_self]

/-- **Marking writes one field.** -/
theorem field_mark (c : Carry) (hlevel : level < maxDepth) (hrule : rule < maxRules) (l : Nat) :
    (c.mark level rule).field l = if l = level then rule + 1 else c.field l := by
  rcases Nat.lt_or_ge l maxDepth with hl | hl
  · refine Nat.eq_of_testBit_eq fun i => ?_
    rw [testBit_field _ hl, getLsbD_mark c hlevel hrule]
    by_cases hi : i < 8
    · by_cases hn : l = level
      · subst hn
        have hin : 8 * l ≤ 8 * l + i ∧ 8 * l + i < 8 * l + 8 := by omega
        simp [hi, hin]
      · have hout : ¬ (8 * level ≤ 8 * l + i ∧ 8 * l + i < 8 * level + 8) := by omega
        rw [if_neg hout, if_neg hn, testBit_field _ hl]
    · by_cases hn : l = level
      · have hsize : rule + 1 < 2 ^ 8 := by
          rw [maxRules] at hrule
          omega
        have hbit : (rule + 1).testBit i = false :=
          Nat.testBit_lt_two_pow
            (Nat.lt_of_lt_of_le hsize (Nat.pow_le_pow_right (by decide) (Nat.le_of_not_lt hi)))
        simp [hi, hn, hbit]
      · rw [if_neg hn, testBit_field _ hl]
        simp [hi]
  · have hne : l ≠ level := by omega
    rw [if_neg hne, field_of_maxDepth_le _ hl, field_of_maxDepth_le _ hl]

theorem active?_eq_some_iff : c.active? l = some rule ↔ c.field l = rule + 1 := by
  rw [active?]
  split
  · next h => simp [h]
  · next h => simp [h]

theorem active?_eq_none_iff : c.active? l = none ↔ c.field l = 0 := by
  rw [active?]
  split
  · next h => simp [h]
  · next h => simp [h]

theorem active?_congr {c' : Carry} (h : c.field l = c'.field l) : c.active? l = c'.active? l := by
  rw [active?, active?, h]

theorem active?_truncate (c : Carry) (n l : Nat) :
    (c.truncate n).active? l = if l < n then c.active? l else none := by
  by_cases h : l < n
  · rw [if_pos h]
    exact active?_congr (by rw [field_truncate, if_pos h])
  · rw [if_neg h, active?_eq_none_iff, field_truncate, if_neg h]

theorem active?_mark (c : Carry) (hlevel : level < maxDepth) (hrule : rule < maxRules) (l : Nat) :
    (c.mark level rule).active? l = if l = level then some rule else c.active? l := by
  by_cases h : l = level
  · rw [if_pos h, active?_eq_some_iff, field_mark c hlevel hrule, if_pos h]
  · rw [if_neg h]
    exact active?_congr (by rw [field_mark c hlevel hrule, if_neg h])

/-! ## 3.  Carries without anything above a level -/

theorem ext_bits {c' : Carry} (h : ∀ i, c.bits.getLsbD i = c'.bits.getLsbD i) : c = c' := by
  have hbits : c.bits = c'.bits := BitVec.eq_of_getLsbD_eq fun i _ => h i
  cases c
  cases c'
  exact congrArg Carry.mk hbits

/-- Below level `0` nothing is kept. -/
theorem truncate_zero (c : Carry) : c.truncate 0 = .clear := by
  refine ext_bits fun i => ?_
  rw [getLsbD_truncate, Nat.zero_min, Nat.mul_zero, decide_eq_false (Nat.not_lt_zero i),
    Bool.false_and]
  exact (BitVec.getLsbD_zero).symm

/-- **Truncating twice truncates to the lower level.** -/
theorem truncate_truncate (c : Carry) (m n : Nat) :
    (c.truncate m).truncate n = c.truncate (min m n) := by
  refine ext_bits fun i => ?_
  simp only [getLsbD_truncate]
  by_cases h : i < 8 * min (min m n) maxDepth
  · have hm : i < 8 * min m maxDepth := by omega
    have hn : i < 8 * min n maxDepth := by omega
    simp only [h, hm, hn, decide_true, Bool.true_and]
  · have hcut : ¬ i < 8 * min n maxDepth ∨ ¬ i < 8 * min m maxDepth := by omega
    rcases hcut with hn | hm
    · simp only [h, hn, decide_false, Bool.false_and]
    · simp only [h, hm, decide_false, Bool.false_and, Bool.and_false]

/-- **Truncating takes a mark back that it cuts off, and commutes with any other**, whether or not
the level and the rule fit. -/
theorem truncate_mark_eq (c : Carry) (level rule n : Nat) :
    (c.mark level rule).truncate n =
      if level < n then (c.truncate n).mark level rule else c.truncate n := by
  by_cases h : Markable level rule
  · refine ext_bits fun i => ?_
    rw [getLsbD_truncate, getLsbD_mark c h.level_lt h.rule_lt]
    have hlevel := h.level_lt
    by_cases hn : level < n
    · rw [if_pos hn, getLsbD_mark _ h.level_lt h.rule_lt, getLsbD_truncate]
      by_cases hfield : 8 * level ≤ i ∧ i < 8 * level + 8
      · -- the whole field is kept
        have hkept : i < 8 * min n maxDepth := by omega
        rw [if_pos hfield, if_pos hfield, decide_eq_true hkept, Bool.true_and]
      · rw [if_neg hfield, if_neg hfield]
    · rw [if_neg hn, getLsbD_truncate]
      by_cases hkept : i < 8 * min n maxDepth
      · have hbelow : ¬ (8 * level ≤ i ∧ i < 8 * level + 8) := by omega
        rw [if_neg hbelow]
      · rw [decide_eq_false hkept, Bool.false_and, Bool.false_and]
  · rw [mark_of_not_markable _ h, mark_of_not_markable _ h, ite_self]

/-- Marking a level keeps a carry clear from a higher level on. -/
theorem truncate_mark (hn : level < n) (h : c.truncate n = c) :
    (c.mark level rule).truncate n = c.mark level rule := by
  rw [truncate_mark_eq, if_pos hn, h]

/-- A carry that is clear from level `n + 1` on, and whose field at level `n` is clear, is clear
from level `n` on. -/
theorem truncate_of_field_eq_zero (h : c.truncate (n + 1) = c) (hfield : c.field n = 0) :
    c.truncate n = c := by
  refine ext_bits fun i => ?_
  have hbit : c.bits.getLsbD i =
      (decide (i < 8 * min (n + 1) maxDepth) && c.bits.getLsbD i) := by
    rw [← getLsbD_truncate, h]
  rw [getLsbD_truncate]
  by_cases hlow : i < 8 * min n maxDepth
  · simp only [hlow, decide_true, Bool.true_and]
  · rw [decide_eq_false hlow, Bool.false_and]
    by_cases hlevel : i < 8 * min (n + 1) maxDepth
    · -- the bit lies in the field of level `n`
      have hn : n < maxDepth := by omega
      have hin : (c.field n).testBit (i - 8 * n) = c.bits.getLsbD i := by
        rw [testBit_field c hn, decide_eq_true (show i - 8 * n < 8 by omega), Bool.true_and]
        exact congrArg c.bits.getLsbD (by omega)
      rw [← hin, hfield, Nat.zero_testBit]
    · rw [hbit, decide_eq_false hlevel, Bool.false_and]

/-- What is clear from a level on is clear from every higher level on. -/
theorem truncate_of_le {m : Nat} (h : c.truncate m = c) (hle : m ≤ n) : c.truncate n = c := by
  have htwice := truncate_truncate c m n
  rw [h, Nat.min_eq_left hle, h] at htwice
  exact htwice

/-- Two carries that are truncated at the same level are equal if the same rules are open. -/
theorem eq_of_active? {c' : Carry} (h : c.truncate n = c) (h' : c'.truncate n = c')
    (hactive : ∀ l < n, c.active? l = c'.active? l) : c = c' := by
  refine ext_bits fun i => ?_
  rw [← h, ← h', getLsbD_truncate, getLsbD_truncate]
  by_cases hi : i < 8 * min n maxDepth
  · have hl : i / 8 < min n maxDepth := by omega
    have hfield : c.field (i / 8) = c'.field (i / 8) := by
      have hsame := hactive (i / 8) (by omega)
      cases hrule : c.active? (i / 8) with
      | none =>
        rw [active?_eq_none_iff.mp hrule, active?_eq_none_iff.mp (hsame ▸ hrule)]
      | some rule =>
        rw [active?_eq_some_iff.mp hrule, active?_eq_some_iff.mp (hsame ▸ hrule)]
    have hbit := testBit_field c (show i / 8 < maxDepth by omega) (i % 8)
    rw [hfield, testBit_field c' (show i / 8 < maxDepth by omega), Nat.div_add_mod] at hbit
    rw [decide_eq_true (Nat.mod_lt i (by decide)), Bool.true_and, Bool.true_and] at hbit
    rw [hbit]
  · rw [decide_eq_false hi, Bool.false_and, Bool.false_and]

/-- A truncated carry leaves the upper half of the word clear. -/
theorem toNat_bits_lt (h : c.truncate n = c) : c.bits.toNat < 2 ^ (8 * min n maxDepth) := by
  refine Nat.lt_pow_two_of_testBit _ fun i hi => ?_
  rw [BitVec.testBit_toNat, ← h, getLsbD_truncate, decide_eq_false (Nat.not_lt_of_le hi),
    Bool.false_and]

end Carry
end Linewise
