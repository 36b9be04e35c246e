import Mathlib.Data.List.Induction
import Linewise.Proofs.Carry

/-!
# Packing and unpacking levels

`ofLevels` packs pairs of a level and a rule into a word, and `levels` unpacks the open levels of a
word. Neither is the inverse of the other: a list can name a level twice or leave one out, and a
word can have a closed level below a marked one, or garbage in its upper half. This file says what
each of them does to any list and any word, and on which lists and words they are inverse.

## 1.  Packing

In each field stands the last rule that the list gives for it and that fits (`field_ofLevels`), and
the upper half of the word is clear (`truncate_ofLevels`).

## 2.  Unpacking

The list goes on as long as levels are open (`lt_length_levels_iff`).

## 3.  Back and forth

Packing what was unpacked truncates the word behind its open levels (`ofLevels_levels`). So it
answers the same word for the words that have nothing there (`ofLevels_levels_eq_iff`). Unpacking
what was packed answers the same list if the list names the levels one after another
(`levels_ofLevels`). `packing_laws` puts all of this together, with the laws of truncating.
-/

namespace Linewise
namespace Carry

variable {c : Carry} {l level rule n : Nat} {ps : List (Nat × Nat)}

/-! ## 1.  Packing -/

theorem ofLevels_append_singleton (ps : List (Nat × Nat)) (p : Nat × Nat) :
    ofLevels (ps ++ [p]) = (ofLevels ps).mark p.1 p.2 := by
  rw [ofLevels, List.foldl_append]
  rfl

/-- The last rule that a list gives for a level, of those that fit into a field. -/
def lastRule? (l : Nat) (ps : List (Nat × Nat)) : Option Nat :=
  (ps.filter fun p => p.1 = l ∧ p.2 < maxRules).getLast?.map Prod.snd

/-- One pair more counts if it is about the level and fits. -/
theorem lastRule?_append_singleton (l : Nat) (ps : List (Nat × Nat)) (p : Nat × Nat) :
    lastRule? l (ps ++ [p]) = if p.1 = l ∧ p.2 < maxRules then some p.2 else lastRule? l ps := by
  rw [lastRule?, lastRule?, List.filter_append, List.filter_cons, List.filter_nil]
  by_cases h : p.1 = l ∧ p.2 < maxRules
  · rw [if_pos (decide_eq_true h), if_pos h, List.getLast?_concat, Option.map_some]
  · rw [if_neg (mt of_decide_eq_true h), if_neg h, List.append_nil]

/-- **In each field stands the last rule that is given for it.** -/
theorem field_ofLevels (ps : List (Nat × Nat)) (hl : l < maxDepth) :
    (ofLevels ps).field l = (lastRule? l ps).elim 0 (· + 1) := by
  induction ps using List.reverseRecOn with
  | nil =>
    have hclear : (ofLevels []).field l = 0 := by
      have hzero := field_truncate clear 0 l
      rwa [truncate_zero, if_neg (Nat.not_lt_zero l)] at hzero
    exact hclear
  | append_singleton ps p ih =>
    rw [ofLevels_append_singleton, lastRule?_append_singleton]
    by_cases hp : Markable p.1 p.2
    · rw [field_mark _ hp.level_lt hp.rule_lt, ih]
      by_cases hlevel : l = p.1
      · rw [if_pos hlevel, if_pos ⟨hlevel.symm, hp.rule_lt⟩, Option.elim_some]
      · rw [if_neg hlevel, if_neg fun h => hlevel h.1.symm]
    · have hother : ¬ (p.1 = l ∧ p.2 < maxRules) := fun h => hp ⟨h.1 ▸ hl, h.2⟩
      rw [mark_of_not_markable _ hp, if_neg hother, ih]

/-- The upper half of a packed word is clear. -/
theorem truncate_ofLevels (ps : List (Nat × Nat)) :
    (ofLevels ps).truncate maxDepth = ofLevels ps := by
  induction ps using List.reverseRecOn with
  | nil => decide
  | append_singleton ps p ih =>
    rw [ofLevels_append_singleton]
    by_cases hp : Markable p.1 p.2
    · exact truncate_mark hp.level_lt ih
    · rw [mark_of_not_markable _ hp, ih]

/-- A word without an upper half is a word that truncating to all levels leaves as it is. -/
theorem truncate_maxDepth_eq_iff :
    c.truncate maxDepth = c ↔ ∀ i, 32 ≤ i → c.bits.getLsbD i = false := by
  constructor
  · intro h i hi
    have hcut : ¬ i < 8 * min maxDepth maxDepth := by
      rw [maxDepth]
      omega
    rw [← h, getLsbD_truncate, decide_eq_false hcut, Bool.false_and]
  · intro h
    refine ext_bits fun i => ?_
    rw [getLsbD_truncate]
    by_cases hi : i < 8 * min maxDepth maxDepth
    · rw [decide_eq_true hi, Bool.true_and]
    · rw [maxDepth] at hi
      rw [h i (by omega), Bool.and_false]

/-! ## 2.  Unpacking -/

/-- A rule that is open fits into its field. -/
theorem markable_of_active? (h : c.active? l = some rule) : Markable l rule := by
  have hfield := active?_eq_some_iff.mp h
  constructor
  · by_contra hl
    rw [field_of_maxDepth_le c (Nat.le_of_not_lt hl)] at hfield
    cases hfield
  · have hlt := c.field_lt l
    rw [maxRules]
    omega

/-- There are more than `i` levels if the levels up to the `i`-th are open. -/
theorem lt_length_levelsFrom_iff (c : Carry) (n level i : Nat) :
    i < (c.levelsFrom n level).length ↔
      i < n ∧ ∀ m, level ≤ m → m ≤ level + i → c.field m ≠ 0 := by
  induction n generalizing level i with
  | zero => simp [levelsFrom]
  | succ n ih =>
    rw [levelsFrom]
    cases hrule : c.active? level with
    | none =>
      have hclosed := active?_eq_none_iff.mp hrule
      constructor
      · intro h
        cases h
      · rintro ⟨-, h⟩
        exact absurd hclosed (h level (Nat.le_refl _) (Nat.le_add_right _ _))
    | some rule =>
      have hopen : c.field level ≠ 0 := by
        rw [active?_eq_some_iff.mp hrule]
        exact Nat.succ_ne_zero rule
      dsimp only
      rw [List.length_cons]
      cases i with
      | zero =>
        refine ⟨fun _ => ⟨Nat.succ_pos n, fun m hm hm' => ?_⟩, fun _ => Nat.succ_pos _⟩
        rwa [Nat.le_antisymm hm' hm]
      | succ i =>
        rw [Nat.succ_lt_succ_iff, Nat.succ_lt_succ_iff, ih]
        refine and_congr_right fun _ => ⟨fun h m hm hm' => ?_, fun h m hm hm' => ?_⟩
        · rcases Nat.eq_or_lt_of_le hm with rfl | hlt
          · exact hopen
          · exact h m hlt (by omega)
        · exact h m (by omega) (by omega)

/-- **A level is listed if all levels up to it are open.** -/
theorem lt_length_levels_iff (c : Carry) (l : Nat) :
    l < c.levels.length ↔ ∀ m ≤ l, c.field m ≠ 0 := by
  rw [levels, lt_length_levelsFrom_iff]
  constructor
  · rintro ⟨-, h⟩ m hm
    exact h m (Nat.zero_le m) (by omega)
  · intro h
    refine ⟨?_, fun m _ hm => h m (by omega)⟩
    by_contra hl
    exact h l (Nat.le_refl l) (field_of_maxDepth_le c (Nat.le_of_not_lt hl))

theorem length_levels_le (c : Carry) : c.levels.length ≤ maxDepth := by
  by_contra h
  have hopen := (lt_length_levels_iff c maxDepth).mp (Nat.lt_of_not_le h)
  exact hopen maxDepth (Nat.le_refl _) (field_of_maxDepth_le c (Nat.le_refl _))

/-- The level behind the listed ones is closed. -/
theorem field_length_levels (c : Carry) : c.field c.levels.length = 0 := by
  by_contra h
  refine Nat.lt_irrefl c.levels.length ((lt_length_levels_iff c _).mpr fun m hm => ?_)
  rcases Nat.eq_or_lt_of_le hm with rfl | hlt
  · exact h
  · exact (lt_length_levels_iff c m).mp hlt m (Nat.le_refl m)

/-- A carry whose open rules are those of a list lists what is left of it. -/
theorem levelsFrom_eq_drop (hactive : ∀ l, c.active? l = ps[l]?.map Prod.snd)
    (hlevels : ∀ (l : Nat) (p : Nat × Nat), ps[l]? = some p → p.1 = l)
    (hn : ps.length ≤ level + n) :
    c.levelsFrom n level = ps.drop level := by
  induction n generalizing level with
  | zero => exact (List.drop_eq_nil_of_le hn).symm
  | succ n ih =>
    rw [levelsFrom, hactive]
    cases hp : ps[level]? with
    | none => exact (List.drop_eq_nil_of_le (List.getElem?_eq_none_iff.mp hp)).symm
    | some p =>
      obtain ⟨hlt, hget⟩ := List.getElem?_eq_some_iff.mp hp
      rw [List.drop_eq_getElem_cons hlt, hget, ← ih (show ps.length ≤ level + 1 + n by omega),
        Option.map_some]
      dsimp only
      rw [← hlevels level p hp]

/-! ## 3.  Back and forth -/

/-- Marking the rule that is open at a level keeps one level more. -/
theorem mark_truncate_of_active? (h : c.active? l = some rule) :
    (c.truncate l).mark l rule = c.truncate (l + 1) := by
  have hfits := markable_of_active? h
  have hlow : (c.truncate l).truncate (l + 1) = c.truncate l := by
    rw [truncate_truncate, Nat.min_eq_left (Nat.le_succ l)]
  have hhigh : (c.truncate (l + 1)).truncate (l + 1) = c.truncate (l + 1) := by
    rw [truncate_truncate, Nat.min_self]
  refine eq_of_active? (truncate_mark (Nat.lt_succ_self l) hlow) hhigh fun m hm => ?_
  rw [active?_mark _ hfits.level_lt hfits.rule_lt, active?_truncate, active?_truncate, if_pos hm]
  by_cases heq : m = l
  · rw [if_pos heq, heq, h]
  · rw [if_neg heq, if_pos (by omega)]

/-- Marking the open levels from a level on keeps these levels as well. -/
theorem foldl_levelsFrom (c : Carry) (n level : Nat) :
    (c.levelsFrom n level).foldl (fun c p => c.mark p.1 p.2) (c.truncate level) =
      c.truncate (level + (c.levelsFrom n level).length) := by
  induction n generalizing level with
  | zero => rfl
  | succ n ih =>
    rw [levelsFrom]
    cases hrule : c.active? level with
    | none => rfl
    | some rule =>
      dsimp only
      rw [List.foldl_cons, mark_truncate_of_active? hrule, ih, List.length_cons]
      congr 1
      omega

/-- **Packing what was unpacked truncates the word behind its open levels.** -/
theorem ofLevels_levels (c : Carry) : ofLevels c.levels = c.truncate c.levels.length := by
  have h := foldl_levelsFrom c maxDepth 0
  rwa [truncate_zero, Nat.zero_add] at h

/-- A list names the levels one after another, from the outermost on, each with a rule that fits. -/
structure Consecutive (ps : List (Nat × Nat)) : Prop where
  /-- There is a field for each of them. -/
  length_le : ps.length ≤ maxDepth
  /-- The levels come one after another. -/
  levels : ps.map Prod.fst = List.range ps.length
  /-- The rules fit. -/
  rule_lt : ∀ p ∈ ps, p.2 < maxRules

theorem Consecutive.level_eq (h : Consecutive ps) {p : Nat × Nat} (hp : ps[l]? = some p) :
    p.1 = l := by
  obtain ⟨hlt, -⟩ := List.getElem?_eq_some_iff.mp hp
  have hlevel : (ps.map Prod.fst)[l]? = some p.1 := by rw [List.getElem?_map, hp, Option.map_some]
  rw [h.levels, List.getElem?_range hlt] at hlevel
  exact (Option.some.inj hlevel).symm

/-- Without its last pair it still does. -/
theorem Consecutive.init {p : Nat × Nat} (h : Consecutive (ps ++ [p])) : Consecutive ps := by
  have hlength := h.length_le
  have hlevels := h.levels
  rw [List.length_append, List.length_singleton] at hlength hlevels
  rw [List.map_append, List.range_succ] at hlevels
  exact ⟨by omega, List.append_inj_left hlevels (by rw [List.length_map, List.length_range]),
    fun q hq => h.rule_lt q (List.mem_append_left _ hq)⟩

/-- The rules that are open are those of the list, level by level. -/
theorem Consecutive.active?_ofLevels (h : Consecutive ps) (l : Nat) :
    (ofLevels ps).active? l = ps[l]?.map Prod.snd := by
  induction ps using List.reverseRecOn with
  | nil =>
    rw [List.getElem?_nil, Option.map_none, active?_eq_none_iff]
    rcases Nat.lt_or_ge l maxDepth with hl | hl
    · rw [field_ofLevels [] hl]
      rfl
    · exact field_of_maxDepth_le _ hl
  | append_singleton ps p ih =>
    have hlast : (ps ++ [p])[ps.length]? = some p := List.getElem?_concat_length
    have hlevel := h.level_eq hlast
    have hlength := h.length_le
    rw [List.length_append, List.length_singleton] at hlength
    have hrule : p.2 < maxRules := h.rule_lt p (List.mem_append_right _ List.mem_cons_self)
    rw [ofLevels_append_singleton, active?_mark _ (by omega) hrule, ih h.init, hlevel]
    by_cases hl : l = ps.length
    · rw [if_pos hl, hl, hlast, Option.map_some]
    · rw [if_neg hl, List.getElem?_append]
      by_cases hlt : l < ps.length
      · rw [if_pos hlt]
      · have hbehind : [p][l - ps.length]? = none :=
          List.getElem?_eq_none (by rw [List.length_singleton]; omega)
        rw [if_neg hlt, hbehind, List.getElem?_eq_none (Nat.le_of_not_lt hlt)]

/-- **Unpacking what was packed answers the same list**, if the list names the levels one after
another. -/
theorem levels_ofLevels (h : Consecutive ps) : (ofLevels ps).levels = ps := by
  have hlength : ps.length ≤ 0 + maxDepth := by rw [Nat.zero_add]; exact h.length_le
  have hdrop : (ofLevels ps).levelsFrom maxDepth 0 = ps.drop 0 :=
    levelsFrom_eq_drop h.active?_ofLevels (fun _ _ => h.level_eq) hlength
  rwa [List.drop_zero] at hdrop

/-- A word has a clear upper half, and nothing marked above a closed level. -/
structure Gapless (c : Carry) : Prop where
  /-- The upper half is clear. -/
  upper : ∀ i, 32 ≤ i → c.bits.getLsbD i = false
  /-- Above a closed level nothing is marked. -/
  closed : ∀ l m, l < m → c.field l = 0 → c.field m = 0

/-- **Packing what was unpacked answers the same word exactly if the word has no gap.** -/
theorem ofLevels_levels_eq_iff : ofLevels c.levels = c ↔ c.Gapless := by
  rw [ofLevels_levels]
  constructor
  · intro h
    refine ⟨truncate_maxDepth_eq_iff.mp (truncate_of_le h c.length_levels_le), fun l m hlm hl => ?_⟩
    have hlength : c.levels.length ≤ l := by
      by_contra hlt
      exact (lt_length_levels_iff c l).mp (Nat.lt_of_not_le hlt) l (Nat.le_refl l) hl
    rw [← h, field_truncate, if_neg (by omega)]
  · intro h
    have hupper := truncate_maxDepth_eq_iff.mpr h.upper
    have htwice : (c.truncate c.levels.length).truncate maxDepth = c.truncate c.levels.length := by
      rw [truncate_truncate, Nat.min_eq_left c.length_levels_le]
    refine eq_of_active? htwice hupper fun l _ => ?_
    rw [active?_truncate]
    by_cases hl : l < c.levels.length
    · rw [if_pos hl]
    · rw [if_neg hl, eq_comm, active?_eq_none_iff]
      rcases Nat.eq_or_lt_of_le (Nat.le_of_not_lt hl) with rfl | hlt
      · exact c.field_length_levels
      · exact h.closed _ l hlt c.field_length_levels

/-- **The laws of packing and unpacking.** For every word, packing its open levels truncates it
behind them; this is the word itself exactly if the word has no gap, and unpacking undoes packing on
every list that names levels one after another. For every list whatsoever, each field of the packed
word holds the last rule that the list gives for it and that fits, or nothing, and the upper half is
clear. Truncating twice truncates to the lower level, and truncating takes back the marks that it
cuts off and commutes with the others, for levels and rules that fit and those that do not. -/
theorem packing_laws :
    (∀ c : Carry, ofLevels c.levels = c.truncate c.levels.length) ∧
    (∀ ps, Consecutive ps → (ofLevels ps).levels = ps) ∧
    (∀ c : Carry, ofLevels c.levels = c ↔ c.Gapless) ∧
    (∀ ps l, l < maxDepth → (ofLevels ps).field l = (lastRule? l ps).elim 0 (· + 1)) ∧
    (∀ ps i, 32 ≤ i → (ofLevels ps).bits.getLsbD i = false) ∧
    (∀ (c : Carry) (m n : Nat), (c.truncate m).truncate n = c.truncate (min m n)) ∧
    ∀ (c : Carry) (level rule n : Nat), (c.mark level rule).truncate n =
      if level < n then (c.truncate n).mark level rule else c.truncate n :=
  ⟨ofLevels_levels, fun _ => levels_ofLevels, fun _ => ofLevels_levels_eq_iff,
    fun ps _ => field_ofLevels ps, fun ps => truncate_maxDepth_eq_iff.mp (truncate_ofLevels ps),
    truncate_truncate, truncate_mark_eq⟩

/-- Four levels with the least and the greatest rule among them, and a list in which a rule is given
twice, a rule does not fit, and a level is not there. -/
theorem packing_laws_fourLevels :
    (Consecutive [(0, 0), (1, 254), (2, 9), (3, 17)] ∧
      (ofLevels [(0, 0), (1, 254), (2, 9), (3, 17)]).levels =
        [(0, 0), (1, 254), (2, 9), (3, 17)]) ∧
    (2 < maxDepth ∧ (ofLevels [(2, 7), (0, 3), (2, 9), (2, 255), (5, 1)]).field 2 = 10) ∧
    (32 ≤ 40 ∧ (ofLevels [(2, 7), (0, 3), (2, 9), (2, 255), (5, 1)]).bits.getLsbD 40 = false) := by
  have hlevels : Consecutive [(0, 0), (1, 254), (2, 9), (3, 17)] :=
    ⟨by decide, by decide, by decide⟩
  obtain ⟨-, hunpack, -, hfield, hupper, -⟩ := packing_laws
  exact ⟨⟨hlevels, hunpack _ hlevels⟩, ⟨by decide, hfield _ 2 (by decide)⟩,
    ⟨by decide, hupper _ 40 (by decide)⟩⟩

end Carry
end Linewise
