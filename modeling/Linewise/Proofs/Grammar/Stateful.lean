import Linewise.Grammar.Basic

/-!
# Stateful rules, and the grammars that can be opened

Two facts about grammars are used wherever a carry is read.

## 1.  Stateful rules stand in front

`Rule.statefulCount` counts the rules up to the last stateful one. So a rule that can leave
something open has an index below it (`lt_statefulCount`), and it is the least number of which this
can be said (`statefulCount_le`).

## 2.  Grammars that can be opened

Tokenizing starts with a root and opens the nested grammars of rules, so what it can ever meet is
what `Grammar.Opens` reaches, through owned and shared grammars alike and however these refer to
each other. A grammar that was made by `Grammar.make` has no more rules than a carry can number
(`length_rules_of_make`); `Grammar.Numbered` says so of everything that can be opened from a root.
-/

namespace Linewise

/-! ## 1.  Stateful rules stand in front -/

namespace Rule

variable {γ : Type} {rules : List (Rule γ)} {r : Rule γ} {i : Nat}

/-- **A stateful rule stands in front of the stateful count.** -/
theorem lt_statefulCount (h : rules[i]? = some r) (hr : r.isStateful = true) :
    i < statefulCount rules := by
  induction rules generalizing i with
  | nil => cases h
  | cons rule rules ih =>
    rw [statefulCount]
    cases i with
    | zero =>
      have hrule : rule = r := Option.some.inj h
      rw [hrule, hr]
      split <;> simp
    | succ i =>
      have hlt := ih h
      split
      · next hzero => omega
      · next hcount => omega

/-- The stateful count is the least length behind which nothing is stateful. -/
theorem statefulCount_le {n : Nat}
    (h : ∀ i r, rules[i]? = some r → n ≤ i → r.isStateful = false) : statefulCount rules ≤ n := by
  induction rules generalizing n with
  | nil => exact Nat.zero_le n
  | cons rule rules ih =>
    have hrest : statefulCount rules ≤ n - 1 :=
      ih fun i r hr hle => h (i + 1) r hr (by omega)
    rw [statefulCount]
    split
    · split
      · next hstateful =>
        rcases Nat.eq_zero_or_pos n with rfl | hpos
        · rw [h 0 rule rfl (Nat.le_refl 0)] at hstateful
          cases hstateful
        · exact hpos
      · exact Nat.zero_le n
    · next count hcount => omega

theorem isStateful_of_close (h : r.close.isSome = true) : r.isStateful = true := by
  rw [isStateful, h, Bool.true_or]

end Rule

/-! ## 2.  Grammars that can be opened -/

namespace Grammar

variable {table : Table} {root g : Grammar} {r : Rule Grammar}

/-- A rule with a nested grammar that the table knows is stateful. -/
theorem isStateful_of_nested? (h : nested? table r = some g) : r.isStateful = true := by
  have hnested : r.nested.isSome = true := by
    rw [nested?] at h
    cases hcase : r.nested with
    | none =>
      rw [hcase] at h
      cases h
    | some nested => rfl
  rw [Rule.isStateful, hnested, Bool.or_true]

/-- The grammars that can be opened while a text in the grammar `root` is tokenized. -/
inductive Opens (table : Table) (root : Grammar) : Grammar → Prop where
  /-- The root itself. -/
  | root : Opens table root root
  /-- The nested grammar of a rule. -/
  | nested {g g' : Grammar} {r : Rule Grammar} (h : Opens table root g) (hr : r ∈ g.rules)
      (hg : nested? table r = some g') : Opens table root g'

/-- Without nested grammars, nothing but the root can be opened. -/
theorem Opens.eq_root {table : Table} {root g : Grammar}
    (hroot : ∀ r ∈ root.rules, nested? table r = none) (h : Opens table root g) : g = root := by
  induction h with
  | root => rfl
  | nested _ hr hg ih =>
    subst ih
    rw [hroot _ hr] at hg
    cases hg

/-- No grammar that can be opened has more rules than a carry can number. -/
def Numbered (table : Table) (root : Grammar) : Prop :=
  ∀ g, Opens table root g → g.rules.length ≤ maxRules

/-- **A grammar that could be made has no more rules than a carry can number.** -/
theorem length_rules_of_make {name : Option String} {label : String} {rules : List (Rule Grammar)}
    {symbols : List (String × String)} (h : make name label rules symbols = .ok g) :
    g.rules.length ≤ maxRules := by
  rw [make] at h
  split at h
  · cases h
  · next hle =>
    cases h
    exact Nat.le_of_not_lt hle

end Grammar
end Linewise
