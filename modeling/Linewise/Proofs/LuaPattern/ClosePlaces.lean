import Linewise.Proofs.LuaPattern.CloseCount

/-!
# The places at which captures close

`Source.closeCount` counts captures with a flag that says whether the scan is inside of a set. Here
it is said of a single place of a pattern whether a capture closes there, without a scan that comes
to it: an unescaped `)` stands there, and no set is open.

## 1.  Sets

A set is open at a place if a `[` stands in front of it and no `]` stands between the two, neither
of them escaped (`Source.OpenAt`). Nothing else matters: a second `[` inside of a set opens nothing
that a second `]` would have to close, and a `]` outside of sets closes nothing.

## 2.  Captures

What one byte adds to the count is whether a capture closes there (`Source.closesFrom_eq_add`), so
that the count of a pattern is the number of these places (`Source.closeCount_eq`).
-/

namespace Linewise
namespace LuaPattern
namespace Source

variable {p : Source} {c : UInt8} {i : Nat}

/-! ## 1.  Sets -/

/-- The byte `c` stands at a place, and is not escaped there. -/
def StandsAt (p : Source) (c : UInt8) (i : Nat) : Prop := p.byteAt i = c ∧ p.isEscaped i = false

/-- The place is inside of a set: a `[` stands in front of it, and no `]` behind that one. -/
def OpenAt (p : Source) (i : Nat) : Prop :=
  ∃ j < i, p.StandsAt openSet j ∧ ∀ k < i, j < k → ¬p.StandsAt closeSet k

instance (p : Source) (c : UInt8) (i : Nat) : Decidable (p.StandsAt c i) :=
  inferInstanceAs (Decidable (_ ∧ _))

instance (p : Source) (i : Nat) : Decidable (p.OpenAt i) :=
  inferInstanceAs (Decidable (∃ j < i, _ ∧ ∀ k < i, _))

theorem standsAt_iff (h : p.isEscaped i = false) : p.StandsAt c i ↔ p.byteAt i = c :=
  and_iff_left h

theorem not_standsAt_of_isEscaped (h : p.isEscaped i = true) : ¬p.StandsAt c i :=
  fun hat => Bool.false_ne_true (hat.2.symm.trans h)

theorem not_openAt_zero (p : Source) : ¬p.OpenAt 0 := fun ⟨_, hlt, _⟩ => Nat.not_lt_zero _ hlt

/-- A set is open behind a byte if that byte opens it, or if it was open and the byte does not close
it. -/
theorem openAt_succ :
    p.OpenAt (i + 1) ↔ p.StandsAt openSet i ∨ p.OpenAt i ∧ ¬p.StandsAt closeSet i := by
  constructor
  · rintro ⟨j, hj, hopen, hnone⟩
    rcases Nat.lt_succ_iff_lt_or_eq.mp hj with hlt | rfl
    · have hinner : ∀ k < i, j < k → ¬p.StandsAt closeSet k :=
        fun k hk => hnone k (Nat.lt_succ_of_lt hk)
      exact Or.inr ⟨⟨j, hlt, hopen, hinner⟩, hnone i (Nat.lt_succ_self i) hlt⟩
    · exact Or.inl hopen
  · rintro (hopen | ⟨⟨j, hlt, hopen, hnone⟩, hclose⟩)
    · exact ⟨i, Nat.lt_succ_self i, hopen, fun k hk hik => absurd hk (Nat.not_lt_of_le hik)⟩
    · refine ⟨j, Nat.lt_succ_of_lt hlt, hopen, fun k hk hjk => ?_⟩
      rcases Nat.lt_succ_iff_lt_or_eq.mp hk with hki | rfl
      · exact hnone k hki hjk
      · exact hclose

/-! ## 2.  Captures -/

/-- A capture closes at a place: a `)` stands there, outside of sets. -/
def ClosesAt (p : Source) (i : Nat) : Prop := p.StandsAt closeGroup i ∧ ¬p.OpenAt i

instance (p : Source) (i : Nat) : Decidable (p.ClosesAt i) :=
  inferInstanceAs (Decidable (_ ∧ ¬_))

/-- The places of a pattern at which a capture closes, in order. -/
def closePlaces (p : Source) : List Nat := (List.range p.length).filter (p.ClosesAt ·)

/-- **A byte adds to the count whether a capture closes there**, and the count goes on in the set
that is open behind it, if there is one. -/
theorem closesFrom_eq_add (hlt : i < p.length) :
    p.closesFrom (decide (p.OpenAt i)) i =
      (if p.ClosesAt i then 1 else 0) + p.closesFrom (decide (p.OpenAt (i + 1))) (i + 1) := by
  cases hescaped : p.isEscaped i with
  | true =>
    have hnone : ∀ c, ¬p.StandsAt c i := fun _ => not_standsAt_of_isEscaped hescaped
    have hsame : p.OpenAt (i + 1) ↔ p.OpenAt i := by simp [openAt_succ, hnone]
    rw [closesFrom_of_isEscaped hlt hescaped, if_neg fun h => hnone _ h.1, Nat.zero_add,
      decide_eq_decide.mpr hsame]
  | false =>
    have hstands : ∀ c, p.StandsAt c i ↔ p.byteAt i = c := fun _ => standsAt_iff hescaped
    rw [closesFrom_eq hlt hescaped]
    simp only [ClosesAt, openAt_succ, hstands]
    by_cases hopen : p.byteAt i = openSet
    · simp [hopen, openSet, closeGroup]
    · by_cases hclose : p.byteAt i = closeSet
      · simp [hclose, openSet, closeSet, closeGroup]
      · by_cases hgroup : p.byteAt i = closeGroup <;> by_cases hset : p.OpenAt i <;>
          simp [hopen, hclose, hgroup, hset, Nat.add_comm, closeGroup, openSet, closeSet]

theorem closesFrom_eq_length {n : Nat} (hlength : i + n = p.length) :
    p.closesFrom (decide (p.OpenAt i)) i =
      ((List.range' i n).filter (p.ClosesAt ·)).length := by
  induction n generalizing i with
  | zero =>
    have hnil : p.drop i = [] := List.drop_eq_nil_of_le (Nat.le_of_eq hlength.symm)
    rw [closesFrom, hnil]
    cases p.isEscaped i <;> rfl
  | succ n ih =>
    rw [closesFrom_eq_add (by omega), ih (by omega), List.range'_succ, List.filter_cons]
    by_cases h : p.ClosesAt i <;> simp [h, Nat.add_comm]

/-- **The count of a pattern is the number of places at which a capture closes.** -/
theorem closeCount_eq (p : Source) : p.closeCount = p.closePlaces.length := by
  have hclosed : decide (p.OpenAt 0) = false := decide_eq_false (not_openAt_zero p)
  have hcount := closesFrom_eq_length (Nat.zero_add p.length)
  rwa [hclosed, closesFrom_zero, ← List.range_eq_range'] at hcount

end Source
end LuaPattern
end Linewise
