import Linewise.Text.Basic

/-!
# Moving forward in a text

Every matcher advances by `charStart`, and the tokenizer skips words by `countWhile`. Both only ever
move forward and neither leaves the text, whether or not the bytes are valid UTF-8.
-/

namespace Linewise
namespace Text

theorem le_skipContinuation (t : Text) (n i : Nat) : i ≤ skipContinuation t n i := by
  induction n generalizing i with
  | zero => exact Nat.le_refl i
  | succ n ih =>
    rw [skipContinuation]
    split
    · exact Nat.le_trans (Nat.le_succ i) (ih (i + 1))
    · exact Nat.le_refl i

theorem skipContinuation_le (t : Text) (n i : Nat) : skipContinuation t n i ≤ i + n := by
  induction n generalizing i with
  | zero => exact Nat.le_refl i
  | succ n ih =>
    rw [skipContinuation]
    split
    · have h := ih (i + 1)
      omega
    · omega

/-- A character start is not looked for behind the position. -/
theorem le_charStart (t : Text) (i : Nat) : i ≤ t.charStart i := t.le_skipContinuation _ i

/-- Looking for a character start does not leave the text. -/
theorem charStart_le_size {t : Text} {i : Nat} (h : i ≤ t.size) : t.charStart i ≤ t.size := by
  have hle := t.skipContinuation_le (t.size - i) i
  rw [charStart]
  omega

/-- The position `p` stands in front of a character, or at the end of the text. -/
structure AtChar (t : Text) (p : Nat) : Prop where
  /-- It lies in the text. -/
  le_size : p ≤ t.size
  /-- It does not stand inside of a character. -/
  not_continuation : ∀ c, t[p]? = some c → isContinuation c = false

theorem atChar_size (t : Text) : t.AtChar t.size :=
  ⟨Nat.le_refl _, fun _ hc => absurd (Array.getElem?_eq_some_iff.mp hc).1 (Nat.lt_irrefl _)⟩

theorem skipContinuation_of_atChar {t : Text} {p : Nat} (h : t.AtChar p) (n : Nat) :
    skipContinuation t n p = p := by
  cases n with
  | zero => rfl
  | succ n =>
    rw [skipContinuation, if_neg]
    cases hc : t[p]? with
    | none => simp [Array.getD_eq_getD_getElem?, hc, isContinuation]
    | some c => simp [Array.getD_eq_getD_getElem?, hc, h.not_continuation c hc]

/-- In front of a character there is nothing to move over. -/
theorem charStart_of_atChar {t : Text} {p : Nat} (h : t.AtChar p) : t.charStart p = p :=
  skipContinuation_of_atChar h _

theorem atChar_skipContinuation {t : Text} (n : Nat) {i : Nat} (h : i + n = t.size) :
    t.AtChar (skipContinuation t n i) := by
  induction n generalizing i with
  | zero =>
    refine ⟨by simp [skipContinuation, ← h], fun c hc => ?_⟩
    have hlt : i < t.size := (Array.getElem?_eq_some_iff.mp hc).1
    omega
  | succ n ih =>
    rw [skipContinuation]
    split
    · exact ih (by omega)
    · next hcontinuation =>
      refine ⟨by omega, fun c hc => ?_⟩
      simpa [Array.getD_eq_getD_getElem?, hc] using hcontinuation

/-- What is found is a character start, or the end of the text. -/
theorem atChar_charStart {t : Text} {i : Nat} (h : i ≤ t.size) : t.AtChar (t.charStart i) :=
  atChar_skipContinuation _ (by omega)

theorem isContinuation_of_lt_skipContinuation {t : Text} (n : Nat) {i j : Nat} {c : UInt8}
    (hle : i ≤ j) (hlt : j < skipContinuation t n i) (hc : t[j]? = some c) :
    isContinuation c = true := by
  induction n generalizing i with
  | zero => exact absurd hle (Nat.not_le_of_lt hlt)
  | succ n ih =>
    rw [skipContinuation] at hlt
    split at hlt
    · next hcontinuation =>
      rcases Nat.eq_or_lt_of_le hle with rfl | hbehind
      · simpa [Array.getD_eq_getD_getElem?, hc] using hcontinuation
      · exact ih hbehind hlt
    · exact absurd hle (Nat.not_le_of_lt hlt)

/-- Only bytes from the inside of a character are moved over. -/
theorem isContinuation_of_lt_charStart {t : Text} {i j : Nat} {c : UInt8} (hle : i ≤ j)
    (hlt : j < t.charStart i) (hc : t[j]? = some c) : isContinuation c = true :=
  isContinuation_of_lt_skipContinuation _ hle hlt hc

theorem countWhile_le (t : Text) (p : UInt8 → Bool) (n i : Nat) : t.countWhile p n i ≤ n := by
  induction n generalizing i with
  | zero => exact Nat.le_refl 0
  | succ n ih =>
    rw [countWhile]
    split
    · exact Nat.succ_le_succ (ih (i + 1))
    · exact Nat.zero_le _

/-- What is counted satisfies the predicate. -/
theorem of_lt_countWhile {t : Text} {p : UInt8 → Bool} (n : Nat) {i j : Nat} {c : UInt8}
    (hle : i ≤ j) (hlt : j < i + t.countWhile p n i) (hc : t[j]? = some c) : p c = true := by
  induction n generalizing i with
  | zero =>
    rw [countWhile] at hlt
    omega
  | succ n ih =>
    rw [countWhile] at hlt
    split at hlt
    · next hfirst =>
      rcases Nat.eq_or_lt_of_le hle with rfl | hbehind
      · simpa [Array.getD_eq_getD_getElem?, hc] using hfirst
      · have hnext : i + 1 ≤ j := hbehind
        exact ih hnext (by omega)
    · omega

/-- Counting stops at a byte that does not satisfy it. -/
theorem not_of_countWhile_lt {t : Text} {p : UInt8 → Bool} (n : Nat) {i : Nat} {c : UInt8}
    (hlt : t.countWhile p n i < n) (hc : t[i + t.countWhile p n i]? = some c) : p c = false := by
  induction n generalizing i with
  | zero => exact absurd hlt (Nat.not_lt_zero _)
  | succ n ih =>
    by_cases hfirst : p (t.getD i 0) = true
    · rw [countWhile, if_pos hfirst] at hlt hc
      rw [show i + (t.countWhile p n (i + 1) + 1) = i + 1 + t.countWhile p n (i + 1) by omega] at hc
      exact ih (Nat.lt_of_succ_lt_succ hlt) hc
    · rw [countWhile, if_neg hfirst, Nat.add_zero] at hc
      rw [Array.getD_eq_getD_getElem?, hc] at hfirst
      exact Bool.eq_false_iff.mpr hfirst

/-! ## The bytes ahead -/

theorem drop_toList_of_getElem? {t : Text} {p : Nat} {c : UInt8} (hc : t[p]? = some c) :
    t.toList.drop p = c :: t.toList.drop (p + 1) := by
  obtain ⟨hlt, rfl⟩ := Array.getElem?_eq_some_iff.mp hc
  rw [List.drop_eq_getElem_cons (by rw [Array.length_toList]; exact hlt), Array.getElem_toList]

theorem drop_toList_of_size_le {t : Text} {p : Nat} (h : t.size ≤ p) : t.toList.drop p = [] :=
  List.drop_eq_nil_of_le (by rw [Array.length_toList]; exact h)

theorem drop_toList_min (t : Text) (p : Nat) :
    t.toList.drop (min p t.size) = t.toList.drop p := by
  rcases Nat.le_total p t.size with hle | hle
  · rw [Nat.min_eq_left hle]
  · rw [Nat.min_eq_right hle, drop_toList_of_size_le (Nat.le_refl t.size),
      drop_toList_of_size_le hle]

end Text
end Linewise
