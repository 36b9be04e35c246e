import Linewise.Proofs.LuaPattern.Places
import Linewise.Proofs.Text.Encoded

/-!
# A match does not split characters

A match can begin anywhere, also inside of a character. From there on it stands at the offset, in
front of a character, or at the end of the text, and it never goes back behind the offset: these are
places among which an advance stays (`places_within`), so all of its boundaries are of this kind.

Whoever asks for a match hands over a list to be filled. `matchInto` is what becomes of that list.
The machine appends the captures to it that it closes on the way, also in the course of a match that
fails in the end; it is cleared before a match and after a failed one, so it holds either all of the
boundaries or nothing (`matchInto_eq`).

Both together are `matchInto_within`. On the bytes of a string the places in front of characters are
those at which the string can be cut in two, so there a match between two characters ends between
two characters, and closes its captures there.
-/

namespace Linewise
namespace LuaPattern

variable {cfg : Setting} {s : State}

/-! ## The list that is filled -/

/-- At most `n` turns: whether the pattern matches, and what the list of boundaries holds then. The
captures that were closed stay in it if the match fails. -/
def runInto (cfg : Setting) : Nat → State → Bool × List Nat
  | 0, s => (false, s.closes)
  | n + 1, s =>
    match step cfg s with
    | .done (.accept boundaries) => (true, boundaries)
    | .done _ => (false, s.closes)
    | .next s => runInto cfg n s

/-- A failed match leaves an empty list. -/
def emptied : Bool × List Nat → Bool × List Nat
  | (true, boundaries) => (true, boundaries)
  | (false, _) => (false, [])

/-- Matches `pattern` in `text` at `offset`, with a list to be filled, which is cleared first:
whether the pattern matches, and what the list holds in the end. -/
def matchInto (pattern : Source) (text : Text) (offset : Nat) : Bool × List Nat :=
  if text.size < offset then (false, [])
  else
    match start pattern text offset with
    | .reject => (false, [])
    | .fault => (false, [])
    | .ready cfg s => emptied (runInto cfg (turnLimit pattern text) s)

/-- What a verdict leaves in the list. -/
def Verdict.filled : Verdict → Bool × List Nat
  | .accept boundaries => (true, boundaries)
  | .reject => (false, [])
  | .fault => (false, [])

theorem emptied_runInto (cfg : Setting) (n : Nat) (s : State) :
    emptied (runInto cfg n s) = (run cfg n s).filled := by
  induction n generalizing s with
  | zero => rfl
  | succ n ih =>
    rw [run, runInto]
    cases step cfg s with
    | next s' => exact ih s'
    | done verdict => cases verdict <;> rfl

theorem matchInto_eq_filled (pattern : Source) (text : Text) (offset : Nat) :
    matchInto pattern text offset = (verdictAt pattern text offset).filled := by
  by_cases hlt : text.size < offset
  · rw [matchInto, verdictAt, if_pos hlt, if_pos hlt, Verdict.filled]
  · rw [matchInto, verdictAt, if_neg hlt, if_neg hlt]
    cases start pattern text offset with
    | reject => rfl
    | fault => rfl
    | ready cfg s => exact emptied_runInto cfg _ s

/-- **The list holds the boundaries of the match, or nothing.** -/
theorem matchInto_eq (pattern : Source) (text : Text) (offset : Nat) :
    matchInto pattern text offset =
      match boundariesAt? pattern text offset with
      | some bounds => (true, bounds)
      | none => (false, []) := by
  rw [matchInto_eq_filled, boundariesAt?]
  cases verdictAt pattern text offset <;> rfl

/-! ## The boundaries -/

theorem ne_nil_of_conclude {bounds : List Nat} (h : conclude cfg s = .accept bounds) :
    bounds ≠ [] := by
  unfold conclude at h
  split at h
  · cases h
  · cases h
    exact List.concat_ne_nil _ _

theorem ne_nil_of_exhausted {bounds : List Nat} (h : exhausted cfg s = .accept bounds) :
    bounds ≠ [] := by
  unfold exhausted at h
  split at h
  · cases h
  · exact ne_nil_of_conclude h

/-- A match has the boundary at its end. -/
theorem ne_nil_of_run (n : Nat) {bounds : List Nat} (h : run cfg n s = .accept bounds) :
    bounds ≠ [] := by
  induction n generalizing s with
  | zero => cases h
  | succ n ih =>
    rw [run] at h
    split at h
    · next hstep =>
      rw [h] at hstep
      rcases accept_of_step hstep with ⟨-, hend⟩ | ⟨-, -, hend⟩
      · exact ne_nil_of_conclude hend
      · exact ne_nil_of_exhausted hend
    · exact ih h

/-- A boundary that splits no character which the match has not begun in: it is not behind the end
of the text nor in front of the offset, and it stands at one of these two or in front of a
character. -/
structure Within (t : Text) (offset b : Nat) : Prop where
  /-- It is not in front of the offset. -/
  le : offset ≤ b
  /-- It is not behind the end of the text. -/
  le_size : b ≤ t.size
  /-- It stands at the offset, at the end of the text, or in front of a character. -/
  place : b = offset ∨ b = t.size ∨ ∃ c, t[b]? = some c ∧ Text.isContinuation c = false

/-- Behind the offset, the places in front of characters are such. -/
theorem within_of_atChar {t : Text} {offset b : Nat} (hle : offset ≤ b) (h : t.AtChar b) :
    Within t offset b := by
  refine ⟨hle, h.le_size, ?_⟩
  cases hc : t[b]? with
  | some c => exact Or.inr (Or.inr ⟨c, rfl, h.not_continuation c hc⟩)
  | none =>
    have hend : t.size ≤ b := Array.getElem?_eq_none_iff.mp hc
    exact Or.inr (Or.inl (Nat.le_antisymm h.le_size hend))

/-- **An advance stays among these places.** -/
theorem places_within (t : Text) (offset : Nat) : Places t (Within t offset) where
  le_size _ h := h.le_size
  here p h :=
    within_of_atChar (Nat.le_trans h.le (t.le_charStart p)) (Text.atChar_charStart h.le_size)
  next p h hlt :=
    within_of_atChar (Nat.le_trans (Nat.le_succ_of_le h.le) (t.le_charStart (p + 1)))
      (Text.atChar_charStart hlt)

/-- **The boundaries of a match stay in the text and on characters**, whatever the bytes of the
pattern and of the text are. There is one at least if the pattern matches, and none if it does not.
Each of them is the offset, the end of the text, or the place of a byte that begins a character. So
if the text is a string and the match begins between two of its characters, or at either end of it,
then every boundary lies there too. -/
theorem matchInto_within (pattern : Source) (t : Text) (offset : Nat) :
    ((matchInto pattern t offset).1 = true →
        (matchInto pattern t offset).2 ≠ [] ∧
          ∀ b ∈ (matchInto pattern t offset).2, Within t offset b) ∧
      ((matchInto pattern t offset).1 = false → (matchInto pattern t offset).2 = []) ∧
      ∀ pre post : String, t = Text.ofString (pre ++ post) → offset = (Text.ofString pre).size →
        ∀ b ∈ (matchInto pattern t offset).2,
          ∃ pre' post' : String, pre' ++ post' = pre ++ post ∧ (Text.ofString pre').size = b := by
  rw [matchInto_eq]
  cases h : boundariesAt? pattern t offset with
  | none => exact ⟨by simp, fun _ => rfl, by simp⟩
  | some bounds =>
    obtain ⟨cfg, s, hstart, hrun⟩ := exists_run_of_boundariesAt? h
    refine ⟨fun _ => ⟨ne_nil_of_run _ hrun, ?_⟩, by simp, ?_⟩
    · have hoffset : Within t offset offset :=
        ⟨Nat.le_refl _, (start_eq_ready hstart).1, Or.inl rfl⟩
      exact (places_within t offset).boundaries hoffset h
    · rintro pre post rfl rfl b hb
      exact Text.exists_append_of_atChar
        (atChar_of_boundariesAt? (Text.atChar_ofString_append pre post) h b hb)

end LuaPattern
end Linewise
