import Linewise.Proofs.LuaPattern.ClosePlaces
import Linewise.Proofs.LuaPattern.Elements
import Linewise.Proofs.LuaPattern.OptionalTail
import Linewise.Proofs.LuaPattern.Trace

/-!
# The boundaries of a rest that is left out

A match that runs out of input leaves out the rest of its pattern, if it can, and closes the
captures of that rest where it stands. How many these are is found on the way: the rest is read
element by element, and the reading breaks off at the first element that has to match. The number of
boundaries that a pattern announces comes from another reading of the same bytes, which takes them
one by one and only remembers whether it is inside of a set. The two differ in how they take sets,
escapes, stray brackets and quantifiers, and yet they come to the same number wherever the first one
comes to a number at all.

## 1.  Rests

A rest can be left out if it is made of the marks of captures and of elements with a quantifier that
lets them be left out (`Source.Omissible`). `Source.tailCloses?_eq` says of all byte strings what
comes of reading them as a rest: a number exactly if they can be left out, and then it is the number
that the bytes have by themselves.

## 2.  The end of the input

`Source.closeTail?` asks by positions, and closes the captures behind those that are closed already.
`exhausted_closes` is the main statement.
-/

namespace Linewise
namespace LuaPattern
namespace Source

variable {l : Source}

/-! ## 1.  Rests -/

/-- A rest of a pattern that can be left out. -/
inductive Omissible : Source → Prop where
  /-- Nothing is left. -/
  | nil : Omissible []
  /-- A capture begins. -/
  | openGroup {l : Source} (h : Omissible l) : Omissible (openGroup :: l)
  /-- A capture ends. -/
  | closeGroup {l : Source} (h : Omissible l) : Omissible (closeGroup :: l)
  /-- An element with a quantifier that allows it not to match. -/
  | element {e l : Source} {q : UInt8} (he : Element e) (hq : isOptional q = true)
      (h : Omissible l) : Omissible (e ++ q :: l)

theorem Omissible.isSome_optionalCloses? (h : Omissible l) {n : Nat} (hn : l.length ≤ n) :
    (optionalCloses? n l).isSome = true := by
  induction h generalizing n with
  | nil => cases n <;> rfl
  | openGroup _ ih =>
    obtain ⟨n, rfl⟩ := Nat.exists_eq_add_of_le' (Nat.one_le_of_lt hn)
    exact ih (Nat.le_of_succ_le_succ hn)
  | closeGroup _ ih =>
    obtain ⟨n, rfl⟩ := Nat.exists_eq_add_of_le' (Nat.one_le_of_lt hn)
    exact Option.isSome_map.trans (ih (Nat.le_of_succ_le_succ hn))
  | element he hq _ ih =>
    rw [List.length_append, List.length_cons] at hn
    obtain ⟨n, rfl⟩ : ∃ m, n = m + 1 := ⟨n - 1, by omega⟩
    simp only [he.optionalCloses?_append, if_pos hq]
    exact ih (by omega)

theorem omissible_of_optionalCloses? {n k : Nat} (h : optionalCloses? n l = some k) :
    Omissible l := by
  induction n generalizing l k with
  | zero =>
    cases l with
    | nil => exact .nil
    | cons c l => cases h
  | succ n ih =>
    cases l with
    | nil => exact .nil
    | cons c l =>
      rw [optionalCloses?] at h
      split at h
      · next hopen => exact hopen ▸ .openGroup (ih h)
      · next hopen =>
        split at h
        · next hclose =>
          obtain ⟨j, hj, -⟩ := Option.map_eq_some_iff.mp h
          exact hclose ▸ .closeGroup (ih hj)
        · next hclose =>
          split at h
          · cases h
          · cases h
          · next q rest hrest =>
            split at h
            · next hq =>
              obtain ⟨e, he, heq⟩ := exists_element hopen hclose hrest
              exact heq ▸ .element he hq (ih h)
            · cases h

theorem isSome_tailCloses?_iff : l.tailCloses?.isSome = true ↔ l.Omissible := by
  refine ⟨fun h => ?_, fun h => h.isSome_optionalCloses? (Nat.le_refl _)⟩
  obtain ⟨k, hk⟩ := Option.isSome_iff_exists.mp h
  exact omissible_of_optionalCloses? hk

instance (l : Source) : Decidable l.Omissible := decidable_of_iff _ isSome_tailCloses?_iff

/-- **Both readings of a rest agree.** Where the reading that looks for elements comes to an end, it
has found the captures that the bytes have by themselves. -/
theorem tailCloses?_eq (l : Source) :
    l.tailCloses? = if l.Omissible then some l.closeCount else none := by
  cases h : l.tailCloses? with
  | none =>
    have hnot : ¬l.Omissible := fun homissible => by
      rw [← isSome_tailCloses?_iff, h] at homissible
      cases homissible
    rw [if_neg hnot]
  | some k =>
    have homissible : l.Omissible := isSome_tailCloses?_iff.mp (by rw [h]; rfl)
    rw [if_pos homissible, countCloses_of_tailCloses? h]

/-! ## 2.  The end of the input -/

/-- The bytes of a pattern from position `i` on, in front of the place where it stops. -/
abbrev between (p : Source) (i stop : Nat) : Source := (p.take stop).drop i

/-- Asks whether the pattern can be left out from position `i` on, and if so closes its captures at
a position of the text: the answer, and what is closed then. -/
def closeTail? (p : Source) (stop i : Nat) (repeating : Bool) (position : Nat)
    (closes : List Nat) : Option (Bool × List Nat) := do
  match ← p.optionalTail? stop i repeating with
  | none => some (false, closes)
  | some n => some (true, closes ++ List.replicate n position)

/-- **What is asked by positions is answered by the bytes**, where no element repeats. All accesses
are in range. -/
theorem closeTail?_eq {p : Source} {stop : Nat} (hle : stop ≤ p.length)
    (hend : p.drop stop = [] ∨ p.drop stop = [dollar]) (i position : Nat) (closes : List Nat) :
    p.closeTail? stop i false position closes =
      some (if (p.between i stop).Omissible then
        (true, closes ++ List.replicate (p.between i stop).closeCount position)
      else (false, closes)) := by
  have htail : p.optionalTail? stop i false = some (p.between i stop).tailCloses? := by
    rw [optionalTail?, upTo?, if_pos hle]
    exact optionalFrom?_eq hend (Nat.le_add_left _ _) (Nat.le_refl _)
  rw [closeTail?, htail, tailCloses?_eq]
  split <;> rfl

end Source

variable {cfg : Setting} {s : State}

/-- What a match comes to at the end of the input, where no element repeats. -/
theorem exhausted_eq (hrepeating : s.repeating = false) :
    exhausted cfg s =
      if (cfg.pattern.between s.cursor cfg.stop).Omissible then
        conclude cfg
          { s with
            closes := s.closes ++
              List.replicate (cfg.pattern.between s.cursor cfg.stop).closeCount s.position
            cursor := cfg.stop }
      else .reject := by
  have hremainder : remainder? cfg s = some (cfg.pattern.between s.cursor cfg.stop) := by
    rw [remainder?, hrepeating]
    rfl
  rw [exhausted, hremainder, Option.bind_some, Source.tailCloses?_eq]
  by_cases homissible : (cfg.pattern.between s.cursor cfg.stop).Omissible
  · simp only [if_pos homissible]
  · simp only [if_neg homissible]

/-- **What is left out closes the captures that are counted for it.** For every pattern and every
place in it, where the input runs out and no element repeats, no access is out of range, and there
is an answer, by which the match goes on or is given up. It is yes exactly if the rest is made of
the marks of captures and of elements that may be left out. Then the number of boundaries behind
those that are there already is the count of the rest by itself, all of them at the position of the
text, and there is one for each place of the rest at which a `)` stands outside of sets. If the
answer is no, there is none. -/
theorem exhausted_closes (hle : cfg.stop ≤ cfg.pattern.length) (hends : StopsAtEnd cfg)
    (hrepeating : s.repeating = false) :
    ∃ answer closes,
      cfg.pattern.closeTail? cfg.stop s.cursor s.repeating s.position s.closes =
        some (answer, closes) ∧
      exhausted cfg s =
        (if answer then conclude cfg { s with closes, cursor := cfg.stop } else .reject) ∧
      (answer = true ↔ (cfg.pattern.between s.cursor cfg.stop).Omissible) ∧
      (answer = true →
        closes = s.closes ++
          List.replicate (cfg.pattern.between s.cursor cfg.stop).closeCount s.position ∧
        (cfg.pattern.between s.cursor cfg.stop).closeCount =
          (cfg.pattern.between s.cursor cfg.stop).closePlaces.length) ∧
      (answer = false → closes = s.closes) := by
  have htail := Source.closeTail?_eq hle hends s.cursor s.position s.closes
  rw [hrepeating, htail, exhausted_eq hrepeating]
  by_cases homissible : (cfg.pattern.between s.cursor cfg.stop).Omissible
  · simp only [if_pos homissible]
    refine ⟨true, _, rfl, rfl, iff_of_true rfl homissible, fun _ => ⟨rfl, ?_⟩, nofun⟩
    exact Source.closeCount_eq _
  · simp only [if_neg homissible]
    exact ⟨false, _, rfl, rfl, iff_of_false nofun homissible, nofun, fun _ => rfl⟩

/-- The pattern `(a)[^)%]]*(%)-)()$`. -/
def setThenGroups : Source :=
  [0x28, 0x61, 0x29, 0x5B, 0x5E, 0x29, 0x25, 0x5D, 0x5D, 0x2A, 0x28, 0x25, 0x29, 0x2D, 0x29, 0x28,
    0x29, 0x24]

/-- The match of `(a)[^)%]]*(%)-)()$` in `a` runs out of input behind its second turn, in front of
the first `)`. The rest is left out, and of the five `)` in it those three close a capture that
stand neither inside of the set nor behind a `%`. -/
theorem exhausted_closes_setThenGroups :
    ∃ cfg s s', start setThenGroups #[0x61] 0 = .ready cfg s ∧ stateAfter cfg 2 s = some s' ∧
      cfg.stop ≤ cfg.pattern.length ∧ StopsAtEnd cfg ∧ s'.repeating = false ∧
      (cfg.pattern.between s'.cursor cfg.stop).closePlaces = [0, 12, 14] ∧
      exhausted cfg s' = .accept [1, 1, 1, 1] := by
  have hready : ∃ cfg s s', start setThenGroups #[0x61] 0 = .ready cfg s ∧
      stateAfter cfg 2 s = some s' ∧ cfg.stop ≤ cfg.pattern.length ∧ StopsAtEnd cfg ∧
      s'.repeating = false ∧ (cfg.pattern.between s'.cursor cfg.stop).Omissible ∧
      (cfg.pattern.between s'.cursor cfg.stop).closePlaces = [0, 12, 14] ∧
      conclude cfg
        { s' with closes := s'.closes ++ List.replicate 3 s'.position, cursor := cfg.stop } =
          .accept [1, 1, 1, 1] :=
    ⟨_, _, _, rfl, rfl, by decide, Or.inr rfl, rfl, by decide, by decide, rfl⟩
  obtain ⟨cfg, s, s', hstart, hafter, hle, hends, hrepeating, homissible, hplaces, hverdict⟩ :=
    hready
  obtain ⟨answer, closes, -, hexhausted, hanswer, hyes, -⟩ :=
    exhausted_closes hle hends hrepeating
  obtain rfl : answer = true := hanswer.mpr homissible
  obtain ⟨rfl, hcount⟩ := hyes rfl
  rw [hplaces] at hcount
  rw [hcount] at hexhausted
  exact ⟨cfg, s, s', hstart, hafter, hle, hends, hrepeating, hplaces, hexhausted.trans hverdict⟩

end LuaPattern
end Linewise
