import Linewise.Proofs.LuaPattern.Template
import Linewise.Proofs.Text.CharStart

/-!
# Reading a template from left to right

What a template should match can be said without the machine: its parts are gone through in order,
and each says where it leaves the text.

## 1.  The possessive reading

A quantified atom takes as many characters as it can (`Atom.reach`), and nothing is ever given back.
`Item.stop?` is where a part stops, and `possessive` the boundaries of a whole reading.

## 2.  What is shared with the successor

While an element repeats, the machine remembers the last character that it took although the part
behind it would have accepted that character, too (`Item.lastShared?`). When the input runs out, it
goes back there. If the element that repeats is the very one that shared the character, then the
element has given it back, and with it all that it took after it: this is the *yielding* reading.

## 3.  An orderly reading

The machine remembers one point alone, and not whose it is. So it can happen that the input runs out
in a later part, or behind it, while the point is that of an earlier one; then the machine goes back
in the text, but not in the pattern. `orderly` says that this never happens, and that each return is
one of those that a given condition allows.

## 4.  Relations

`Atom.Takes`, `Pieces` and `Possessive` say the same things by rules instead of functions: that some
characters in a row are accepted, that a text can be cut into pieces, one for each element, and that
each of these pieces is as long as it can be.

## 5.  Where an atom stops

The small facts about `reach` and `lastShared?` that go character by character.
-/

namespace Linewise
namespace LuaPattern

/-! ## 1.  The possessive reading -/

/-- Where an atom stops that takes at most `n` characters from `p` on, as many as it accepts. -/
def Atom.reach (a : Atom) (t : Text) : Nat → Nat → Nat
  | 0, p => p
  | n + 1, p =>
    match t[p]? with
    | none => p
    | some c => if a.accepts c then a.reach t n (t.charStart (p + 1)) else p

/-- How many characters of a text an atom may take. No text has more characters than bytes. -/
def Quantifier.limit (q : Quantifier) (t : Text) : Nat := q.most.getD t.size

/-- Whether the byte in front of `p` lies outside of a set. Nothing stands in front of the text;
that is outside of every set but an inverted one. -/
def Bracket.outsideBefore (s : Bracket) (t : Text) : Nat → Bool
  | 0 => !s.inverted
  | before + 1 => !t[before]?.any s.accepts

/-- Where a part stops that is read at `p`. -/
def Item.stop? (t : Text) : Item → Nat → Option Nat
  | openGroup, p => some p
  | closeGroup, p => some p
  | frontier s, p => if s.outsideBefore t p && t[p]?.any s.accepts then some p else none
  | element a q, p =>
    let stop := a.reach t (q.limit t) p
    if q.least = 0 ∨ p < stop then some stop else none

/-- The boundaries that a part reports. -/
def Item.closes : Item → Nat → List Nat
  | closeGroup, p => [p]
  | _, _ => []

/-- Goes through the parts, each of which says where the next one begins, and collects the
boundaries. The last one is where the reading ends. -/
def walk (t : Text) (toEnd : Bool) (next : Item → List Item → Nat → Option Nat) :
    List Item → Nat → Option (List Nat)
  | [], p => if toEnd && p != t.size then none else some [p]
  | i :: rest, p =>
    match next i rest p with
    | none => none
    | some stop => (walk t toEnd next rest stop).map (i.closes p ++ ·)

/-- The boundaries of the possessive reading from `p` on. -/
def possessive (t : Text) (toEnd : Bool) : List Item → Nat → Option (List Nat) :=
  walk t toEnd fun i _ p => i.stop? t p

theorem possessive_cons (t : Text) (toEnd : Bool) (i : Item) (rest : List Item) (p : Nat) :
    possessive t toEnd (i :: rest) p =
      match i.stop? t p with
      | none => none
      | some stop => (possessive t toEnd rest stop).map (i.closes p ++ ·) := rfl

/-- The boundaries of the possessive reading of a template at `offset`. -/
def Template.boundaries? (p : Template) (t : Text) (offset : Nat) : Option (List Nat) :=
  if p.anchored && offset != 0 then none else possessive t p.toEnd p.items offset

/-! ## 2.  What is shared with the successor -/

/-- Whether the first of some parts that accepts anything accepts a character. Marks of groups are
passed over. -/
def nextAccepts : List Item → UInt8 → Bool
  | [], _ => false
  | .openGroup :: rest, c => nextAccepts rest c
  | .closeGroup :: rest, c => nextAccepts rest c
  | .frontier s :: _, c => s.accepts c
  | .element a _ :: _, c => a.accepts c

/-- The last of at most `n` characters from `p` on that an atom takes although the parts behind it
accept it as well. -/
def Atom.lastShared? (a : Atom) (t : Text) (rest : List Item) : Nat → Nat → Option Nat
  | 0, _ => none
  | n + 1, p =>
    match t[p]? with
    | none => none
    | some c =>
      if a.accepts c then
        (a.lastShared? t rest n (t.charStart (p + 1))).or
          (if nextAccepts rest c then some p else none)
      else none

/-- Whether a part may take more than one character. -/
def Item.repeats : Item → Bool
  | element _ q => q.most.isNone
  | _ => false

/-- The last character that a part which repeats takes although the parts behind it accept it as
well. -/
def Item.lastShared? (t : Text) : Item → List Item → Nat → Option Nat
  | element a q, rest, p => if q.most = none then a.lastShared? t rest t.size p else none
  | _, _, _ => none

/-- Where a part leaves the text to the next one. A part that has run out of input gives back the
last character that it shared, and what it took behind that. -/
def Item.leave? (t : Text) (i : Item) (rest : List Item) (p : Nat) : Option Nat :=
  (i.stop? t p).map fun stop =>
    if stop = t.size then (i.lastShared? t rest p).getD stop else stop

/-- The boundaries of the yielding reading from `p` on. -/
def yielding (t : Text) (toEnd : Bool) : List Item → Nat → Option (List Nat) :=
  walk t toEnd fun i rest p => i.leave? t rest p

theorem yielding_cons (t : Text) (toEnd : Bool) (i : Item) (rest : List Item) (p : Nat) :
    yielding t toEnd (i :: rest) p =
      match i.leave? t rest p with
      | none => none
      | some stop => (yielding t toEnd rest stop).map (i.closes p ++ ·) := rfl

/-! ## 3.  An orderly reading -/

/-- The input never runs out while the point of an earlier part is remembered, and each return is
allowed: `may i rest p point` says that the part `i` in front of `rest`, which began at `p`, may
give back what it took from `point` on. -/
def orderly (t : Text) (may : Item → List Item → Nat → Nat → Bool) :
    Bool → List Item → Nat → Bool
  | _, [], _ => true
  | remembered, i :: rest, p =>
    if p = t.size then !remembered
    else
      match i.stop? t p with
      | none => true
      | some stop =>
        match i.lastShared? t rest p with
        | none => orderly t may remembered rest stop
        | some point =>
          if stop = t.size then may i rest p point && orderly t may false rest point
          else orderly t may true rest stop

/-- No return is allowed. -/
def never (_ : Item) (_ : List Item) (_ _ : Nat) : Bool := false

/-- The byte that the machine reads first when it goes back while an element repeats: the one behind
the first byte of the element. Nothing for a set, whose members would be read one by one. -/
def Item.inner? : Item → Option UInt8
  | element (.byte _ _) q => q.source.head?
  | element .any q => q.source.head?
  | element (.escape kind _) _ => some kind
  | _ => none

/-- A part gives back its characters unnoticed: it is no set, and the byte that is read by mistake
does not accept the character that was given back. -/
def harmless (t : Text) (i : Item) (point : Nat) : Bool :=
  match i.inner? with
  | none => false
  | some b => t[point]? != some b

/-! ## 4.  Relations -/

/-- An atom takes some characters in a row: their number, where the first one stands, and where the
last one ends. -/
inductive Atom.Takes (a : Atom) (t : Text) : Nat → Nat → Nat → Prop where
  /-- No character at all. -/
  | zero (p : Nat) : a.Takes t 0 p p
  /-- A character that it accepts, and then some more. -/
  | succ {n p stop : Nat} {c : UInt8} (hc : t[p]? = some c) (hacc : a.accepts c = true)
      (h : a.Takes t n (t.charStart (p + 1)) stop) : a.Takes t (n + 1) p stop

/-- A text is cut into pieces from `p` to `stop`, one for each element in order: each piece is a
sequence of characters that the atom accepts, as many as its quantifier allows. -/
inductive Pieces (t : Text) : List (Atom × Quantifier) → Nat → Nat → Prop where
  /-- No piece is needed. -/
  | nil (p : Nat) : Pieces t [] p p
  /-- A piece for the first element, and pieces for the others. -/
  | cons {a : Atom} {q : Quantifier} {elements : List (Atom × Quantifier)} {n p p' stop : Nat}
      (hallows : q.Allows n) (htakes : a.Takes t n p p') (h : Pieces t elements p' stop) :
      Pieces t ((a, q) :: elements) p stop

/-- A text is cut into pieces, each of which is as long as its quantifier and the text allow. -/
inductive Possessive (t : Text) : List (Atom × Quantifier) → Nat → Nat → Prop where
  /-- No piece is needed. -/
  | nil (p : Nat) : Possessive t [] p p
  /-- The longest piece for the first element, and pieces for the others. -/
  | cons {a : Atom} {q : Quantifier} {elements : List (Atom × Quantifier)} {n p p' stop : Nat}
      (hallows : q.Allows n) (htakes : a.Takes t n p p')
      (hlongest : q.Allows (n + 1) → ∀ c, t[p']? = some c → a.accepts c = false)
      (h : Possessive t elements p' stop) : Possessive t ((a, q) :: elements) p stop

/-! ## 5.  Where an atom stops -/

theorem Atom.reach_succ {a : Atom} {t : Text} {p : Nat} {c : UInt8} (hc : t[p]? = some c)
    (hacc : a.accepts c = true) (n : Nat) :
    a.reach t (n + 1) p = a.reach t n (t.charStart (p + 1)) := by
  simp [Atom.reach, hc, hacc]

theorem Atom.le_reach (a : Atom) (t : Text) (n p : Nat) : p ≤ a.reach t n p := by
  induction n generalizing p with
  | zero => exact Nat.le_refl p
  | succ n ih =>
    rw [Atom.reach]
    split
    · exact Nat.le_refl p
    · split
      · have hforward := t.le_charStart (p + 1)
        have hle := ih (t.charStart (p + 1))
        omega
      · exact Nat.le_refl p

/-- A character that is shared replaces the remembered point until a later one does. -/
theorem Atom.lastShared?_succ_or {a : Atom} {t : Text} {rest : List Item} {p : Nat} {c : UInt8}
    (hc : t[p]? = some c) (hacc : a.accepts c = true) (n : Nat) (retry : Option Nat) :
    (a.lastShared? t rest (n + 1) p).or retry =
      (a.lastShared? t rest n (t.charStart (p + 1))).or
        (if nextAccepts rest c then some p else retry) := by
  cases hnext : nextAccepts rest c <;> simp [Atom.lastShared?, hc, hacc, hnext]

/-- Only a part that repeats shares a character. -/
theorem Item.repeats_of_lastShared? {i : Item} {t : Text} {rest : List Item} {p point : Nat}
    (h : i.lastShared? t rest p = some point) : i.repeats = true := by
  cases i with
  | element a q =>
    rw [Item.lastShared?] at h
    split at h
    · next hq => simp [Item.repeats, hq]
    · cases h
  | _ => cases h

/-- A character that is shared is one that the atom and the parts behind it accept, and the atom
takes everything in front of it. -/
theorem Atom.exists_takes_of_lastShared? {a : Atom} {t : Text} {rest : List Item} {n p point : Nat}
    (h : a.lastShared? t rest n p = some point) :
    ∃ k c, a.Takes t k p point ∧ t[point]? = some c ∧ a.accepts c = true ∧
      nextAccepts rest c = true := by
  induction n generalizing p with
  | zero => cases h
  | succ n ih =>
    rw [Atom.lastShared?] at h
    split at h
    · cases h
    · next c hc =>
      split at h
      · next hacc =>
        rcases Option.or_eq_some_iff.mp h with hlater | ⟨-, hhere⟩
        · obtain ⟨k, d, htakes, hshared⟩ := ih hlater
          exact ⟨k + 1, d, .succ hc hacc htakes, hshared⟩
        · split at hhere
          · next hnext =>
            cases hhere
            exact ⟨0, c, .zero _, hc, hacc, hnext⟩
          · cases hhere
      · cases h

/-- An atom takes whole characters. -/
theorem Atom.Takes.atChar {a : Atom} {t : Text} {n p stop : Nat} (h : a.Takes t n p stop)
    (hp : t.AtChar p) : t.AtChar stop := by
  induction h with
  | zero p => exact hp
  | succ hc hacc h ih =>
    exact ih (Text.atChar_charStart (Array.getElem?_eq_some_iff.mp hc).1)

end LuaPattern
end Linewise
