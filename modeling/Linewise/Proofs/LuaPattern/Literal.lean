import Linewise.Proofs.LuaPattern.Passed
import Linewise.Proofs.Text.Encoded

/-!
# Templates of fixed bytes

Some elements take a number of characters that does not depend on how often they may repeat: one
without a quantifier takes one character (`stop?_once`), and a repeated `.` takes all that are left
(`reach_any`).

Many patterns begin with bytes that stand for themselves, such as the opener of a comment. Each of
these bytes is an atom that accepts it alone (`Atom.Only`). In encoded text such a template is easy
to read. It matches nowhere but where its bytes stand in the text, also if it is tried inside of a
character, and behind them it goes on with its other parts (`Template.boundariesAt?_literally`).
-/

namespace Linewise
namespace LuaPattern

variable {t : Text} {p : Nat} {a : Atom} {b : UInt8} {atoms : List Atom} {bytes : List UInt8}
  {rest : List Item}

/-- An atom accepts one byte alone. -/
def Atom.Only (a : Atom) (b : UInt8) : Prop := ∀ c, a.accepts c = (b == c)

/-- Elements without a quantifier. -/
def literally (atoms : List Atom) : List Item := atoms.map (.element · .once)

theorem only_byte (b : UInt8) (h : isPlain b = true) : (Atom.byte b h).Only b := fun _ => rfl

theorem lt_of_isPlain (h : isPlain b = true) : b < 0x80 := by
  obtain ⟨b⟩ := b
  revert b
  decide

/-! ## 1.  One character -/

/-- An element without a quantifier takes one character. -/
theorem stop?_once (a : Atom) (t : Text) (p : Nat) : (Item.element a .once).stop? t p =
    if t[p]?.any a.accepts then some (t.charStart (p + 1)) else none := by
  have hlimit : Quantifier.once.limit t = 1 := rfl
  rw [Item.stop?, hlimit, Atom.reach]
  cases hc : t[p]? with
  | none => simp [Quantifier.least]
  | some c =>
    have hnext : p < t.charStart (p + 1) := t.le_charStart (p + 1)
    cases hacc : a.accepts c with
    | false => simp [Quantifier.least, hacc]
    | true => simp [Quantifier.least, Atom.reach, hacc, hnext]

/-- Any characters are taken up to the end of the text. -/
theorem reach_any (n : Nat) (hle : p ≤ t.size) (hn : t.size ≤ p + n) :
    Atom.any.reach t n p = t.size := by
  induction n generalizing p with
  | zero => exact Nat.le_antisymm hle hn
  | succ n ih =>
    rw [Atom.reach]
    split
    · next hnone => exact Nat.le_antisymm hle (Array.getElem?_eq_none_iff.mp hnone)
    · next hsome =>
      have hlt : p < t.size := (Array.getElem?_eq_some_iff.mp hsome).1
      have hnext := t.le_charStart (p + 1)
      rw [if_pos (show Atom.any.accepts _ = true from rfl)]
      exact ih (Text.charStart_le_size hlt) (by omega)

/-- A template of a single character ends behind it. -/
theorem eq_of_boundariesAt?_once (w : Template) (hanchor : w.anchored = false)
    (hitems : w.items = [.element a .once]) {bounds : List Nat} (hchar : t.AtChar p)
    (h : boundariesAt? w.source t p = some bounds) : ∀ b ∈ bounds, b = t.charStart (p + 1) := by
  have hdeterministic : Deterministic w.items := by
    rw [hitems]
    exact ⟨fun hmost => absurd hmost (by decide), trivial⟩
  rw [w.boundariesAt?_of_never hchar (hdeterministic.orderly t p), Template.boundaries?, hanchor,
    hitems, Bool.false_and, if_neg Bool.false_ne_true, possessive_cons, stop?_once] at h
  split at h
  · cases h
  · next stop hstop =>
    obtain ⟨-, hstop⟩ := Option.ite_none_right_eq_some.mp hstop
    obtain ⟨rest, hrest, rfl⟩ := Option.map_eq_some_iff.mp h
    rw [possessive, walk] at hrest
    split at hrest
    · cases hrest
    · cases hrest
      intro b hb
      rw [List.mem_singleton.mp hb, ← Option.some.inj hstop]

/-! ## 2.  Fixed bytes -/

/-- An element that accepts one byte alone is passed where the byte stands. -/
theorem stop?_of_only (ht : t.Encoded) (ha : a.Only b) (hb : b < 0x80) (p : Nat) :
    (Item.element a .once).stop? t p = if [b] <+: t.toList.drop p then some (p + 1) else none := by
  rw [stop?_once]
  cases hc : t[p]? with
  | none =>
    rw [Text.drop_toList_of_size_le (Array.getElem?_eq_none_iff.mp hc)]
    simp
  | some c =>
    rw [Text.drop_toList_of_getElem? hc]
    by_cases hbc : b = c
    · have hchar : t.AtChar (p + 1) := ht.atChar_succ hc (hbc ▸ hb)
      simp [ha c, hbc, Text.charStart_of_atChar hchar]
    · simp [ha c, hbc]

/-- Bytes that stand for themselves are read where they stand. -/
theorem possessive_literally (ht : t.Encoded) (hatoms : List.Forall₂ Atom.Only atoms bytes)
    (hascii : Ascii.All bytes) (toEnd : Bool) (rest : List Item) (p : Nat) :
    possessive t toEnd (literally atoms ++ rest) p =
      if bytes <+: t.toList.drop p then possessive t toEnd rest (p + bytes.length) else none := by
  induction hatoms generalizing p with
  | nil => simp [literally]
  | @cons a b atoms bytes ha _ ih =>
    obtain ⟨hb, hbytes⟩ := List.forall_mem_cons.mp hascii
    rw [literally, List.map_cons, List.cons_append, possessive_cons, stop?_of_only ht ha hb]
    cases hc : t[p]? with
    | none =>
      rw [Text.drop_toList_of_size_le (Array.getElem?_eq_none_iff.mp hc)]
      simp
    | some c =>
      have hrest := ih hbytes (p + 1)
      rw [literally] at hrest
      rw [Text.drop_toList_of_getElem? hc, List.length_cons]
      by_cases hbc : b = c
      · simp [hbc, hrest, Item.closes, Nat.add_assoc, Nat.add_comm 1]
      · simp [hbc]

theorem deterministic_literally (atoms : List Atom) (h : Deterministic rest) :
    Deterministic (literally atoms ++ rest) := by
  induction atoms with
  | nil => exact h
  | cons a atoms ih => exact ⟨fun hmost => absurd hmost (by decide), ih⟩

/-- **A template that begins with fixed bytes** matches where they stand, and goes on behind
them. -/
theorem Template.boundariesAt?_literally (w : Template) (ht : t.Encoded)
    (hanchor : w.anchored = false) (hitems : w.items = literally atoms ++ rest)
    (hatoms : List.Forall₂ Atom.Only atoms bytes) (hne : bytes ≠ [])
    (hascii : Ascii.All bytes) (hrest : Deterministic rest) (p : Nat) (hp : p < t.size) :
    boundariesAt? w.source t p =
      if bytes <+: t.toList.drop p then possessive t w.toEnd rest (p + bytes.length) else none := by
  obtain ⟨c, hc⟩ : ∃ c, t[p]? = some c := ⟨_, Array.getElem?_eq_getElem hp⟩
  obtain ⟨b, more, rfl⟩ := List.exists_cons_of_ne_nil hne
  obtain ⟨a, others, rfl⟩ : ∃ a others, atoms = a :: others := by
    cases hatoms
    exact ⟨_, _, rfl⟩
  have ha : a.Only b := (List.forall₂_cons.mp hatoms).1
  have hb : b < 0x80 := hascii b List.mem_cons_self
  by_cases hbc : b = c
  · have hchar : t.AtChar p := Text.atChar_of_lt hc (hbc ▸ hb)
    have hdeterministic : Deterministic w.items := hitems ▸ deterministic_literally _ hrest
    rw [w.boundariesAt?_of_never hchar (hdeterministic.orderly t p), Template.boundaries?, hanchor,
      hitems, Bool.false_and, if_neg Bool.false_ne_true, possessive_literally ht hatoms hascii]
  · have hrefused : a.accepts c = false := by rw [ha c, beq_eq_false_iff_ne]; exact hbc
    rw [w.boundariesAt?_of_refused hitems hc hrefused, if_neg]
    rw [Text.drop_toList_of_getElem? hc, List.cons_prefix_cons]
    exact fun h => hbc h.1

end LuaPattern
end Linewise
