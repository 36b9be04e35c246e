import Linewise.Proofs.LuaPattern.Elements
import Linewise.Proofs.LuaPattern.LeftToRight

/-!
# When the input has run out

At the end of the input the machine asks of the bytes that are left of the pattern whether they can
match nothing (`Source.tailCloses?`). For the bytes of a template the answer is that of the parts:
no frontier is left, and no element that takes a character (`tailCloses?_sourceOf`). And that is
what both readings come to, once they stand at the end of the text (`walk_of_size`): each of the
parts that are left takes nothing there.
-/

namespace Linewise
namespace LuaPattern

/-! ## 1.  The bytes that are left -/

theorem setBody_membersSource (members : List Member) :
    Source.SetBody (membersSource members ++ [closeSet]) := by
  induction members with
  | nil => exact .close
  | cons m members ih =>
    rw [membersSource_cons, List.append_assoc]
    cases m with
    | byte b plain =>
      obtain ⟨hpercent, hclose, -⟩ := ne_of_isPlainMember plain
      exact .byte hpercent hclose ih
    | escape kind known => exact .escape ih

/-- The bytes of a set are an element, also where it is inverted. -/
theorem element_setSource (inverted : Bool) (members : List Member) :
    Source.Element (setSource inverted members) := by
  have hbody := setBody_membersSource members
  cases inverted with
  | true => exact .set (.byte (by decide) (by decide) hbody)
  | false => exact .set hbody

/-- So are those of an atom. -/
theorem Atom.element_source (a : Atom) : Source.Element a.source := by
  cases a with
  | byte b plain =>
    have hne : ∀ {magic}, magic ∈ magicBytes → b ≠ magic := ne_of_isPlain plain
    exact .byte (hne (by decide)) (hne (by decide)) (hne (by decide)) (hne (by decide))
  | any => exact .byte (by decide) (by decide) (by decide) (by decide)
  | escape kind known => exact .escape (toLower_ne_of_isEscape known)
  | set s => exact element_setSource s.inverted s.members

/-- The number of captures that close in parts that can match nothing. -/
def tailCloses? : List Item → Option Nat
  | [] => some 0
  | .openGroup :: rest => tailCloses? rest
  | .closeGroup :: rest => (tailCloses? rest).map (· + 1)
  | .frontier _ :: _ => none
  | .element _ q :: rest => if q.least = 0 then tailCloses? rest else none

theorem optionalCloses?_sourceOf (items : List Item) {n : Nat}
    (hn : (sourceOf items).length ≤ n) :
    Source.optionalCloses? n (sourceOf items) = tailCloses? items := by
  induction items generalizing n with
  | nil => cases n <;> rfl
  | cons i rest ih =>
    rw [sourceOf_cons, List.length_append] at hn
    have hsource := i.length_source_pos
    obtain ⟨n, rfl⟩ : ∃ k, n = k + 1 := ⟨n - 1, by omega⟩
    have hrest := ih (n := n) (by omega)
    rw [sourceOf_cons]
    cases i with
    | openGroup => exact hrest
    | closeGroup =>
      simp [Item.source, Source.optionalCloses?, tailCloses?, hrest, openGroup, closeGroup]
    | frontier s =>
      simp [Item.source, Source.optionalCloses?, Source.elementRest?, tailCloses?, percent,
        openGroup, closeGroup, Ascii.toLower, Ascii.isUpper, frontierLetter]
    | element a q =>
      rw [Item.source, List.append_assoc, a.element_source.optionalCloses?_append]
      cases q with
      | once =>
        -- what follows the atom begins another part
        cases rest with
        | nil => rfl
        | cons j rest =>
          obtain ⟨b, more, hj, hb⟩ := j.exists_source_eq_cons
          have hoptional : Source.isOptional b = false := by
            simp only [begins, Source.isQuantifier, Bool.and_eq_true, Bool.not_eq_true',
              Bool.or_eq_false_iff] at hb
            exact hb.2.1
          simp [Quantifier.source, hj, hoptional, tailCloses?, Quantifier.least]
      | optional =>
        simpa [Quantifier.source, Source.isOptional, tailCloses?, Quantifier.least] using hrest
      | many =>
        simpa [Quantifier.source, Source.isOptional, tailCloses?, Quantifier.least] using hrest
      | several =>
        simp [Quantifier.source, Source.isOptional, tailCloses?, Quantifier.least, plus, minus,
          star, question]

/-- **What is left of a template can match nothing** if each of its parts can. -/
theorem tailCloses?_sourceOf (items : List Item) :
    Source.tailCloses? (sourceOf items) = tailCloses? items :=
  optionalCloses?_sourceOf items (Nat.le_refl _)

/-- An element that repeats is left out together with its quantifier. -/
theorem afterElement?_source (a : Atom) {q : Quantifier} (hq : q.most = none) (rest : Source) :
    Source.afterElement? (a.source ++ (q.source ++ rest)) = some rest := by
  rw [Source.afterElement?, a.element_source.elementRest?_append]
  cases q with
  | once => exact absurd hq (by simp [Quantifier.most])
  | optional => exact absurd hq (by simp [Quantifier.most])
  | many => rfl
  | several => rfl

/-! ## 2.  Both readings at the end of the text -/

theorem Atom.reach_of_size (a : Atom) {t : Text} (n : Nat) : a.reach t n t.size = t.size := by
  cases n with
  | zero => rfl
  | succ n => simp [Atom.reach]

theorem Atom.lastShared?_of_size (a : Atom) {t : Text} (rest : List Item) (n : Nat) :
    a.lastShared? t rest n t.size = none := by
  cases n with
  | zero => rfl
  | succ n => simp [Atom.lastShared?]

/-- Whether a part may be missing at the end of the text. -/
theorem Item.stop?_of_size (t : Text) (i : Item) :
    i.stop? t t.size =
      match i with
      | .frontier _ => none
      | .element _ q => if q.least = 0 then some t.size else none
      | _ => some t.size := by
  cases i with
  | openGroup => rfl
  | closeGroup => rfl
  | frontier s => simp [Item.stop?]
  | element a q => simp [Item.stop?, Atom.reach_of_size]

theorem Item.lastShared?_of_size (t : Text) (i : Item) (rest : List Item) :
    i.lastShared? t rest t.size = none := by
  cases i with
  | openGroup => rfl
  | closeGroup => rfl
  | frontier s => rfl
  | element a q => simp [Item.lastShared?, Atom.lastShared?_of_size]

theorem Item.leave?_of_size (t : Text) (i : Item) (rest : List Item) :
    i.leave? t rest t.size = i.stop? t t.size := by
  simp [Item.leave?, Item.lastShared?_of_size]

/-- **At the end of the text a reading goes on** exactly if what is left can match nothing, and
closes its captures there. -/
theorem yielding_of_size (t : Text) (toEnd : Bool) (items : List Item) :
    yielding t toEnd items t.size =
      (tailCloses? items).map fun n => List.replicate n t.size ++ [t.size] := by
  induction items with
  | nil => simp [yielding, walk, tailCloses?]
  | cons i rest ih =>
    rw [yielding_cons, Item.leave?_of_size, Item.stop?_of_size]
    cases i with
    | openGroup => simp [ih, tailCloses?, Item.closes, Function.comp_def]
    | closeGroup =>
      simp [ih, tailCloses?, Item.closes, Function.comp_def, List.replicate_succ]
    | frontier s => rfl
    | element a q =>
      by_cases hq : q.least = 0 <;> simp [ih, tailCloses?, Item.closes, hq, Function.comp_def]

end LuaPattern
end Linewise
