import Linewise.LuaPattern.Source

/-!
# Elements of a pattern

`Source.setRest?` and `Source.elementRest?` find the end of a set and of an element by reading them.
Here it is said without reading them what they are made of.

## 1.  What they are

The part of a set behind its bracket (`Source.SetBody`) and an element (`Source.Element`).

## 2.  Reading them

What stands behind such a part is what is answered for it (`SetBody.setRest?_append`,
`Element.elementRest?_append`), and nothing else is answered: in front of an answer stands such a
part (`Source.exists_setBody`, `Source.exists_element`).

## 3.  Leaving them out

An element is one item of a rest, and it can be left out if its quantifier allows it
(`Element.optionalCloses?_append`). Without a quantifier it has to be taken
(`Element.optionalCloses?_eq_none`).
-/

namespace Linewise
namespace LuaPattern
namespace Source

/-! ## 1.  What they are -/

/-- What stands behind the `[` of a set, with the `]` that closes it. A `%` takes the next byte
along. A `^` that inverts the set is a byte like all others here. -/
inductive SetBody : Source → Prop where
  /-- The set is closed. -/
  | close : SetBody [closeSet]
  /-- A byte that stands for itself. -/
  | byte {c : UInt8} {l : Source} (hpercent : c ≠ percent) (hclose : c ≠ closeSet)
      (h : SetBody l) : SetBody (c :: l)
  /-- An escape. -/
  | escape {c : UInt8} {l : Source} (h : SetBody l) : SetBody (percent :: c :: l)

/-- An element without its quantifier. A frontier is none, since it cannot match nothing. -/
inductive Element : Source → Prop where
  /-- A byte that begins nothing else. -/
  | byte {c : UInt8} (hpercent : c ≠ percent) (hset : c ≠ openSet) (hopen : c ≠ openGroup)
      (hclose : c ≠ closeGroup) : Element [c]
  /-- A class or an escaped byte. -/
  | escape {kind : UInt8} (h : Ascii.toLower kind ≠ frontierLetter) : Element [percent, kind]
  /-- A set. -/
  | set {l : Source} (h : SetBody l) : Element (openSet :: l)

variable {l e body rest : Source} {c q : UInt8}

/-- The first byte of an element marks no capture. -/
theorem Element.exists_eq_cons (h : Element e) :
    ∃ c l, e = c :: l ∧ c ≠ openGroup ∧ c ≠ closeGroup := by
  cases h with
  | byte _ _ hopen hclose => exact ⟨_, _, rfl, hopen, hclose⟩
  | escape => exact ⟨_, _, rfl, by decide, by decide⟩
  | set => exact ⟨_, _, rfl, by decide, by decide⟩

/-! ## 2.  Reading them -/

theorem SetBody.setRest?_append (h : SetBody body) (rest : Source) :
    setRest? false (body ++ rest) = some rest := by
  induction h with
  | close => rfl
  | byte hpercent hclose _ ih =>
    rwa [List.cons_append, setRest?, if_neg hpercent, if_neg hclose]
  | escape _ ih => exact ih

/-- Behind a `%` the next byte belongs to the same member, so the part that is read there is a body
together with that `%`. -/
theorem exists_setBody {escaped : Bool} (h : setRest? escaped l = some rest) :
    ∃ body, SetBody (if escaped then percent :: body else body) ∧ l = body ++ rest := by
  induction l generalizing escaped with
  | nil => cases escaped <;> cases h
  | cons c l ih =>
    cases escaped with
    | true =>
      obtain ⟨body, hbody, rfl⟩ := ih h
      exact ⟨c :: body, .escape hbody, rfl⟩
    | false =>
      rw [setRest?] at h
      split at h
      · next hpercent =>
        obtain ⟨body, hbody, rfl⟩ := ih h
        exact ⟨c :: body, hpercent ▸ hbody, rfl⟩
      · next hpercent =>
        split at h
        · next hclose =>
          cases h
          exact ⟨[c], hclose ▸ .close, rfl⟩
        · next hclose =>
          obtain ⟨body, hbody, rfl⟩ := ih h
          exact ⟨c :: body, .byte hpercent hclose hbody, rfl⟩

/-- A `^` makes no difference to where a set ends. -/
theorem elementRest?_openSet (l : Source) : elementRest? (openSet :: l) = setRest? false l := by
  cases l with
  | nil => rfl
  | cons d inner =>
    by_cases hcaret : d = caret
    · subst hcaret
      rfl
    · simp [elementRest?, openSet, percent, hcaret]

theorem elementRest?_of_ne (hpercent : c ≠ percent) (hset : c ≠ openSet) (l : Source) :
    elementRest? (c :: l) = some l := by simp [elementRest?, hpercent, hset]

theorem Element.elementRest?_append (h : Element e) (rest : Source) :
    elementRest? (e ++ rest) = some rest := by
  cases h with
  | byte hpercent hset => exact elementRest?_of_ne hpercent hset rest
  | escape h => simp [elementRest?, h]
  | set h => rw [List.cons_append, elementRest?_openSet, h.setRest?_append]

/-- **What is read in front of another byte is an element.** At the end of a pattern this is not so:
there a `%` may stand alone. -/
theorem exists_element (hopen : c ≠ openGroup) (hclose : c ≠ closeGroup)
    (h : elementRest? (c :: l) = some (q :: rest)) :
    ∃ e, Element e ∧ c :: l = e ++ q :: rest := by
  by_cases hpercent : c = percent
  · subst hpercent
    cases l with
    | nil => cases h
    | cons kind l =>
      simp only [elementRest?, if_true] at h
      split at h
      · cases h
      · next hletter =>
        cases h
        exact ⟨[percent, kind], .escape hletter, rfl⟩
  · by_cases hset : c = openSet
    · subst hset
      rw [elementRest?_openSet] at h
      obtain ⟨body, hbody, rfl⟩ := exists_setBody h
      exact ⟨openSet :: body, .set hbody, rfl⟩
    · rw [elementRest?_of_ne hpercent hset] at h
      cases h
      exact ⟨[c], .byte hpercent hset hopen hclose, rfl⟩

/-! ## 3.  Leaving them out -/

/-- An element whose quantifier is not seen to be optional cannot be left out. -/
theorem Element.optionalCloses?_append (h : Element e) (n : Nat) (more : Source) :
    optionalCloses? (n + 1) (e ++ more) =
      match more with
      | [] => none
      | q :: rest => if isOptional q then optionalCloses? n rest else none := by
  have hrest := h.elementRest?_append more
  obtain ⟨c, inner, rfl, hopen, hclose⟩ := h.exists_eq_cons
  rw [List.cons_append] at hrest ⊢
  rw [optionalCloses?, if_neg hopen, if_neg hclose, hrest]
  cases more <;> rfl

/-- An element with no quantifier behind it has to be taken. -/
theorem Element.optionalCloses?_eq_none {more : Source} (h : Element e)
    (hmore : ∀ q ∈ more.head?, isQuantifier q = false) (n : Nat) :
    optionalCloses? n (e ++ more) = none := by
  cases n with
  | zero =>
    obtain ⟨c, inner, rfl, -⟩ := h.exists_eq_cons
    rfl
  | succ n =>
    rw [h.optionalCloses?_append]
    cases more with
    | nil => rfl
    | cons q rest =>
      have hq := hmore q rfl
      rw [isQuantifier, Bool.or_eq_false_iff] at hq
      simp [hq.1]

end Source
end LuaPattern
end Linewise
