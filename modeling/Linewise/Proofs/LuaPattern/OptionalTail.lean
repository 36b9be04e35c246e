import Linewise.Proofs.LuaPattern.CloseCount

/-!
# What is left of a pattern, by positions

Whether the rest of a pattern can match nothing is asked of a list of bytes (`Source.tailCloses?`).
Here the same question is asked of positions in the whole pattern, each of which has to be in range.
Two lengths are at play: elements are looked for in front of the place where the pattern stops, but
the byte behind an element, which may be its quantifier, is looked for in all of the pattern.

## 1.  One element

Where a set and where an element end (`Source.setEnd?`, `Source.elementEnd?`). An element that ends
with the pattern may end one position behind it, since a `%` takes two.

## 2.  The rest

`Source.optionalFrom?` goes from element to element, and `Source.optionalTail?` begins with an
element that repeats, or without one.

In each of them the outer option says whether all accesses are in range, and the inner one is the
answer. The statements are that the accesses are, and that the answer is that of the bytes.
-/

namespace Linewise
namespace LuaPattern
namespace Source

variable {p : Source} {n i stop : Nat}

/-! ## 1.  One element -/

/-- The first `n` bytes of a pattern, if it has as many. -/
def upTo? (p : Source) (n : Nat) : Option Source := if n ≤ p.length then some (p.take n) else none

/-- Where a set ends that is read on from position `i`, within `n` members. -/
def setEnd? (p : Source) : (n i : Nat) → Option (Option Nat)
  | 0, i => if i < p.length then none else some none
  | n + 1, i =>
    if i < p.length then do
      let c ← p[i]?
      if c = percent then setEnd? p n (i + 2)
      else if c = closeSet then some (some (i + 1))
      else setEnd? p n (i + 1)
    else some none

/-- Where the element ends that begins at position `i`. -/
def elementEnd? (p : Source) (i : Nat) : Option (Option Nat) := do
  let c ← p[i]?
  if c = percent then
    some (if p[i + 1]?.any (Ascii.toLower · == frontierLetter) then none else some (i + 2))
  else if c = openSet then
    setEnd? p p.length (if p[i + 1]? = some caret then i + 2 else i + 1)
  else some (some (i + 1))

theorem drop_eq_cons_of_getElem? {c : UInt8} (h : p[i]? = some c) :
    p.drop i = c :: p.drop (i + 1) := by
  obtain ⟨hlt, rfl⟩ := List.getElem?_eq_some_iff.mp h
  exact List.drop_eq_getElem_cons hlt

/-- The set ends where the bytes behind it begin. -/
theorem setEnd?_eq (hn : p.length ≤ i + n) :
    (setEnd? p n i).map (·.map p.drop) = some (setRest? false (p.drop i)) := by
  induction n generalizing i with
  | zero =>
    have hle : p.length ≤ i := hn
    rw [setEnd?, if_neg (Nat.not_lt_of_le hle), List.drop_eq_nil_of_le hle]
    rfl
  | succ n ih =>
    cases hc : p[i]? with
    | none =>
      have hle : p.length ≤ i := List.getElem?_eq_none_iff.mp hc
      rw [setEnd?, if_neg (Nat.not_lt_of_le hle), List.drop_eq_nil_of_le hle]
      rfl
    | some c =>
      have hlt : i < p.length := (List.getElem?_eq_some_iff.mp hc).1
      rw [setEnd?, if_pos hlt, hc, drop_eq_cons_of_getElem? hc, setRest?]
      simp only [Option.bind_eq_bind, Option.bind_some]
      split
      · -- an escape takes the byte behind it, if there is one
        rw [ih (by omega)]
        cases hd : p[i + 1]? with
        | none =>
          have hle : p.length ≤ i + 1 := List.getElem?_eq_none_iff.mp hd
          rw [List.drop_eq_nil_of_le hle, List.drop_eq_nil_of_le (Nat.le_succ_of_le hle)]
          rfl
        | some d =>
          rw [drop_eq_cons_of_getElem? hd]
          rfl
      · split
        · rfl
        · exact ih (by omega)

/-- **An element ends where the bytes behind it begin.** -/
theorem elementEnd?_eq (hi : i < p.length) :
    (elementEnd? p i).map (·.map p.drop) = some (elementRest? (p.drop i)) := by
  have hc : p[i]? = some p[i] := List.getElem?_eq_getElem hi
  rw [elementEnd?, hc, drop_eq_cons_of_getElem? hc, elementRest?.eq_def]
  simp only [Option.bind_eq_bind, Option.bind_some]
  split
  · cases hd : p[i + 1]? with
    | none =>
      have hle : p.length ≤ i + 1 := List.getElem?_eq_none_iff.mp hd
      rw [List.drop_eq_nil_of_le hle]
      simp [List.drop_eq_nil_of_le (Nat.le_succ_of_le hle)]
    | some d =>
      rw [drop_eq_cons_of_getElem? hd]
      by_cases hletter : Ascii.toLower d = frontierLetter <;> simp [hletter]
  · split
    · rw [setEnd?_eq (by split <;> omega)]
      cases hd : p[i + 1]? with
      | none =>
        have hle : p.length ≤ i + 1 := List.getElem?_eq_none_iff.mp hd
        simp [List.drop_eq_nil_of_le hle, setRest?]
      | some d =>
        rw [drop_eq_cons_of_getElem? hd]
        by_cases hcaret : d = caret <;> simp [hcaret, drop_eq_cons_of_getElem? hd]
    · rfl

theorem lt_of_setEnd? {stop : Nat} (h : setEnd? p n i = some (some stop)) : i < stop := by
  induction n generalizing i with
  | zero =>
    rw [setEnd?] at h
    split at h <;> cases h
  | succ n ih =>
    rw [setEnd?] at h
    split at h
    · next hlt =>
      rw [List.getElem?_eq_getElem hlt] at h
      simp only [Option.bind_eq_bind, Option.bind_some] at h
      split at h
      · have hlt := ih h
        omega
      · split at h
        · cases h
          exact Nat.lt_succ_self i
        · exact Nat.lt_of_succ_lt (ih h)
    · cases h

theorem lt_of_elementEnd? {stop : Nat} (h : elementEnd? p i = some (some stop)) : i < stop := by
  obtain ⟨c, -, h⟩ := Option.bind_eq_some_iff.mp h
  split at h
  · obtain rfl : i + 2 = stop := by
      split at h
      · cases h
      · exact Option.some.inj (Option.some.inj h)
    omega
  · split at h
    · have hlt := lt_of_setEnd? h
      split at hlt <;> omega
    · cases h
      exact Nat.lt_succ_self i

/-! ## 2.  The rest -/

/-- The captures that close from position `i` on, in front of the place where `cut` ends, if each of
at most `n` items can match nothing. -/
def optionalFrom? (p cut : Source) : (n i : Nat) → Option (Option Nat)
  | 0, i => if i < cut.length then none else some (some 0)
  | n + 1, i =>
    if i < cut.length then do
      let c ← cut[i]?
      if c = openGroup then optionalFrom? p cut n (i + 1)
      else if c = closeGroup then
        let closes? ← optionalFrom? p cut n (i + 1)
        some (closes?.map (· + 1))
      else
        match ← cut.elementEnd? i with
        | none => some none
        | some next =>
          if isOptional (p.byteAt next) then optionalFrom? p cut n (next + 1) else some none
    else some (some 0)

/-- The captures that close from position `i` on, in front of the place where the pattern stops, if
all that is left there can match nothing. An element that repeats is left out together with its
quantifier. -/
def optionalTail? (p : Source) (stop i : Nat) (repeating : Bool) : Option (Option Nat) := do
  let cut ← p.upTo? stop
  if repeating then
    match ← cut.elementEnd? i with
    | none => some none
    | some next =>
      optionalFrom? p cut cut.length (if isQuantifier (p.byteAt next) then next + 1 else next)
  else optionalFrom? p cut cut.length i

/-- What stands behind an element is the same in all of the pattern, except where the pattern stops:
there it is no quantifier. -/
theorem byteAt_of_take (hend : p.drop stop = [] ∨ p.drop stop = [dollar]) (i : Nat) :
    match (p.take stop)[i]? with
    | some q => p.byteAt i = q
    | none => isQuantifier (p.byteAt i) = false := by
  rw [List.getElem?_take, byteAt, List.getD_eq_getElem?_getD]
  by_cases hi : i < stop
  · rw [if_pos hi]
    cases p[i]? with
    | some q => rfl
    | none => rfl
  · have hget : p[i]? = (p.drop stop)[i - stop]? := by
      rw [List.getElem?_drop, Nat.add_sub_cancel' (Nat.le_of_not_lt hi)]
    rw [if_neg hi, hget]
    rcases hend with hnil | hdollar
    · rw [hnil]
      rfl
    · rw [hdollar]
      cases i - stop <;> rfl

/-- **The captures of the rest are those of its bytes.** -/
theorem optionalFrom?_eq (hend : p.drop stop = [] ∨ p.drop stop = [dollar]) {m : Nat}
    (hn : (p.take stop).length ≤ i + n) (hm : ((p.take stop).drop i).length ≤ m) :
    optionalFrom? p (p.take stop) n i = some (optionalCloses? m ((p.take stop).drop i)) := by
  induction n generalizing i m with
  | zero =>
    have hle : (p.take stop).length ≤ i := hn
    rw [optionalFrom?, if_neg (Nat.not_lt_of_le hle), List.drop_eq_nil_of_le hle, optionalCloses?]
  | succ n ih =>
    cases hc : (p.take stop)[i]? with
    | none =>
      have hle : (p.take stop).length ≤ i := List.getElem?_eq_none_iff.mp hc
      rw [optionalFrom?, if_neg (Nat.not_lt_of_le hle), List.drop_eq_nil_of_le hle, optionalCloses?]
    | some c =>
      have hlt : i < (p.take stop).length := (List.getElem?_eq_some_iff.mp hc).1
      obtain ⟨end?, hend?, hrest⟩ := Option.map_eq_some_iff.mp (elementEnd?_eq hlt)
      rw [drop_eq_cons_of_getElem? hc, List.length_cons] at hm
      obtain ⟨m, rfl⟩ : ∃ k, m = k + 1 := ⟨m - 1, by omega⟩
      have hnext : optionalFrom? p (p.take stop) n (i + 1) =
          some (optionalCloses? m ((p.take stop).drop (i + 1))) := ih (by omega) (by omega)
      rw [drop_eq_cons_of_getElem? hc] at hrest ⊢
      rw [optionalFrom?, if_pos hlt, hc, hend?, optionalCloses?, ← hrest]
      simp only [Option.bind_eq_bind, Option.bind_some, hnext]
      split
      · rfl
      · split
        · rfl
        · cases end? with
          | none => rfl
          | some next =>
            have hforward := lt_of_elementEnd? hend?
            have hbyte := byteAt_of_take hend next
            dsimp only [Option.map_some]
            cases hq : (p.take stop)[next]? with
            | none =>
              -- the element ends where the pattern stops
              rw [hq] at hbyte
              have hle : (p.take stop).length ≤ next := List.getElem?_eq_none_iff.mp hq
              have hnot : isOptional (p.byteAt next) = false :=
                (Bool.or_eq_false_iff.mp hbyte).1
              rw [List.drop_eq_nil_of_le hle, hnot]
              rfl
            | some q =>
              rw [hq] at hbyte
              rw [drop_eq_cons_of_getElem? hq, hbyte]
              cases hoptional : isOptional q with
              | false => simp [hoptional]
              | true =>
                have hlength : ((p.take stop).drop (next + 1)).length ≤ m := by
                  rw [List.length_drop] at hm ⊢
                  omega
                simpa [hoptional] using ih (by omega) hlength

/-- **Whether the rest can match nothing** is a question about its bytes. -/
theorem optionalTail?_eq (hle : stop ≤ p.length)
    (hend : p.drop stop = [] ∨ p.drop stop = [dollar]) (hi : i < stop) (repeating : Bool) :
    optionalTail? p stop i repeating =
      some ((if repeating then afterElement? ((p.take stop).drop i)
        else some ((p.take stop).drop i)).bind tailCloses?) := by
  have hlength : (p.take stop).length = stop := List.length_take_of_le hle
  have hfrom : ∀ j, optionalFrom? p (p.take stop) (p.take stop).length j =
      some (tailCloses? ((p.take stop).drop j)) :=
    fun j => optionalFrom?_eq hend (Nat.le_add_left _ _) (Nat.le_refl _)
  rw [optionalTail?, upTo?, if_pos hle]
  simp only [Option.bind_eq_bind, Option.bind_some, hfrom]
  cases repeating with
  | false => rfl
  | true =>
    obtain ⟨end?, hend?, hrest⟩ :=
      Option.map_eq_some_iff.mp (elementEnd?_eq (p := p.take stop) (by omega : i < _))
    rw [hend?, if_pos rfl, afterElement?.eq_def, ← hrest]
    cases end? with
    | none => rfl
    | some next =>
      have hbyte := byteAt_of_take hend next
      simp only [Option.bind_some, Option.map_some, if_true]
      cases hq : (p.take stop)[next]? with
      | none =>
        rw [hq] at hbyte
        have hnil := List.drop_eq_nil_of_le (List.getElem?_eq_none_iff.mp hq)
        simp [hnil, hbyte]
      | some q =>
        rw [hq] at hbyte
        rw [drop_eq_cons_of_getElem? hq, hbyte]
        cases hquantifier : isQuantifier q with
        | true => simp [hquantifier]
        | false => simp [hquantifier, drop_eq_cons_of_getElem? hq]

end Source
end LuaPattern
end Linewise
