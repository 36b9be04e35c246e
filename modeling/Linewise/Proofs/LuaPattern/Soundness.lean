import Linewise.Proofs.LuaPattern.Exactness

/-!
# Patterns of elements alone

For a pattern without captures, frontiers and anchors a match has a meaning that does not speak of a
reading order: the text in front of its end can be cut into pieces, one for each element (`Pieces`).
Among the ways to cut it there is at most one in which each piece is as long as it can be
(`Possessive`).

Neither "what is found can be cut" nor "what can be cut possessively is found" holds of every text,
because of what happens when the input runs out while a point is remembered. The machine goes back
to that point in the text, but goes on one byte further in the pattern, wherever it stands there. So
the point may be one of an earlier element, the element may be a set of which a member is read
alone, and an element that gives back its only character still counts it as taken. Both statements
are proved here for the readings in which none of that happens; after each of them stands a text on
which it does.
-/

namespace Linewise
namespace LuaPattern

variable {t : Text} {a : Atom} {q : Quantifier} {elements : List (Atom × Quantifier)}
  {n p stop offset : Nat}

/-- The parts of a pattern of elements alone. -/
def partsOf (elements : List (Atom × Quantifier)) : List Item :=
  elements.map fun e => .element e.1 e.2

/-! ## 1.  What an atom takes -/

theorem Atom.Takes.add_le (h : a.Takes t n p stop) : p + n ≤ stop := by
  induction h with
  | zero p => exact Nat.le_refl p
  | @succ n p stop c hc hacc h ih =>
    have hforward := t.le_charStart (p + 1)
    omega

theorem Atom.Takes.pos_of_lt (h : a.Takes t n p stop) (hlt : p < stop) : 0 < n := by
  cases h with
  | zero => exact absurd hlt (Nat.lt_irrefl p)
  | succ hc hacc h => exact Nat.succ_pos _

theorem Atom.Takes.le_size (h : a.Takes t n p stop) (hp : p ≤ t.size) : stop ≤ t.size := by
  induction h with
  | zero p => exact hp
  | succ hc hacc h ih => exact ih (Text.charStart_le_size (Array.getElem?_eq_some_iff.mp hc).1)

/-- Where an atom stops it has taken some characters, and all of them if it could have taken more.
-/
theorem Atom.exists_takes_reach (a : Atom) (t : Text) (n p : Nat) :
    ∃ k, k ≤ n ∧ a.Takes t k p (a.reach t n p) ∧
      (k < n → ∀ c, t[a.reach t n p]? = some c → a.accepts c = false) := by
  induction n generalizing p with
  | zero => exact ⟨0, Nat.le_refl 0, .zero p, fun hlt => absurd hlt (Nat.lt_irrefl 0)⟩
  | succ n ih =>
    cases hc : t[p]? with
    | none =>
      have hreach : a.reach t (n + 1) p = p := by simp [Atom.reach, hc]
      rw [hreach]
      exact ⟨0, Nat.zero_le _, .zero p, fun _ c hsome => by simp [hc] at hsome⟩
    | some c =>
      cases hacc : a.accepts c with
      | true =>
        obtain ⟨k, hle, htakes, hmore⟩ := ih (t.charStart (p + 1))
        rw [Atom.reach_succ hc hacc]
        exact ⟨k + 1, Nat.succ_le_succ hle, .succ hc hacc htakes,
          fun hlt => hmore (Nat.lt_of_succ_lt_succ hlt)⟩
      | false =>
        have hreach : a.reach t (n + 1) p = p := by simp [Atom.reach, hc, hacc]
        rw [hreach]
        refine ⟨0, Nat.zero_le _, .zero p, fun _ d hd => ?_⟩
        rw [hc] at hd
        cases hd
        exact hacc

/-- An atom that has taken all it could has come to where it stops. -/
theorem Atom.Takes.reach_eq {k : Nat} (h : a.Takes t k p stop) (hle : k ≤ n)
    (hmore : k < n → ∀ c, t[stop]? = some c → a.accepts c = false) : a.reach t n p = stop := by
  induction h generalizing n with
  | zero p =>
    cases n with
    | zero => rfl
    | succ n =>
      cases hc : t[p]? with
      | none => simp [Atom.reach, hc]
      | some c => simp [Atom.reach, hc, hmore (Nat.succ_pos n) c hc]
  | @succ k p stop c hc hacc h ih =>
    obtain ⟨n, rfl⟩ : ∃ m, n = m + 1 := ⟨n - 1, by omega⟩
    rw [Atom.reach_succ hc hacc]
    exact ih (Nat.le_of_succ_le_succ hle) fun hlt => hmore (Nat.succ_lt_succ hlt)

/-! ## 2.  What an element takes -/

theorem Quantifier.allows_iff (q : Quantifier) (n : Nat) :
    q.Allows n ↔ q.least ≤ n ∧ (q.most = none ∨ n ≤ 1) := by
  cases q with
  | once =>
    simp only [Quantifier.Allows, Quantifier.least, Quantifier.most, reduceCtorEq, false_or]
    omega
  | optional => simp [Quantifier.Allows, Quantifier.least, Quantifier.most]
  | many => simp [Quantifier.Allows, Quantifier.least, Quantifier.most]
  | several => simp [Quantifier.Allows, Quantifier.least, Quantifier.most]

/-- The limit of an element is no obstacle in a text. -/
theorem Quantifier.limit_spec (q : Quantifier) (t : Text) :
    q.most = none ∧ q.limit t = t.size ∨ q.most = some 1 ∧ q.limit t = 1 := by
  cases q <;> simp [Quantifier.most, Quantifier.limit]

/-- **Where an element stops** it has taken a number of characters that its quantifier allows, and
all of them if it may take more. -/
theorem stop?_eq_some_iff (hp : p ≤ t.size) :
    (Item.element a q).stop? t p = some stop ↔
      ∃ n, q.Allows n ∧ a.Takes t n p stop ∧
        (q.Allows (n + 1) → ∀ c, t[stop]? = some c → a.accepts c = false) := by
  have hleast := q.least_le_one
  have hlimit := q.limit_spec t
  constructor
  · intro h
    obtain ⟨n, hle, htakes, hmore⟩ := a.exists_takes_reach t (q.limit t) p
    rw [Item.stop?] at h
    split at h
    · next hstop =>
      cases h
      refine ⟨n, (q.allows_iff n).mpr ⟨?_, ?_⟩, htakes, fun hallows c hc => ?_⟩
      · rcases hstop with hzero | hlt
        · omega
        · have hpos := htakes.pos_of_lt hlt
          omega
      · rcases hlimit with ⟨hmost, -⟩ | ⟨-, hone⟩
        · exact Or.inl hmost
        · exact Or.inr (by omega)
      · have hadd := htakes.add_le
        have hlt := (Array.getElem?_eq_some_iff.mp hc).1
        obtain ⟨-, hmost⟩ := (q.allows_iff (n + 1)).mp hallows
        refine hmore ?_ c hc
        rcases hlimit with ⟨-, hsize⟩ | ⟨hsome, hone⟩
        · omega
        · have hzero : n + 1 ≤ 1 := hmost.resolve_left (by simp [hsome])
          omega
    · cases h
  · rintro ⟨n, hallows, htakes, hmore⟩
    obtain ⟨henough, hmost⟩ := (q.allows_iff n).mp hallows
    have hadd := htakes.add_le
    have hsize := htakes.le_size hp
    have hle : n ≤ q.limit t := by
      rcases hlimit with ⟨-, hlimit⟩ | ⟨hsome, hone⟩
      · omega
      · have hzero : n ≤ 1 := hmost.resolve_left (by simp [hsome])
        omega
    have hreach : a.reach t (q.limit t) p = stop := by
      refine htakes.reach_eq hle fun hlt => hmore ((q.allows_iff (n + 1)).mpr ⟨by omega, ?_⟩)
      rcases hlimit with ⟨hnone, -⟩ | ⟨-, hone⟩
      · exact Or.inl hnone
      · exact Or.inr (by omega)
    rw [Item.stop?, hreach, if_pos]
    omega

/-! ## 3.  The possessive reading -/

/-- **The possessive reading cuts the text possessively**, and there is no other way to do so. -/
theorem possessive_eq_some_iff (hp : p ≤ t.size) {bounds : List Nat} :
    possessive t false (partsOf elements) p = some bounds ↔
      ∃ stop, bounds = [stop] ∧ Possessive t elements p stop := by
  induction elements generalizing p with
  | nil =>
    constructor
    · intro h
      cases h
      exact ⟨p, rfl, .nil p⟩
    · rintro ⟨stop, rfl, hnil⟩
      cases hnil
      rfl
  | cons e elements ih =>
    obtain ⟨a, q⟩ := e
    rw [partsOf, List.map_cons, possessive_cons]
    constructor
    · intro h
      cases hstop : (Item.element a q).stop? t p with
      | none => simp [hstop] at h
      | some p' =>
        obtain ⟨n, hallows, htakes, hlongest⟩ := (stop?_eq_some_iff hp).mp hstop
        have hrest : possessive t false (partsOf elements) p' = some bounds := by
          simpa [hstop, Item.closes, partsOf] using h
        obtain ⟨stop, hbounds, hpossessive⟩ := (ih (htakes.le_size hp)).mp hrest
        exact ⟨stop, hbounds, .cons hallows htakes hlongest hpossessive⟩
    · rintro ⟨stop, rfl, hpossessive⟩
      cases hpossessive with
      | @cons _ _ _ n _ p' _ hallows htakes hlongest hpossessive =>
        have hstop : (Item.element a q).stop? t p = some p' :=
          (stop?_eq_some_iff hp).mpr ⟨n, hallows, htakes, hlongest⟩
        have hrest := (ih (htakes.le_size hp)).mpr ⟨stop, rfl, hpossessive⟩
        simpa [hstop, Item.closes, partsOf] using hrest

/-! ## 4.  What is found can be cut -/

theorem source_ofElements (hplain : EndsPlain false (partsOf elements)) :
    (Template.mk false (partsOf elements) false hplain).source = sourceOf (partsOf elements) := by
  simp [Template.source, anchorTail]

/-- An orderly match of elements alone answers with the yielding reading. -/
theorem boundariesAt?_eq_yielding {may : Item → List Item → Nat → Nat → Bool}
    (hmay : ∀ i rest p point, may i rest p point = true → harmless t i point = true)
    (hplain : EndsPlain false (partsOf elements)) (hchar : t.AtChar offset)
    (horderly : orderly t may false (partsOf elements) offset = true) :
    boundariesAt? (sourceOf (partsOf elements)) t offset =
      yielding t false (partsOf elements) offset := by
  rw [← source_ofElements hplain]
  exact (Template.mk false (partsOf elements) false hplain).boundariesAt?_eq_yielded? hmay hchar
    horderly

/-- A part has taken enough without what it gives back. -/
def Item.sated : Item → Nat → Nat → Bool
  | .element _ q, p, point => q.least == 0 || decide (p < point)
  | _, _, _ => true

/-- A return after which the part has still taken enough. -/
def sparing (t : Text) (i : Item) (_ : List Item) (p point : Nat) : Bool :=
  harmless t i point && i.sated p point

/-- **An element that only gives back what it can spare** leaves the text behind a piece that its
quantifier allows. -/
theorem takes_of_leaves {rest : List Item} {next : Nat} (hp : p ≤ t.size)
    (h : Leaves t (sparing t) (.element a q) rest p next) :
    (∃ n, q.Allows n ∧ a.Takes t n p next) ∧
      ∃ remembered, orderly t (sparing t) remembered rest next = true := by
  cases h with
  | stop hstop hrest =>
    obtain ⟨n, hallows, htakes, -⟩ := (stop?_eq_some_iff hp).mp hstop
    exact ⟨⟨n, hallows, htakes⟩, _, hrest⟩
  | back hstop hshared hmay hrest =>
    rw [Item.lastShared?] at hshared
    split at hshared
    · next hmost =>
      obtain ⟨n, c, htakes, -⟩ := Atom.exists_takes_of_lastShared? hshared
      have hsated : q.least = 0 ∨ p < next := by
        simpa [Item.sated] using (Bool.and_eq_true_iff.mp hmay).2
      have henough : q.least ≤ n := by
        rcases hsated with hzero | hlt
        · omega
        · have hpos := htakes.pos_of_lt hlt
          have hle := q.least_le_one
          omega
      exact ⟨⟨n, (q.allows_iff n).mpr ⟨henough, Or.inl hmost⟩, htakes⟩, _, hrest⟩
    · cases hshared

theorem pieces_of_yielding {remembered : Bool} {bounds : List Nat} (hp : p ≤ t.size)
    (horderly : orderly t (sparing t) remembered (partsOf elements) p = true)
    (h : yielding t false (partsOf elements) p = some bounds) :
    ∃ stop, bounds = [stop] ∧ Pieces t elements p stop := by
  induction elements generalizing p remembered with
  | nil =>
    cases h
    exact ⟨p, rfl, .nil p⟩
  | cons e elements ih =>
    obtain ⟨a, q⟩ := e
    rw [partsOf, List.map_cons] at h horderly
    rw [yielding_cons] at h
    cases hstop : (Item.element a q).stop? t p with
    | none => simp [leave?_of_stop?_eq_none hstop] at h
    | some stop =>
      obtain ⟨next, hleave, hleaves⟩ := exists_leaves_of_orderly horderly hstop
      obtain ⟨⟨n, hallows, htakes⟩, remembered, hrestOrderly⟩ := takes_of_leaves hp hleaves
      have hrest : yielding t false (partsOf elements) next = some bounds := by
        simpa [hleave, Item.closes, partsOf] using h
      obtain ⟨last, hbounds, hpieces⟩ := ih (htakes.le_size hp) hrestOrderly hrest
      exact ⟨last, hbounds, .cons hallows htakes hpieces⟩

/-- **What is found can be cut into pieces**, one for each element, as long as the machine only
returns to give back what the element that has run out of input can spare. -/
theorem pieces_of_boundariesAt? {bounds : List Nat} (hplain : EndsPlain false (partsOf elements))
    (hchar : t.AtChar offset)
    (horderly : orderly t (sparing t) false (partsOf elements) offset = true)
    (h : boundariesAt? (sourceOf (partsOf elements)) t offset = some bounds) :
    ∃ stop, bounds = [stop] ∧ Pieces t elements offset stop := by
  have hharmless : ∀ i rest p point, sparing t i rest p point = true →
      harmless t i point = true :=
    fun i rest p point hsparing => (Bool.and_eq_true_iff.mp hsparing).1
  rw [boundariesAt?_eq_yielding hharmless hplain hchar horderly] at h
  exact pieces_of_yielding hchar.le_size horderly h

-- `a` and `b` stand for themselves, outside of sets and in them
theorem isPlain_a : isPlain 0x61 = true := rfl

theorem isPlain_b : isPlain 0x62 = true := rfl

theorem isPlainMember_a : isPlainMember 0x61 = true := rfl

theorem isPlainMember_b : isPlainMember 0x62 = true := rfl

/-- The elements of `a*a`. -/
def manyThenOnce : List (Atom × Quantifier) :=
  [(.byte 0x61 isPlain_a, .many), (.byte 0x61 isPlain_a, .once)]

theorem pieces_manyThenOnce :
    EndsPlain false (partsOf manyThenOnce) ∧ Text.AtChar #[0x61, 0x61] 0 ∧
      orderly #[0x61, 0x61] (sparing #[0x61, 0x61]) false (partsOf manyThenOnce) 0 = true ∧
      boundariesAt? (sourceOf (partsOf manyThenOnce)) #[0x61, 0x61] 0 = some [2] ∧
      Pieces #[0x61, 0x61] manyThenOnce 0 2 := by
  have hplain : EndsPlain false (partsOf manyThenOnce) := fun _ => by decide
  have hchar : Text.AtChar #[0x61, 0x61] 0 := ⟨by decide, fun c hc => by cases hc; rfl⟩
  have horderly : orderly #[0x61, 0x61] (sparing #[0x61, 0x61]) false (partsOf manyThenOnce) 0 =
    true := rfl
  have hfound : boundariesAt? (sourceOf (partsOf manyThenOnce)) #[0x61, 0x61] 0 = some [2] :=
    boundariesAt?_of_concludes rfl ⟨10, rfl, rfl⟩
  obtain ⟨stop, hstop, hpieces⟩ := pieces_of_boundariesAt? hplain hchar horderly hfound
  cases hstop
  exact ⟨hplain, hchar, horderly, hfound, hpieces⟩

/-- The elements of `a+a`. -/
def severalThenOnce : List (Atom × Quantifier) :=
  [(.byte 0x61 isPlain_a, .several), (.byte 0x61 isPlain_a, .once)]

/-- **`a+a` is found in `a`.** The first element gives back its only character, and still counts it
as taken. -/
theorem not_pieces_severalThenOnce :
    EndsPlain false (partsOf severalThenOnce) ∧ Text.AtChar #[0x61] 0 ∧
      boundariesAt? (sourceOf (partsOf severalThenOnce)) #[0x61] 0 = some [1] ∧
      ¬Pieces #[0x61] severalThenOnce 0 1 := by
  refine ⟨fun _ => by decide, ⟨by decide, fun c hc => by cases hc; rfl⟩,
    boundariesAt?_of_concludes rfl ⟨10, rfl, rfl⟩, fun hpieces => ?_⟩
  cases hpieces with
  | cons hallows htakes hrest =>
    cases hrest with
    | cons hallows' htakes' hnil =>
      cases hnil
      have hadd := htakes.add_le
      have hadd' := htakes'.add_le
      simp only [Quantifier.Allows] at hallows hallows'
      omega

/-! ## 5.  What can be cut possessively is found -/

/-- A return after which the parts behind the element take everything that was given back. -/
def regained (t : Text) (i : Item) (rest : List Item) (_ point : Nat) : Bool :=
  harmless t i point && yielding t false rest point == some [t.size]

/-- At the end of the text nothing is left to cut. -/
theorem Possessive.eq_size (h : Possessive t elements t.size stop) : stop = t.size := by
  generalize hp : t.size = p at h
  induction h with
  | nil p => rfl
  | cons hallows htakes hlongest h ih =>
    have hle := htakes.le_size (Nat.le_of_eq hp.symm)
    have hadd := htakes.add_le
    exact (ih (by omega)).trans (by omega)

theorem yielding_of_possessive {remembered : Bool} (hp : p ≤ t.size)
    (horderly : orderly t (regained t) remembered (partsOf elements) p = true)
    (h : Possessive t elements p stop) : yielding t false (partsOf elements) p = some [stop] := by
  induction h generalizing remembered with
  | nil p => rfl
  | @cons a q elements n p p' stop hallows htakes hlongest h ih =>
    rw [partsOf, List.map_cons] at horderly ⊢
    have hstop : (Item.element a q).stop? t p = some p' :=
      (stop?_eq_some_iff hp).mpr ⟨n, hallows, htakes, hlongest⟩
    obtain ⟨next, hleave, hleaves⟩ := exists_leaves_of_orderly horderly hstop
    have hrest : yielding t false (partsOf elements) next = some [stop] := by
      cases hleaves with
      | stop hstop' hrestOrderly =>
        cases hstop.symm.trans hstop'
        exact ih (htakes.le_size hp) hrestOrderly
      | back hstop' hshared hmay hrestOrderly =>
        -- what was given back is taken again, so the reading ends with the text all the same
        cases hstop.symm.trans hstop'
        rw [h.eq_size]
        exact beq_iff_eq.mp (Bool.and_eq_true_iff.mp hmay).2
    rw [yielding_cons, hleave]
    simpa [Item.closes, partsOf] using hrest

/-- **What can be cut possessively is found**, as long as the machine only returns where what it
gives back is taken again. -/
theorem boundariesAt?_of_possessive (hplain : EndsPlain false (partsOf elements))
    (hchar : t.AtChar offset)
    (horderly : orderly t (regained t) false (partsOf elements) offset = true)
    (h : Possessive t elements offset stop) :
    boundariesAt? (sourceOf (partsOf elements)) t offset = some [stop] := by
  have hharmless : ∀ i rest p point, regained t i rest p point = true →
      harmless t i point = true :=
    fun i rest p point hregained => (Bool.and_eq_true_iff.mp hregained).1
  rw [boundariesAt?_eq_yielding hharmless hplain hchar horderly]
  exact yielding_of_possessive hchar.le_size horderly h

/-- The elements of `a*a?`. -/
def manyThenOptional : List (Atom × Quantifier) :=
  [(.byte 0x61 isPlain_a, .many), (.byte 0x61 isPlain_a, .optional)]

theorem boundariesAt?_manyThenOptional :
    EndsPlain false (partsOf manyThenOptional) ∧ Text.AtChar #[0x61, 0x61] 0 ∧
      orderly #[0x61, 0x61] (regained #[0x61, 0x61]) false (partsOf manyThenOptional) 0 = true ∧
      Possessive #[0x61, 0x61] manyThenOptional 0 2 ∧
      boundariesAt? (sourceOf (partsOf manyThenOptional)) #[0x61, 0x61] 0 = some [2] := by
  have hplain : EndsPlain false (partsOf manyThenOptional) := fun _ => by decide
  have hchar : Text.AtChar #[0x61, 0x61] 0 := ⟨by decide, fun c hc => by cases hc; rfl⟩
  have horderly : orderly #[0x61, 0x61] (regained #[0x61, 0x61]) false
    (partsOf manyThenOptional) 0 = true := rfl
  have hpossessive : Possessive #[0x61, 0x61] manyThenOptional 0 2 := by
    have hreading : possessive #[0x61, 0x61] false (partsOf manyThenOptional) 0 = some [2] := rfl
    obtain ⟨stop, hstop, hpossessive⟩ := (possessive_eq_some_iff (Nat.zero_le 2)).mp hreading
    cases hstop
    exact hpossessive
  exact ⟨hplain, hchar, horderly, hpossessive,
    boundariesAt?_of_possessive hplain hchar horderly hpossessive⟩

/-- The elements of `[ab]+b?`. -/
def setThenOptional : List (Atom × Quantifier) :=
  [(.set ⟨false, [.byte 0x61 isPlainMember_a, .byte 0x62 isPlainMember_b], by simp, by decide,
      by decide⟩, .several),
    (.byte 0x62 isPlain_b, .optional)]

/-- **`[ab]+b?` is not found in `ab`**, although the set takes both characters and the rest is
optional. The machine goes back to the second one, and reads the members of the set as elements, up
to a `]+` for which no character is left. -/
theorem not_found_setThenOptional :
    EndsPlain false (partsOf setThenOptional) ∧ Text.AtChar #[0x61, 0x62] 0 ∧
      Possessive #[0x61, 0x62] setThenOptional 0 2 ∧
      boundariesAt? (sourceOf (partsOf setThenOptional)) #[0x61, 0x62] 0 = none := by
  refine ⟨fun _ => by decide, ⟨by decide, fun c hc => by cases hc; rfl⟩, ?_, ?_⟩
  · have hreading : possessive #[0x61, 0x62] false (partsOf setThenOptional) 0 = some [2] := rfl
    obtain ⟨stop, hstop, hpossessive⟩ := (possessive_eq_some_iff (Nat.zero_le 2)).mp hreading
    cases hstop
    exact hpossessive
  · exact boundariesAt?_of_concludes rfl ⟨20, rfl, rfl⟩

end LuaPattern
end Linewise
