import Linewise.Proofs.LuaPattern.Circling
import Linewise.Proofs.LuaPattern.Course

/-!
# Where a match is exact

The course of a match says what the machine answers from state to state. Here it is said of the
whole match: an orderly one answers with the yielding reading
(`Template.boundariesAt?_eq_yielded?`).

If the machine never returns to a remembered point, then nothing is given back, and the yielding
reading is the possessive one. That is a matter of the text. There are templates, though, in which
no text makes the machine remember a point at all: those in which no element that repeats shares a
character with the part behind it (`Deterministic`). For them a match is exactly the possessive
reading, on every text and at every character.
-/

namespace Linewise
namespace LuaPattern

variable {cfg : Setting} {s : State} {items rest : List Item} {t : Text} {offset p : Nat}

/-! ## 1.  From the course of a match to its answer -/

/-- A match that comes to an end answers with its verdict. -/
theorem boundariesAt?_of_concludes {pattern : Source} {reading : Option (List Nat)}
    (h : start pattern t offset = .ready cfg s) (hend : Concludes cfg s (verdictOn [] reading)) :
    boundariesAt? pattern t offset = reading := by
  obtain ⟨n, hends, hrun⟩ := hend
  have hle : ¬t.size < offset := Nat.not_lt_of_le (start_eq_ready h).1
  have hverdict : verdictAt pattern t offset = verdictOn [] reading := by
    rw [verdictAt, if_neg hle, h, ← hrun, ← run_turnLimit h hends]
  rw [boundariesAt?, hverdict]
  cases reading <;> rfl

/-- Behind the start of the text, an anchored template does not match. -/
theorem Template.boundariesAt?_of_anchored (w : Template)
    (hanchor : (w.anchored && offset != 0) = true) : boundariesAt? w.source t offset = none := by
  have hcaret : (w.source.byteAt 0 == caret) = w.anchored := by
    rw [Bool.eq_iff_iff, beq_iff_eq]
    exact w.byteAt_zero_eq_caret_iff
  rw [boundariesAt?, verdictAt]
  by_cases hle : t.size < offset
  · rw [if_pos hle]
  · rw [if_neg hle, start, if_neg hle]
    dsimp only
    rw [hcaret, if_pos hanchor]

/-- At the start of a match the machine rests in front of all parts. -/
theorem Template.rests_atStart (w : Template) (hchar : t.AtChar offset) :
    Rests (w.setting t offset) w.items (atStart w.lead offset) where
  facing :=
    { stop_le := w.stop_setting_le t offset
      length_lt := Nat.le_mul_of_pos_right _ (Nat.succ_pos _)
      source := w.drop_lead
      stop_eq := rfl
      endsPlain := w.endsPlain
      atChar := hchar
      returns_le := Nat.zero_le _ }
  fresh := ⟨⟨rfl, rfl, rfl, rfl⟩, rfl, rfl, rfl, rfl, rfl⟩
  finished := fun hend => absurd hend Bool.false_ne_true

/-- The boundaries of the yielding reading of a template at `offset`. -/
def Template.yielded? (w : Template) (t : Text) (offset : Nat) : Option (List Nat) :=
  if w.anchored && offset != 0 then none else yielding t w.toEnd w.items offset

/-- **An orderly match of a template answers with the yielding reading.** -/
theorem Template.boundariesAt?_eq_yielded? (w : Template)
    {may : Item → List Item → Nat → Nat → Bool}
    (hmay : ∀ i rest p point, may i rest p point = true → harmless t i point = true)
    (hchar : t.AtChar offset) (horderly : orderly t may false w.items offset = true) :
    boundariesAt? w.source t offset = w.yielded? t offset := by
  rw [Template.yielded?]
  cases hanchor : w.anchored && offset != 0 with
  | true => exact w.boundariesAt?_of_anchored hanchor
  | false =>
    exact boundariesAt?_of_concludes (w.start_eq hchar.le_size hanchor)
      (answers_of_harmless hmay w.items _ (w.rests_atStart hchar) horderly)

/-! ## 2.  Nothing is given back -/

/-- At the end of the text nothing can be shared any more. -/
theorem orderly_of_size (t : Text) (may : Item → List Item → Nat → Nat → Bool)
    (items : List Item) : orderly t may false items t.size = true := by
  cases items with
  | nil => rfl
  | cons i rest => simp [orderly]

/-- At the end of the text a part stops where it is, or does not stop at all. -/
theorem Item.eq_size_of_stop? {i : Item} {stop : Nat} (h : i.stop? t t.size = some stop) :
    stop = t.size := by
  rw [Item.stop?_of_size] at h
  cases i with
  | openGroup => exact (Option.some.inj h).symm
  | closeGroup => exact (Option.some.inj h).symm
  | frontier b => cases h
  | element a q =>
    dsimp only at h
    split at h
    · exact (Option.some.inj h).symm
    · cases h

/-- Where a part leaves the text in an orderly reading: where it stops, or, at the end of the text,
where it is allowed to give back. -/
inductive Leaves (t : Text) (may : Item → List Item → Nat → Nat → Bool) (i : Item)
    (rest : List Item) (p : Nat) : Nat → Prop where
  /-- It gives nothing back. -/
  | stop {stop : Nat} {remembered : Bool} (hstop : i.stop? t p = some stop)
      (h : orderly t may remembered rest stop = true) : Leaves t may i rest p stop
  /-- It gives back what it took from the point on. -/
  | back {point : Nat} (hstop : i.stop? t p = some t.size)
      (hshared : i.lastShared? t rest p = some point) (hmay : may i rest p point = true)
      (h : orderly t may false rest point = true) : Leaves t may i rest p point

theorem exists_leaves_of_orderly {may : Item → List Item → Nat → Nat → Bool} {i : Item}
    {remembered : Bool} {stop : Nat} (h : orderly t may remembered (i :: rest) p = true)
    (hstop : i.stop? t p = some stop) :
    ∃ next, i.leave? t rest p = some next ∧ Leaves t may i rest p next := by
  rw [Item.leave?, hstop, Option.map_some]
  by_cases hp : p = t.size
  · subst hp
    rw [Item.lastShared?_of_size, Option.getD_none, ite_self]
    cases Item.eq_size_of_stop? hstop
    exact ⟨_, rfl, .stop hstop (orderly_of_size t may rest)⟩
  rw [orderly, if_neg hp, hstop] at h
  cases hshared : i.lastShared? t rest p with
  | none =>
    rw [hshared] at h
    rw [Option.getD_none, ite_self]
    exact ⟨_, rfl, .stop hstop h⟩
  | some point =>
    rw [hshared] at h
    dsimp only at h
    by_cases hend : stop = t.size
    · subst hend
      rw [if_pos rfl, Bool.and_eq_true] at h
      rw [if_pos rfl]
      exact ⟨_, rfl, .back hstop hshared h.1 h.2⟩
    · rw [if_neg hend] at h
      rw [if_neg hend]
      exact ⟨_, rfl, .stop hstop h⟩

theorem leave?_of_stop?_eq_none {i : Item} (h : i.stop? t p = none) : i.leave? t rest p = none := by
  rw [Item.leave?, h, Option.map_none]

/-- Where the machine never returns, the yielding reading is the possessive one. -/
theorem yielding_eq_possessive {toEnd remembered : Bool}
    (h : orderly t never remembered items p = true) :
    yielding t toEnd items p = possessive t toEnd items p := by
  induction items generalizing remembered p with
  | nil => rfl
  | cons i rest ih =>
    rw [yielding_cons, possessive_cons]
    cases hstop : i.stop? t p with
    | none => rw [leave?_of_stop?_eq_none hstop]
    | some stop =>
      obtain ⟨next, hleave, hleaves⟩ := exists_leaves_of_orderly h hstop
      rw [hleave]
      cases hleaves with
      | stop hstop' hrest =>
        cases hstop.symm.trans hstop'
        dsimp only
        rw [ih hrest]
      | back hstop' hshared hmay hrest => cases hmay

/-- **A match that never returns answers with the possessive reading.** -/
theorem Template.boundariesAt?_of_never (w : Template) (hchar : t.AtChar offset)
    (h : orderly t never false w.items offset = true) :
    boundariesAt? w.source t offset = w.boundaries? t offset := by
  have hharmless : ∀ i rest p point, never i rest p point = true → harmless t i point = true :=
    fun _ _ _ _ hnever => absurd hnever Bool.false_ne_true
  rw [w.boundariesAt?_eq_yielded? hharmless hchar h, Template.yielded?, Template.boundaries?,
    yielding_eq_possessive h]

/-! ## 3.  Nothing is shared -/

/-- No character is accepted both by an element that repeats and by the part behind it. -/
def Deterministic : List Item → Prop
  | [] => True
  | .element a q :: rest =>
    (q.most = none → ∀ c, a.accepts c = true → nextAccepts rest c = false) ∧ Deterministic rest
  | _ :: rest => Deterministic rest

theorem Deterministic.tail {i : Item} (h : Deterministic (i :: rest)) : Deterministic rest := by
  cases i with
  | element a q => exact h.2
  | _ => exact h

/-- In a deterministic template no character is shared. -/
theorem Deterministic.lastShared?_eq_none {i : Item} (h : Deterministic (i :: rest)) (t : Text)
    (p : Nat) : i.lastShared? t rest p = none := by
  cases hshared : i.lastShared? t rest p with
  | none => rfl
  | some point =>
    cases i with
    | element a q =>
      rw [Item.lastShared?] at hshared
      split at hshared
      · next hq =>
        obtain ⟨n, c, -, -, hacc, hnext⟩ := Atom.exists_takes_of_lastShared? hshared
        exact absurd hnext (by simp [h.1 hq c hacc])
      · cases hshared
    | _ => cases hshared

/-- The reading of a deterministic template never returns. -/
theorem Deterministic.orderly (h : Deterministic items) (t : Text) (p : Nat) :
    orderly t never false items p = true := by
  induction items generalizing p with
  | nil => rfl
  | cons i rest ih =>
    rw [LuaPattern.orderly, h.lastShared?_eq_none]
    by_cases hp : p = t.size
    · rw [if_pos hp]
      rfl
    · rw [if_neg hp]
      cases i.stop? t p with
      | none => rfl
      | some stop => exact ih h.tail stop

/-- **A match of a deterministic template is its possessive reading**, on every text and at every
character. -/
theorem Template.boundariesAt?_of_deterministic (w : Template) (h : Deterministic w.items)
    (hchar : t.AtChar offset) : boundariesAt? w.source t offset = w.boundaries? t offset :=
  w.boundariesAt?_of_never hchar (h.orderly t offset)

/-- The template `^%f[a](a+)b?$`. -/
def leadingLetters : Template where
  anchored := true
  items :=
    [.frontier ⟨false, [.byte 0x61 rfl], by simp, by decide, by decide⟩, .openGroup,
      .element (.byte 0x61 rfl) .several, .closeGroup, .element (.byte 0x62 rfl) .optional]
  toEnd := true
  endsPlain := fun hend => absurd hend (by decide)

theorem boundariesAt?_leadingLetters :
    Deterministic leadingLetters.items ∧ Text.AtChar #[0x61, 0x61, 0x62] 0 ∧
      boundariesAt? leadingLetters.source #[0x61, 0x61, 0x62] 0 = some [2, 3] := by
  have hdeterministic : Deterministic leadingLetters.items := by
    refine ⟨fun _ c hc => ?_, fun hmost => absurd hmost (by decide), trivial⟩
    have ha : 0x61 = c := beq_iff_eq.mp hc
    rw [← ha]
    rfl
  have hchar : Text.AtChar #[0x61, 0x61, 0x62] 0 := by
    refine ⟨by decide, fun c hc => ?_⟩
    cases hc
    rfl
  refine ⟨hdeterministic, hchar, ?_⟩
  rw [leadingLetters.boundariesAt?_of_deterministic hdeterministic hchar]
  rfl

end LuaPattern
end Linewise
