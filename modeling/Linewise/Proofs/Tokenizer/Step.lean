import Linewise.Tokenizer.Scan

/-!
# What one step of a scan can do

There are eight things that a step can do, and `Scan.Goes` lists them with everything that is known
where they happen:

* inside a nested grammar, the rule around it closes (`leave`);
* no rule enters, and a word or a byte is passed over (`skip`);
* a region is entered (`region`), a token is taken (`token`), or a nested grammar is opened
  (`descend`);
* inside a region, an escape takes the next byte along (`escape`), the region ends (`close`), or a
  byte stays in it (`stay`).

A carry that names a rule which the innermost grammar does not have never comes about in a scan, but
a step has an answer to it as well (`stray`).

`goes_step` says that these are all. A statement about every step is proved by going through them.

A step is the case of a more general one, in which matches can be found in another way. The
equations in front say of each part of it what it is with the matches of the patterns.
-/

namespace Linewise

/-! ## With the matches of the patterns -/

theorem consumed?_eq_filter (p : Pattern) (t : Text) (offset : Nat) :
    consumed? p t offset =
      (p.boundariesAt? t offset).filter fun bounds => offset < bounds.getLast?.getD 0 := rfl

theorem firstMatch?_nil (t : Text) (offset index : Nat) :
    firstMatch? t offset index [] = none := rfl

theorem firstMatch?_cons (t : Text) (offset index : Nat) (r : Rule Grammar)
    (rules : List (Rule Grammar)) :
    firstMatch? t offset index (r :: rules) =
      match consumed? r.enter t offset with
      | some bounds => some (index, r, bounds)
      | none => firstMatch? t offset (index + 1) rules := rfl

namespace Scan

theorem closeNested?_eq (pass : Pass) (s : Scan) :
    s.closeNested? pass =
      match s.stack.below with
      | [] => none
      | parent :: below =>
        match (Stack.mk parent below).openRule? s.carry with
        | none => none
        | some r =>
          if r.escape.any fun p => (p.boundariesAt? pass.text s.offset).isSome then none
          else
            match r.close.bind fun p => consumed? p pass.text s.offset with
            | none => none
            | some bounds => some
                ({ stack := ⟨parent, below⟩
                   carry := s.carry.truncate below.length
                   offset := (segments parent r pass.text 0 s.offset bounds).2
                   pending := (segments parent r pass.text 0 s.offset bounds).2 },
                  s.pendingPiece pass.text s.offset ::
                    (segments parent r pass.text 0 s.offset bounds).1) := rfl

theorem enterRule_eq (pass : Pass) (s : Scan) :
    s.enterRule pass =
      match firstMatch? pass.text s.offset 0 (s.tried pass) with
      | none => ({ s with offset := skip pass.text s.offset }, [])
      | some (index, r, bounds) => s.enter pass index r bounds := rfl

theorem insideRegion_eq (pass : Pass) (s : Scan) (r : Rule Grammar) :
    s.insideRegion pass r =
      match r.escape.bind fun p => p.boundariesAt? pass.text s.offset with
      | some bounds => ({ s with offset := min (matchEnd bounds s.offset + 1) pass.text.size }, [])
      | none =>
        match r.close.bind fun p => consumed? p pass.text s.offset with
        | none => ({ s with offset := s.offset + 1 }, [])
        | some bounds =>
          ({ s with
              carry := s.carry.truncate s.stack.depth
              offset := (segments s.stack.top r pass.text 0 s.pending bounds).2
              pending := (segments s.stack.top r pass.text 0 s.pending bounds).2 },
            (segments s.stack.top r pass.text 0 s.pending bounds).1) := rfl

theorem step_eq (pass : Pass) (s : Scan) :
    s.step pass =
      match s.closeNested? pass with
      | some result => result
      | none =>
        match s.carry.active? s.stack.depth with
        | none => s.enterRule pass
        | some index =>
          match s.stack.top.rules[index]? with
          | some r => s.insideRegion pass r
          | none => ({ s with offset := s.offset + 1 }, []) := rfl

end Scan

/-! ## Matches that count -/

/-- The rule that enters is found by a match that counts, at its own index. -/
theorem firstMatch?_eq_some {t : Text} {offset first index : Nat} {rules : List (Rule Grammar)}
    {r : Rule Grammar} {bounds : List Nat}
    (h : firstMatch? t offset first rules = some (index, r, bounds)) :
    consumed? r.enter t offset = some bounds ∧ first ≤ index ∧ rules[index - first]? = some r := by
  induction rules generalizing first with
  | nil => cases h
  | cons rule rules ih =>
    rw [firstMatch?_cons] at h
    split at h
    · next hmatch =>
      cases h
      refine ⟨hmatch, Nat.le_refl _, ?_⟩
      rw [Nat.sub_self]
      rfl
    · obtain ⟨hmatch, hle, hget⟩ := ih h
      refine ⟨hmatch, Nat.le_of_succ_le hle, ?_⟩
      rw [show index - first = (index - (first + 1)) + 1 by omega]
      exact hget

/-- If no rule enters, none has a match that counts. -/
theorem consumed?_of_firstMatch?_eq_none {t : Text} {offset first : Nat}
    {rules : List (Rule Grammar)} (h : firstMatch? t offset first rules = none) :
    ∀ r ∈ rules, consumed? r.enter t offset = none := by
  induction rules generalizing first with
  | nil => simp
  | cons rule rules ih =>
    rw [firstMatch?_cons] at h
    split at h
    · cases h
    · next hnone => exact List.forall_mem_cons.mpr ⟨hnone, ih h⟩

namespace Scan

/-- A quick pass tries some of the rules, under the indices that they have. -/
theorem getElem?_of_tried {pass : Pass} {s : Scan} {i : Nat} {r : Rule Grammar}
    (h : (s.tried pass)[i]? = some r) : s.stack.top.rules[i]? = some r := by
  unfold tried at h
  split at h
  · rw [List.getElem?_take] at h
    split at h
    · exact h
    · cases h
  · exact h

/-- What was pending before a rule enters, as a piece. -/
def piecesBefore (pass : Pass) (s : Scan) : Piece :=
  .under s.stack.top s.stack.top.defaultLabel pass.text s.pending s.offset

/-- One step goes from a scan to another one and cuts off pieces. -/
inductive Goes (pass : Pass) (s : Scan) : Scan → List Piece → Prop where
  /-- The rule around the innermost grammar closes. -/
  | leave {parent : Grammar} {below : List Grammar} {r : Rule Grammar} {p : Pattern}
      {bounds : List Nat} (hbelow : s.stack.below = parent :: below)
      (hr : (Stack.mk parent below).openRule? s.carry = some r)
      (hescape : (r.escape.any fun p => (p.boundariesAt? pass.text s.offset).isSome) = false)
      (hclose : r.close = some p) (hmatch : consumed? p pass.text s.offset = some bounds) :
      Goes pass s
        { stack := ⟨parent, below⟩
          carry := s.carry.truncate below.length
          offset := (segments parent r pass.text 0 s.offset bounds).2
          pending := (segments parent r pass.text 0 s.offset bounds).2 }
        (s.pendingPiece pass.text s.offset :: (segments parent r pass.text 0 s.offset bounds).1)
  /-- Nothing is open, and no rule enters. -/
  | skip (hnested : s.closeNested? pass = none) (hidle : s.carry.active? s.stack.depth = none)
      (hfirst : firstMatch? pass.text s.offset 0 (s.tried pass) = none) :
      Goes pass s { s with offset := Scan.skip pass.text s.offset } []
  /-- A region is entered. -/
  | region {index : Nat} {r : Rule Grammar} {bounds : List Nat}
      (hnested : s.closeNested? pass = none) (hidle : s.carry.active? s.stack.depth = none)
      (hfirst : firstMatch? pass.text s.offset 0 (s.tried pass) = some (index, r, bounds))
      (hplain : Grammar.nested? pass.table r = none) (hclose : r.close.isSome = true) :
      Goes pass s
        { s with
          carry := s.carry.mark s.stack.depth index
          offset := matchEnd bounds s.offset
          pending := s.offset }
        [s.piecesBefore pass]
  /-- A token is taken. A nested grammar that a carry cannot describe is not opened. -/
  | token {index : Nat} {r : Rule Grammar} {bounds : List Nat}
      (hnested : s.closeNested? pass = none) (hidle : s.carry.active? s.stack.depth = none)
      (hfirst : firstMatch? pass.text s.offset 0 (s.tried pass) = some (index, r, bounds))
      (hplain : Grammar.nested? pass.table r = none ∧ r.close.isSome = false ∨
        (Grammar.nested? pass.table r).isSome = true ∧ maxDepth ≤ s.stack.depth + 1) :
      Goes pass s
        { s with
          offset := (segments s.stack.top r pass.text 0 s.offset bounds).2
          pending := (segments s.stack.top r pass.text 0 s.offset bounds).2 }
        (s.piecesBefore pass :: (segments s.stack.top r pass.text 0 s.offset bounds).1)
  /-- A nested grammar is opened. -/
  | descend {index : Nat} {r : Rule Grammar} {bounds : List Nat} {g : Grammar}
      (hnested : s.closeNested? pass = none) (hidle : s.carry.active? s.stack.depth = none)
      (hfirst : firstMatch? pass.text s.offset 0 (s.tried pass) = some (index, r, bounds))
      (hg : Grammar.nested? pass.table r = some g) (hdepth : s.stack.depth + 1 < maxDepth) :
      Goes pass s
        { stack := s.stack.push g
          carry := s.carry.mark s.stack.depth index
          offset := (segments s.stack.top r pass.text 0 s.offset bounds).2
          pending := (segments s.stack.top r pass.text 0 s.offset bounds).2 }
        (s.piecesBefore pass :: (segments s.stack.top r pass.text 0 s.offset bounds).1)
  /-- Inside a region, an escape takes the next byte along. -/
  | escape {r : Rule Grammar} {p : Pattern} {bounds : List Nat}
      (hnested : s.closeNested? pass = none) (hr : s.stack.openRule? s.carry = some r)
      (hescape : r.escape = some p) (hmatch : p.boundariesAt? pass.text s.offset = some bounds) :
      Goes pass s
        { s with offset := min (matchEnd bounds s.offset + 1) pass.text.size } []
  /-- Inside a region, the region ends. -/
  | close {r : Rule Grammar} {p : Pattern} {bounds : List Nat}
      (hnested : s.closeNested? pass = none) (hr : s.stack.openRule? s.carry = some r)
      (hescape : r.escape.bind (fun p => p.boundariesAt? pass.text s.offset) = none)
      (hclose : r.close = some p) (hmatch : consumed? p pass.text s.offset = some bounds) :
      Goes pass s
        { s with
          carry := s.carry.truncate s.stack.depth
          offset := (segments s.stack.top r pass.text 0 s.pending bounds).2
          pending := (segments s.stack.top r pass.text 0 s.pending bounds).2 }
        (segments s.stack.top r pass.text 0 s.pending bounds).1
  /-- Inside a region, a byte stays in it. -/
  | stay {r : Rule Grammar} (hnested : s.closeNested? pass = none)
      (hr : s.stack.openRule? s.carry = some r)
      (hescape : r.escape.bind (fun p => p.boundariesAt? pass.text s.offset) = none)
      (hclose : r.close.bind (fun p => consumed? p pass.text s.offset) = none) :
      Goes pass s { s with offset := s.offset + 1 } []
  /-- The rule that is marked as open does not exist. -/
  | stray {index : Nat} (hnested : s.closeNested? pass = none)
      (hactive : s.carry.active? s.stack.depth = some index)
      (hr : s.stack.top.rules[index]? = none) :
      Goes pass s { s with offset := s.offset + 1 } []

variable {pass : Pass} {s s' : Scan} {pieces : List Piece}

/-- If the rule around the innermost grammar closes, it has a match that counts, and no escape. -/
theorem closeNested?_eq_some (h : s.closeNested? pass = some (s', pieces)) :
    ∃ parent below r p bounds, s.stack.below = parent :: below ∧
      (Stack.mk parent below).openRule? s.carry = some r ∧
      (r.escape.any fun p => (p.boundariesAt? pass.text s.offset).isSome) = false ∧
      r.close = some p ∧ consumed? p pass.text s.offset = some bounds ∧
      s' =
        { stack := ⟨parent, below⟩
          carry := s.carry.truncate below.length
          offset := (segments parent r pass.text 0 s.offset bounds).2
          pending := (segments parent r pass.text 0 s.offset bounds).2 } ∧
      pieces =
        s.pendingPiece pass.text s.offset ::
          (segments parent r pass.text 0 s.offset bounds).1 := by
  rw [closeNested?_eq] at h
  split at h
  · cases h
  · next parent below hbelow =>
    split at h
    · cases h
    · next r hr =>
      split at h
      · cases h
      · next hescape =>
        split at h
        · cases h
        · next bounds hmatch =>
          obtain ⟨p, hclose, hmatch⟩ := Option.bind_eq_some_iff.mp hmatch
          cases h
          exact ⟨parent, below, r, p, bounds, hbelow, hr, Bool.eq_false_iff.mpr hescape, hclose,
            hmatch, rfl, rfl⟩

theorem goes_closeNested? (h : s.closeNested? pass = some (s', pieces)) :
    Goes pass s s' pieces := by
  obtain ⟨parent, below, r, p, bounds, hbelow, hr, hescape, hclose, hmatch, rfl, rfl⟩ :=
    closeNested?_eq_some h
  exact .leave hbelow hr hescape hclose hmatch

/-- Where the rule around the innermost grammar can close, it does. -/
theorem isSome_closeNested? {parent : Grammar} {below : List Grammar} {r : Rule Grammar}
    {p : Pattern} {bounds : List Nat} (hbelow : s.stack.below = parent :: below)
    (hr : (Stack.mk parent below).openRule? s.carry = some r)
    (hescape : (r.escape.any fun p => (p.boundariesAt? pass.text s.offset).isSome) = false)
    (hclose : r.close = some p) (hmatch : consumed? p pass.text s.offset = some bounds) :
    (s.closeNested? pass).isSome = true := by
  rw [closeNested?_eq, hbelow]
  dsimp only
  rw [hr]
  dsimp only
  rw [hescape, hclose, Option.bind_some, hmatch]
  rfl

theorem goes_enterRule (hnested : s.closeNested? pass = none)
    (hidle : s.carry.active? s.stack.depth = none) :
    Goes pass s (s.enterRule pass).1 (s.enterRule pass).2 := by
  rw [enterRule_eq]
  split
  · next hfirst => exact .skip hnested hidle hfirst
  · next index r bounds hfirst =>
    rw [enter]
    dsimp only
    split
    · next hplain =>
      split
      · next hclose => exact .region hnested hidle hfirst hplain hclose
      · next hclose =>
        exact .token hnested hidle hfirst (Or.inl ⟨hplain, Bool.eq_false_iff.mpr hclose⟩)
    · next g hg =>
      split
      · next hdepth => exact .descend hnested hidle hfirst hg hdepth
      · next hdepth =>
        have hsome : (Grammar.nested? pass.table r).isSome = true := by rw [hg, Option.isSome_some]
        exact .token hnested hidle hfirst (Or.inr ⟨hsome, Nat.le_of_not_lt hdepth⟩)

theorem goes_insideRegion {r : Rule Grammar} (hnested : s.closeNested? pass = none)
    (hr : s.stack.openRule? s.carry = some r) :
    Goes pass s (s.insideRegion pass r).1 (s.insideRegion pass r).2 := by
  rw [insideRegion_eq]
  split
  · next bounds hmatch =>
    obtain ⟨p, hescape, hmatch⟩ := Option.bind_eq_some_iff.mp hmatch
    exact .escape hnested hr hescape hmatch
  · next hescape =>
    split
    · next hclose => exact .stay hnested hr hescape hclose
    · next bounds hmatch =>
      obtain ⟨p, hclose, hmatch⟩ := Option.bind_eq_some_iff.mp hmatch
      exact .close hnested hr hescape hclose hmatch

/-- **These are all the ways on.** -/
theorem goes_step (pass : Pass) (s : Scan) : Goes pass s (s.step pass).1 (s.step pass).2 := by
  rw [step_eq]
  split
  · next result hclose => exact goes_closeNested? hclose
  · next hnested =>
    split
    · next hidle => exact goes_enterRule hnested hidle
    · next index hactive =>
      split
      · next r hr =>
        refine goes_insideRegion hnested ?_
        rw [Stack.openRule?, hactive, Option.bind_some, hr]
      · next hr => exact .stray hnested hactive hr

/-! ## Where only the root is open -/

theorem closeNested?_of_root {g : Grammar} (hstack : s.stack = .root g) :
    s.closeNested? pass = none := by
  rw [closeNested?_eq, hstack]
  rfl

/-- A rule that is open decides the step. -/
theorem step_of_open {g : Grammar} {r : Rule Grammar} (hstack : s.stack = .root g)
    (hopen : s.stack.openRule? s.carry = some r) : s.step pass = s.insideRegion pass r := by
  obtain ⟨i, hactive, hi⟩ := Option.bind_eq_some_iff.mp hopen
  rw [step_eq, closeNested?_of_root hstack, hactive]
  dsimp only
  rw [hi]

/-- Otherwise, a rule may enter. -/
theorem step_of_idle {g : Grammar} (hstack : s.stack = .root g)
    (hidle : s.carry.active? s.stack.depth = none) : s.step pass = s.enterRule pass := by
  rw [step_eq, closeNested?_of_root hstack, hidle]

/-- Without a nested grammar, a rule that closes begins a region. -/
theorem enter_of_region {r : Rule Grammar} (hnested : Grammar.nested? pass.table r = none)
    (hclose : r.close.isSome = true) (index : Nat) (bounds : List Nat) :
    (s.enter pass index r bounds).1 =
      { s with
        carry := s.carry.mark s.stack.depth index
        offset := matchEnd bounds s.offset
        pending := s.offset } := by
  simp only [enter, hnested, hclose, if_true]

/-- One that does not close is a token. -/
theorem enter_of_token {r : Rule Grammar} (hnested : Grammar.nested? pass.table r = none)
    (hclose : r.close.isSome = false) (index : Nat) (bounds : List Nat) :
    (s.enter pass index r bounds).1 =
      { s with
        offset := (segments s.stack.top r pass.text 0 s.offset bounds).2
        pending := (segments s.stack.top r pass.text 0 s.offset bounds).2 } := by
  simp only [enter, hnested, hclose, if_false, Bool.false_eq_true]

end Scan
end Linewise
