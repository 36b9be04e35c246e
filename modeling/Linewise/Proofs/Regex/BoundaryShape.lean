import Linewise.Proofs.Regex.Bounds
import Linewise.Regex.Bundled

/-!
# The shape of the boundaries of a regular expression

Captures are reported in the order of their numbers, and that need not be the order in which they
end: a capture inside another has the greater number and ends first, a repeated one keeps the end of
an earlier round, and one that took no part has no end. The boundaries are the running maximum of
the ends, begun with the offset, and with the end of the match as the last of the ends
(`getElem?_boundariesAfter`). So none is in front of the one before it
(`pairwise_boundariesAfter`), and there is one for each capture and one more
(`length_boundariesAfter`).

That is all about the list. What else has to be known is up to whoever answers: a match has a place
for each capture, and lies between the offset and the end of the text. Whichever matcher keeps to
this, the list that is filled has the announced shape (`matchInto_shaped`). What it is filled with
are the boundaries that are answered (`matchInto_eq`), and a compiled expression keeps to it, so the
boundaries of every compiled expression have the shape (`boundariesAt?_shaped`).
-/

namespace Linewise
namespace Regex

variable {t : Text} {offset : Nat}

/-! ## The running maximum -/

/-- There is a boundary for each capture, and one for the end of the match. -/
theorem length_boundariesAfter (stop last : Nat) (closes : List (Option Nat)) :
    (boundariesAfter stop last closes).length = closes.length + 1 := by
  induction closes generalizing last with
  | nil => rfl
  | cons close closes ih => rw [boundariesAfter, List.length_cons, List.length_cons, ih]

/-- No boundary is in front of the place the boundaries began with. -/
theorem le_of_mem_boundariesAfter {stop last b : Nat} {closes : List (Option Nat)}
    (h : b ∈ boundariesAfter stop last closes) : last ≤ b := by
  induction closes generalizing last with
  | nil =>
    rw [boundariesAfter, List.mem_singleton] at h
    exact h ▸ Nat.le_max_right stop last
  | cons close closes ih =>
    rw [boundariesAfter, List.mem_cons] at h
    have hlast : last ≤ max (close.getD last) last := Nat.le_max_right _ last
    rcases h with rfl | h
    · exact hlast
    · exact Nat.le_trans hlast (ih h)

/-- The boundaries never go back. -/
theorem pairwise_boundariesAfter (stop last : Nat) (closes : List (Option Nat)) :
    (boundariesAfter stop last closes).Pairwise (· ≤ ·) := by
  induction closes generalizing last with
  | nil => exact List.pairwise_singleton _ _
  | cons close closes ih =>
    exact List.pairwise_cons.mpr ⟨fun b hb => le_of_mem_boundariesAfter hb, ih _⟩

/-- The boundary of a capture is the greater of its end and of the place before it. -/
theorem getElem?_boundariesAfter {stop last i : Nat} {closes : List (Option Nat)}
    {close : Option Nat} (h : closes[i]? = some close) :
    ∃ before, (last :: boundariesAfter stop last closes)[i]? = some before ∧
      (boundariesAfter stop last closes)[i]? = some (max (close.getD before) before) := by
  induction closes generalizing last i with
  | nil => cases h
  | cons first closes ih =>
    cases i with
    | zero =>
      cases h
      exact ⟨last, rfl, rfl⟩
    | succ i => exact ih h

/-! ## Running the bundled search

A hash set cannot be evaluated in a proof, where the hash of a pair has no value. But the search
only asks what the set contains, and a list of the tried pairs answers the same.
-/

/-- The search, with the pairs that were tried in a list. -/
def explore (program : Program) (t : Text) : Nat → List (Nat × Nat) → List Thread → Option Found
  | 0, _, _ => none
  | _, _, [] => none
  | n + 1, seen, thread :: rest =>
    let place := (thread.instr, thread.position)
    if seen.contains place then explore program t n seen rest
    else
      match program.code[thread.instr]? with
      | none => explore program t n (place :: seen) rest
      | some instr =>
        match thread.move t instr with
        | .found found => some found
        | .follow threads => explore program t n (place :: seen) (threads ++ rest)

theorem search_eq_explore {program : Program} (n : Nat) {tried : Tried} {seen : List (Nat × Nat)}
    {threads : List Thread} (h : ∀ place, tried.contains place = seen.contains place) :
    search program t n tried threads = explore program t n seen threads := by
  induction n generalizing tried seen threads with
  | zero => rfl
  | succ n ih =>
    cases threads with
    | nil => rfl
    | cons thread rest =>
      have hinsert : ∀ place, (tried.insert (thread.instr, thread.position)).contains place =
          ((thread.instr, thread.position) :: seen).contains place := by
        intro place
        rw [Std.HashSet.contains_insert, List.contains_cons, h place, Bool.beq_comm]
      rw [search, explore, h]
      split
      · exact ih h
      · cases program.code[thread.instr]? with
        | none => exact ih hinsert
        | some instr =>
          dsimp only
          cases thread.move t instr with
          | found answer => rfl
          | follow threads => exact ih hinsert

/-- A program as a matcher that searches with a list of the tried pairs. -/
def Program.explorer (program : Program) : Matcher where
  groups := program.groups
  matchAt? t offset :=
    explore program t (turnBound program t offset) []
      [⟨program.start, offset, List.replicate program.groups none⟩]

theorem matcher_eq_explorer (program : Program) : program.matcher = program.explorer := by
  refine congrArg (Matcher.mk program.groups) ?_
  funext t offset
  exact search_eq_explore _ fun _ => Std.HashSet.contains_empty

/-! ## The list that is filled -/

variable {m : Matcher}

/-- Asks `m` for the match in `t` at `offset`, with a list to be filled, which is cleared first:
whether there is a match, and what the list holds in the end. -/
def matchInto (m : Matcher) (t : Text) (offset : Nat) : Bool × List Nat :=
  if t.size < offset then (false, [])
  else
    match m.matchAt? t offset with
    | some found => (true, boundariesAfter found.stop offset found.closes)
    | none => (false, [])

/-- The list is filled with the boundaries of the match. -/
theorem matchInto_eq (m : Matcher) (t : Text) (offset : Nat) :
    matchInto m t offset =
      match m.boundariesAt? t offset with
      | some bounds => (true, bounds)
      | none => (false, []) := by
  unfold matchInto Matcher.boundariesAt?
  split
  · rfl
  · cases m.matchAt? t offset <;> rfl

/-- The boundaries `bounds` of the match `found` in `t` at `offset` have the announced shape. -/
structure Shaped (m : Matcher) (t : Text) (offset : Nat) (found : Found) (bounds : List Nat) :
    Prop where
  /-- There are as many as announced. -/
  length_eq : bounds.length = m.boundaryCount
  /-- They never go back. -/
  sorted : bounds.Pairwise (· ≤ ·)
  /-- They lie between the offset and the end of the text. -/
  between : ∀ b ∈ bounds, offset ≤ b ∧ b ≤ t.size
  /-- The boundary of a capture that took part is not in front of the end of the capture. -/
  le_of_close : ∀ i stop : Nat, found.closes[i]? = some (some stop) →
    ∃ b, bounds[i]? = some b ∧ stop ≤ b
  /-- A capture that took no part repeats the boundary before it, and the first one the offset. -/
  repeats : ∀ i : Nat, found.closes[i]? = some none → bounds[i]? = (offset :: bounds)[i]?

/-- The boundaries made from the answer of a reliable matcher have the announced shape. -/
theorem Matcher.Reliable.shaped (h : m.Reliable) {found : Found} (hle : offset ≤ t.size)
    (hfound : m.matchAt? t offset = some found) :
    Shaped m t offset found (boundariesAfter found.stop offset found.closes) where
  length_eq := by rw [length_boundariesAfter, h.length_closes hle hfound, Matcher.boundaryCount]
  sorted := pairwise_boundariesAfter found.stop offset found.closes
  between _ hb := (h.between hle hfound).mem_boundaries hle hb
  le_of_close i stop hclose := by
    obtain ⟨before, -, hb⟩ := getElem?_boundariesAfter hclose
    exact ⟨_, hb, Nat.le_max_left stop before⟩
  repeats i hclose := by
    obtain ⟨before, hbefore, hb⟩ := getElem?_boundariesAfter hclose
    rw [hbefore, hb, Option.getD_none, Nat.max_self]

/-- **The list that is filled has the announced shape**, whichever reliable matcher is asked: with a
match, as many boundaries as announced, that never go back, between the offset and the end of the
text, each at or behind the end of its capture, or a repetition if the capture took no part; and
without a match, none. -/
theorem matchInto_shaped (h : m.Reliable) (t : Text) (offset : Nat) :
    match matchInto m t offset with
    | (true, bounds) =>
      ∃ found, m.matchAt? t offset = some found ∧ Shaped m t offset found bounds
    | (false, bounds) => bounds = [] ∧ (t.size < offset ∨ m.matchAt? t offset = none) := by
  unfold matchInto
  by_cases hlt : t.size < offset
  · rw [if_pos hlt]
    exact ⟨rfl, Or.inl hlt⟩
  · rw [if_neg hlt]
    have hle : offset ≤ t.size := Nat.le_of_not_lt hlt
    cases hfound : m.matchAt? t offset with
    | none => exact ⟨rfl, Or.inr rfl⟩
    | some found => exact ⟨found, rfl, h.shaped hle hfound⟩

/-- The first capture takes no part and repeats the offset. The second one is repeated, and the
third one, inside of it, ended in an earlier round: its boundary stays behind its end. -/
theorem matchInto_shaped_rounds :
    ∃ r, compile "(c)?((a)|b)*" = .ok r ∧ r.automaton.Reliable ∧
      matchInto r.automaton.toMatcher (Text.ofString "xabd") 1 = (true, [1, 3, 3, 3]) ∧
      ∃ found, r.automaton.matchAt? (Text.ofString "xabd") 1 = some found ∧
        found.closes = [none, some 3, some 2] ∧
        Shaped r.automaton.toMatcher (Text.ofString "xabd") 1 found [1, 3, 3, 3] := by
  have hrun : (Program.ofSource "(c)?((a)|b)*").toOption.map (fun program =>
      (matchInto program.explorer (Text.ofString "xabd") 1,
        (program.explorer.matchAt? (Text.ofString "xabd") 1).map Found.closes)) =
      some ((true, [1, 3, 3, 3]), some [none, some 3, some 2]) := by decide +kernel
  cases hprogram : Program.ofSource "(c)?((a)|b)*" with
  | error message =>
    rw [hprogram] at hrun
    cases hrun
  | ok program =>
    rw [hprogram] at hrun
    obtain ⟨hinto, hcloses⟩ := Prod.mk.inj (Option.some.inj hrun)
    rw [← matcher_eq_explorer] at hinto hcloses
    have hshaped := matchInto_shaped (reliable_matcher program) (Text.ofString "xabd") 1
    rw [hinto] at hshaped
    obtain ⟨found, hfound, hshape⟩ := hshaped
    rw [hfound] at hcloses
    exact ⟨_, compile_of_ofSource hprogram, reliable_matcher program, hinto, found, hfound,
      Option.some.inj hcloses, hshape⟩

/-- **The boundaries of a compiled expression have the announced shape.** -/
theorem boundariesAt?_shaped {r : Regex} {bounds : List Nat}
    (h : r.boundariesAt? t offset = some bounds) :
    ∃ found, r.automaton.matchAt? t offset = some found ∧
      Shaped r.automaton.toMatcher t offset found bounds := by
  obtain ⟨hle, found, hfound, rfl⟩ := exists_of_boundariesAt? h
  exact ⟨found, hfound, r.automaton.reliable.shaped hle hfound⟩

end Regex
end Linewise
