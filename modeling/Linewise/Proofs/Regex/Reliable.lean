import Linewise.Regex.Search

/-!
# The search of the bundled engine

A thread only ever moves forward, by whole characters or by bytes that are there, and of its
captures it can set one at a time, to the place where it stands (`follows_move`). Whatever such
moves preserve holds of a match if it holds of the threads that the search begins with
(`invariant_search`).

So a match and each of its captures end between the offset and the end of the text
(`between_of_matchAt?`), and a thread has a place for each capture from the beginning to the end.
These are the two things that are asked of a matcher, and a program that is searched with is one
that can be relied on (`reliable_matcher`).
-/

namespace Linewise

namespace Text

theorem leadLength?_bounds {b : UInt8} {n : Nat} (h : leadLength? b = some n) :
    1 ≤ n ∧ n ≤ 4 := by
  unfold leadLength? at h
  split at h
  · cases h; decide
  · split at h
    · cases h
    · split at h
      · cases h; decide
      · split at h
        · cases h; decide
        · split at h
          · cases h; decide
          · cases h

/-- A character that is read up to a position ends at or before it. -/
theorem charWithin?_le {t : Text} {stop i c n : Nat} (h : t.charWithin? stop i = some (c, n)) :
    i + n ≤ stop := by
  unfold charWithin? at h
  split at h
  · cases h
  · next hlt =>
    dsimp only at h
    split at h
    · cases h
    · cases h
      exact Nat.lt_of_not_le hlt
    · next m hone hlead =>
      obtain ⟨hpos, hfour⟩ := leadLength?_bounds hlead
      split at h
      · cases h
      · next hfits =>
        split at h
        · cases h
        · split at h
          · cases h
            omega
          · next htwo =>
            split at h
            · cases h
            · split at h
              · cases h
                omega
              · next hthree =>
                split at h
                · cases h
                · cases h
                  have hne : m ≠ 1 := fun heq => hone heq
                  omega

end Text

namespace Regex

variable {t : Text} {offset : Nat}

/-! ## What a thread can become -/

/-- What one instruction can make of a thread that goes on. -/
structure Thread.Follows (t : Text) (thread next : Thread) : Prop where
  /-- It does not go back. -/
  position_le : thread.position ≤ next.position
  /-- It does not leave the text. -/
  le_size : thread.position ≤ t.size → next.position ≤ t.size
  /-- At most one of its captures is closed, here. -/
  closes : next.closes = thread.closes ∨
    ∃ index, next.closes = thread.closes.set index (some thread.position)

/-- The match of a thread that is complete. -/
def Thread.result (thread : Thread) : Found := ⟨thread.position, thread.closes⟩

/-- What one instruction can make of a thread: its match, or threads that go on. -/
def Move.Follows (t : Text) (thread : Thread) : Move → Prop
  | .found answer => answer = thread.result
  | .follow threads => ∀ next ∈ threads, thread.Follows t next

/-- A thread moves forward, what it takes is there, and it closes one capture at a time. -/
theorem follows_move (t : Text) (thread : Thread) (instr : Instr) :
    (thread.move t instr).Follows t thread := by
  have none : Move.Follows t thread (.follow []) := fun _ hmem => by cases hmem
  have single : ∀ {next : Thread}, thread.Follows t next →
      Move.Follows t thread (.follow [next]) := by
    intro next hnext other hother
    rw [List.mem_singleton.mp hother]
    exact hnext
  have stay : ∀ target, thread.Follows t { thread with instr := target } :=
    fun _ => ⟨Nat.le_refl _, id, Or.inl rfl⟩
  cases instr with
  | accept => exact rfl
  | char set next =>
    unfold Thread.move
    dsimp only
    split
    · exact none
    · next c length hchar =>
      split
      · exact single ⟨Nat.le_add_right _ _, fun _ => Text.charWithin?_le hchar, Or.inl rfl⟩
      · exact none
  | byte set next =>
    unfold Thread.move
    dsimp only
    split
    · exact none
    · next b hbyte =>
      obtain ⟨hlt, -⟩ := Array.getElem?_eq_some_iff.mp hbyte
      split
      · exact single ⟨Nat.le_succ _, fun _ => hlt, Or.inl rfl⟩
      · exact none
  | look look next =>
    unfold Thread.move
    dsimp only
    split
    · exact single (stay next)
    · exact none
  | close group next => exact single ⟨Nat.le_refl _, id, Or.inr ⟨group - 1, rfl⟩⟩
  | split targets =>
    intro other hother
    obtain ⟨target, -, rfl⟩ := List.mem_map.mp hother
    exact stay target

/-- **What every move preserves holds of the match that a search answers.** -/
theorem invariant_search {P : Thread → Prop}
    (hmove : ∀ thread next : Thread, thread.Follows t next → P thread → P next)
    {program : Program} (n : Nat) {tried : Tried} {threads : List Thread} {found : Found}
    (h : ∀ thread ∈ threads, P thread) (hfound : search program t n tried threads = some found) :
    ∃ thread, P thread ∧ found = thread.result := by
  induction n generalizing tried threads with
  | zero => cases hfound
  | succ n ih =>
    cases threads with
    | nil => cases hfound
    | cons thread rest =>
      have hrest : ∀ other ∈ rest, P other :=
        fun other hother => h other (List.mem_cons_of_mem _ hother)
      rw [search] at hfound
      split at hfound
      · exact ih hrest hfound
      · split at hfound
        · exact ih hrest hfound
        · next instr _ =>
          have hthread : P thread := h thread List.mem_cons_self
          have hfollows := follows_move t thread instr
          split at hfound
          · next hinstr =>
            rw [hinstr] at hfollows
            rw [← Option.some.inj hfound]
            exact ⟨thread, hthread, hfollows⟩
          · next hinstr =>
            rw [hinstr] at hfollows
            refine ih (fun other hother => ?_) hfound
            rcases List.mem_append.mp hother with hnew | hold
            · exact hmove thread other (hfollows other hnew) hthread
            · exact hrest other hold

/-- What every move preserves holds of a match if it holds at the start. -/
theorem invariant_matchAt? {P : Thread → Prop}
    (hmove : ∀ thread next : Thread, thread.Follows t next → P thread → P next)
    {program : Program} {found : Found}
    (hstart : P ⟨program.start, offset, List.replicate program.groups none⟩)
    (h : program.matchAt? t offset = some found) : ∃ thread, P thread ∧ found = thread.result := by
  refine invariant_search hmove _ (fun thread hthread => ?_) h
  rw [List.mem_singleton.mp hthread]
  exact hstart

/-! ## Between the offset and the end of the text -/

/-- A thread stays between the offset and the end of the text. -/
theorem between_of_follows {thread next : Thread} (hnext : thread.Follows t next)
    (h : thread.result.Between t offset) : next.result.Between t offset := by
  refine ⟨Nat.le_trans h.offset_le hnext.position_le, hnext.le_size h.le_size, fun stop hstop => ?_⟩
  rcases hnext.closes with hsame | ⟨index, hset⟩
  · have hmem : some stop ∈ thread.closes := hsame ▸ (hstop : some stop ∈ next.closes)
    exact h.closes stop hmem
  · have hmem : some stop ∈ thread.closes.set index (some thread.position) :=
      hset ▸ (hstop : some stop ∈ next.closes)
    rcases List.mem_or_eq_of_mem_set hmem with hold | hnew
    · exact h.closes stop hold
    · rw [Option.some.inj hnew]
      exact ⟨h.offset_le, h.le_size⟩

/-- **A match and its captures end between the offset and the end of the text.** -/
theorem between_of_matchAt? {program : Program} {found : Found} (hle : offset ≤ t.size)
    (h : program.matchAt? t offset = some found) : found.Between t offset := by
  have hstart : (Thread.result ⟨program.start, offset,
      List.replicate program.groups none⟩).Between t offset := by
    refine ⟨Nat.le_refl _, hle, fun stop hstop => ?_⟩
    exact absurd (List.eq_of_mem_replicate hstop) (Option.some_ne_none stop)
  obtain ⟨thread, hthread, rfl⟩ :=
    invariant_matchAt? (fun _ _ hnext hbetween => between_of_follows hnext hbetween) hstart h
  exact hthread

/-! ## Reliability -/

/-- A thread keeps as many places for captures as it has. -/
theorem length_closes_of_follows {thread next : Thread} (h : thread.Follows t next) :
    next.closes.length = thread.closes.length := by
  rcases h.closes with hsame | ⟨index, hset⟩
  · rw [hsame]
  · rw [hset, List.length_set]

/-- **A program is a reliable matcher.** -/
theorem reliable_matcher (program : Program) : program.matcher.Reliable where
  length_closes {t offset found} _ h := by
    obtain ⟨thread, hthread, rfl⟩ :=
      invariant_matchAt? (P := fun thread => thread.closes.length = program.groups)
        (fun _ _ hnext hlength => (length_closes_of_follows hnext).trans hlength)
        List.length_replicate h
    exact hthread
  between hle h := between_of_matchAt? hle h

/-- A program as an automaton. -/
def Program.automaton (program : Program) : Automaton := ⟨program.matcher, reliable_matcher program⟩

end Regex
end Linewise
