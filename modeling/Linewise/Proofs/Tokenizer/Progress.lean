import Linewise.Proofs.LuaPattern.Bounds
import Linewise.Proofs.Regex.Bounds
import Linewise.Proofs.Tokenizer.RunLength
import Linewise.Proofs.Tokenizer.Step

/-!
# A scan moves forward

Each step of a scan moves at least one byte forward, stays in the line, and cuts off pieces that
tile what is no longer pending. `Scan.Advances` says so of one step, and `Scan.advances_step` proves
it for every grammar, every table and every carry, whatever the patterns match. It follows that as
many steps as the line has bytes reach its end (`Scan.covers_steps`).

What a pattern contributes is little: its boundaries lie in the line, and a match that counts has
one behind the offset. Boundaries need not be in order, and those of a region may lie before the
region's start; cutting a match into segments takes the running maximum of them.
-/

namespace Linewise

/-! ## Matches -/

/-- **The boundaries of a match lie in the text.** -/
theorem Pattern.le_size_of_boundariesAt? {p : Pattern} {t : Text} {offset : Nat}
    {bounds : List Nat} (h : p.boundariesAt? t offset = some bounds) :
    ∀ b ∈ bounds, b ≤ t.size := by
  cases p with
  | lua source => exact LuaPattern.le_size_of_boundariesAt? h
  | regex r => exact Regex.le_size_of_boundariesAt? h

theorem consumed?_eq_some {p : Pattern} {t : Text} {offset : Nat} {bounds : List Nat}
    (h : consumed? p t offset = some bounds) :
    p.boundariesAt? t offset = some bounds ∧ ∃ b, bounds.getLast? = some b ∧ offset < b := by
  obtain ⟨hmatch, hlt⟩ := Option.filter_eq_some_iff.mp h
  refine ⟨hmatch, ?_⟩
  cases hlast : bounds.getLast? with
  | none =>
    rw [hlast] at hlt
    exact absurd hlt (by simp)
  | some b =>
    rw [hlast] at hlt
    exact ⟨b, rfl, of_decide_eq_true hlt⟩

/-- A match that counts has a boundary behind the offset, and none behind the end of the text. -/
theorem bounds_of_consumed? {p : Pattern} {t : Text} {offset : Nat} {bounds : List Nat}
    (h : consumed? p t offset = some bounds) :
    (∀ b ∈ bounds, b ≤ t.size) ∧ ∃ b ∈ bounds, offset < b := by
  obtain ⟨hmatch, b, hlast, hlt⟩ := consumed?_eq_some h
  exact ⟨Pattern.le_size_of_boundariesAt? hmatch, b, List.mem_of_getLast? hlast, hlt⟩

theorem matchEnd_le {t : Text} {bounds : List Nat} {offset : Nat} (hle : offset ≤ t.size)
    (h : ∀ b ∈ bounds, b ≤ t.size) : matchEnd bounds offset ≤ t.size := by
  rw [matchEnd]
  refine Nat.max_le.mpr ⟨?_, hle⟩
  cases hlast : bounds.getLast? with
  | none => exact hle
  | some b => exact h b (List.mem_of_getLast? hlast)

theorem lt_matchEnd_of_consumed? {p : Pattern} {t : Text} {offset : Nat} {bounds : List Nat}
    (h : consumed? p t offset = some bounds) : offset < matchEnd bounds offset := by
  obtain ⟨-, b, hlast, hlt⟩ := consumed?_eq_some h
  rw [matchEnd, hlast]
  exact Nat.lt_of_lt_of_le hlt (Nat.le_max_left _ _)

/-- The segments of a match tile what lies between its start and its greatest boundary. -/
theorem tile_segments {g : Grammar} {r : Rule Grammar} {t : Text} {bounds : List Nat}
    (index last : Nat) (hlast : last ≤ t.size) (hbounds : ∀ b ∈ bounds, b ≤ t.size) :
    Piece.Tile last (segments g r t index last bounds).2 (segments g r t index last bounds).1 ∧
      (segments g r t index last bounds).2 ≤ t.size ∧
      ∀ b ∈ bounds, b ≤ (segments g r t index last bounds).2 := by
  induction bounds generalizing index last with
  | nil => exact ⟨rfl, hlast, by simp⟩
  | cons bound bounds ih =>
    have hstop : max bound last ≤ t.size :=
      Nat.max_le.mpr ⟨hbounds bound List.mem_cons_self, hlast⟩
    obtain ⟨htile, hle, hmax⟩ :=
      ih (index + 1) (max bound last) hstop fun b hb => hbounds b (List.mem_cons_of_mem _ hb)
    refine ⟨⟨rfl, Nat.le_max_right _ _, htile⟩, hle, fun b hb => ?_⟩
    rcases List.mem_cons.mp hb with rfl | hrest
    · exact Nat.le_trans (Nat.le_max_left _ _) htile.le
    · exact hmax b hrest

namespace Scan

/-! ## One step -/

/-- A scan has gone on, and the pieces tile what it has cut off. -/
structure Advances (t : Text) (s s' : Scan) (pieces : List Piece) : Prop where
  /-- It has moved. -/
  offset_lt : s.offset < s'.offset
  /-- It has not left the line. -/
  offset_le : s'.offset ≤ t.size
  /-- What it has cut off lies behind it. -/
  pending_le : s'.pending ≤ s'.offset
  /-- The pieces cover what was cut off. -/
  tile : Piece.Tile s.pending s'.pending pieces

variable {pass : Pass} {s s' : Scan} {pieces : List Piece}

theorem lt_skip (t : Text) (offset : Nat) : offset < skip t offset := by
  rw [skip]
  omega

theorem skip_le {t : Text} {offset : Nat} (hlt : offset < t.size) : skip t offset ≤ t.size := by
  have hle := t.countWhile_le Ascii.isAlnum (t.size - offset) offset
  rw [skip]
  omega

/-- A match that counts is cut off from `last` on: the segments tile what lies behind, and end
behind the offset. -/
theorem segments_of_consumed? {p : Pattern} {g : Grammar} {r : Rule Grammar} {t : Text}
    {offset last : Nat} {bounds : List Nat} (hmatch : consumed? p t offset = some bounds)
    (hlast : last ≤ t.size) :
    Piece.Tile last (segments g r t 0 last bounds).2 (segments g r t 0 last bounds).1 ∧
      offset < (segments g r t 0 last bounds).2 ∧ (segments g r t 0 last bounds).2 ≤ t.size := by
  obtain ⟨hbounds, b, hb, hoffset⟩ := bounds_of_consumed? hmatch
  obtain ⟨htile, hle, hmax⟩ := tile_segments (g := g) (r := r) 0 last hlast hbounds
  exact ⟨htile, Nat.lt_of_lt_of_le hoffset (hmax b hb), hle⟩

/-- **Every way on moves forward.** -/
theorem advances_of_goes (hpending : s.pending ≤ s.offset) (hlt : s.offset < pass.text.size)
    (h : Goes pass s s' pieces) : Advances pass.text s s' pieces := by
  have hsize : s.offset ≤ pass.text.size := Nat.le_of_lt hlt
  cases h with
  | leave _ _ _ _ hmatch =>
    obtain ⟨htile, hstop, hle⟩ := segments_of_consumed? hmatch hsize
    exact ⟨hstop, hle, Nat.le_refl _, rfl, hpending, htile⟩
  | skip =>
    have hskip := lt_skip pass.text s.offset
    exact ⟨hskip, skip_le hlt, Nat.le_trans hpending (Nat.le_of_lt hskip), rfl⟩
  | region _ _ hfirst _ _ =>
    obtain ⟨hmatch, -⟩ := firstMatch?_eq_some hfirst
    obtain ⟨hbounds, -⟩ := bounds_of_consumed? hmatch
    exact ⟨lt_matchEnd_of_consumed? hmatch, matchEnd_le hsize hbounds, Nat.le_max_right _ _, rfl,
      hpending, rfl⟩
  | token _ _ hfirst _ =>
    obtain ⟨hmatch, -⟩ := firstMatch?_eq_some hfirst
    obtain ⟨htile, hstop, hle⟩ := segments_of_consumed? hmatch hsize
    exact ⟨hstop, hle, Nat.le_refl _, rfl, hpending, htile⟩
  | descend _ _ hfirst _ _ =>
    obtain ⟨hmatch, -⟩ := firstMatch?_eq_some hfirst
    obtain ⟨htile, hstop, hle⟩ := segments_of_consumed? hmatch hsize
    exact ⟨hstop, hle, Nat.le_refl _, rfl, hpending, htile⟩
  | @escape r p bounds _ _ _ _ =>
    -- the escape takes a byte along, also where its own match is empty
    have hle : s.offset ≤ matchEnd bounds s.offset := Nat.le_max_right _ _
    refine ⟨?_, Nat.min_le_right _ _, ?_, rfl⟩
    · show s.offset < min (matchEnd bounds s.offset + 1) pass.text.size
      omega
    · show s.pending ≤ min (matchEnd bounds s.offset + 1) pass.text.size
      omega
  | close _ _ _ _ hmatch =>
    obtain ⟨htile, hstop, hle⟩ := segments_of_consumed? hmatch (Nat.le_trans hpending hsize)
    exact ⟨hstop, hle, Nat.le_refl _, htile⟩
  | stay => exact ⟨Nat.lt_succ_self _, hlt, Nat.le_succ_of_le hpending, rfl⟩
  | stray => exact ⟨Nat.lt_succ_self _, hlt, Nat.le_succ_of_le hpending, rfl⟩

/-- **Every step moves forward.** -/
theorem advances_step (pass : Pass) (hpending : s.pending ≤ s.offset)
    (hlt : s.offset < pass.text.size) :
    Advances pass.text s (s.step pass).1 (s.step pass).2 :=
  advances_of_goes hpending hlt (goes_step pass s)

/-! ## All steps -/

section

variable {t : Text} {f : Scan → Scan × List Piece}

/-- The steps are of a kind that moves forward. -/
def Forward (t : Text) (f : Scan → Scan × List Piece) : Prop :=
  ∀ s : Scan, s.pending ≤ s.offset → s.offset < t.size → Advances t s (f s).1 (f s).2

theorem stepsBy_of_size_le (n : Nat) (h : t.size ≤ s.offset) : stepsBy t f n s = (s, []) := by
  cases n with
  | zero => rfl
  | succ n => rw [stepsBy, if_pos h]

theorem stepsBy_succ (n : Nat) (h : s.offset < t.size) :
    stepsBy t f (n + 1) s =
      ((stepsBy t f n (f s).1).1, (f s).2 ++ (stepsBy t f n (f s).1).2) := by
  rw [stepsBy, if_neg (Nat.not_le_of_lt h)]

/-- More steps than the line has bytes left change nothing. -/
theorem stepsBy_of_enough (hf : Forward t f) (n m : Nat) (hpending : s.pending ≤ s.offset)
    (hn : t.size ≤ s.offset + n) : stepsBy t f (n + m) s = stepsBy t f n s := by
  induction n generalizing s with
  | zero => rw [stepsBy_of_size_le _ hn, stepsBy_of_size_le _ hn]
  | succ n ih =>
    rcases Nat.lt_or_ge s.offset t.size with hlt | hge
    · have hstep := hf s hpending hlt
      have hlt' := hstep.offset_lt
      have hrest := ih hstep.pending_le (by omega)
      rw [show n + 1 + m = n + m + 1 by omega, stepsBy_succ _ hlt, stepsBy_succ _ hlt, hrest]
    · rw [stepsBy_of_size_le _ hge, stepsBy_of_size_le _ hge]

/-- **Enough steps that move forward reach the end of the line**, and their pieces tile what they
have cut off. -/
theorem covers_stepsBy (hf : Forward t f) (n : Nat) (hpending : s.pending ≤ s.offset)
    (hle : s.offset ≤ t.size) (hn : t.size ≤ s.offset + n) :
    (stepsBy t f n s).1.offset = t.size ∧ (stepsBy t f n s).1.pending ≤ t.size ∧
      Piece.Tile s.pending (stepsBy t f n s).1.pending (stepsBy t f n s).2 := by
  induction n generalizing s with
  | zero => exact ⟨Nat.le_antisymm hle hn, Nat.le_trans hpending hle, rfl⟩
  | succ n ih =>
    rcases Nat.lt_or_ge s.offset t.size with hlt | hge
    · have hstep := hf s hpending hlt
      have hlt' := hstep.offset_lt
      obtain ⟨hend, hbound, htile⟩ := ih hstep.pending_le hstep.offset_le (by omega)
      rw [stepsBy_succ n hlt]
      exact ⟨hend, hbound, hstep.tile.append htile⟩
    · rw [stepsBy_of_size_le (n + 1) hge]
      exact ⟨Nat.le_antisymm hle hge, Nat.le_trans hpending hle, rfl⟩

end

/-! ### With the matches of the patterns -/

theorem forward_step (pass : Pass) : Forward pass.text (step pass) :=
  fun _ hpending hlt => advances_step pass hpending hlt

theorem steps_of_size_le (n : Nat) (h : pass.text.size ≤ s.offset) : steps pass n s = (s, []) :=
  stepsBy_of_size_le n h

theorem steps_succ (n : Nat) (h : s.offset < pass.text.size) :
    steps pass (n + 1) s =
      ((steps pass n (s.step pass).1).1, (s.step pass).2 ++ (steps pass n (s.step pass).1).2) :=
  stepsBy_succ n h

theorem line_eq (pass : Pass) (root : Grammar) (c : Carry) :
    line pass root c =
      ((steps pass pass.text.size (start pass root c)).1,
        (steps pass pass.text.size (start pass root c)).2 ++
          [(steps pass pass.text.size (start pass root c)).1.pendingPiece pass.text
            pass.text.size]) := rfl

/-- **Enough steps reach the end of the line**, and their pieces tile what they have cut off. -/
theorem covers_steps (pass : Pass) (n : Nat) (hpending : s.pending ≤ s.offset)
    (hle : s.offset ≤ pass.text.size) (hn : pass.text.size ≤ s.offset + n) :
    (steps pass n s).1.offset = pass.text.size ∧
      (steps pass n s).1.pending ≤ pass.text.size ∧
      Piece.Tile s.pending (steps pass n s).1.pending (steps pass n s).2 :=
  covers_stepsBy (forward_step pass) n hpending hle hn

end Scan
end Linewise
