import Linewise.Tokenizer.Run
import Mathlib.Algebra.GroupWithZero.Nat
import Mathlib.Data.List.Chain

/-!
# Runs as a run-length encoding

A list of pieces says of each byte of a line which label it has; so does a list of runs. The runs
that are made of pieces say the same as the pieces, and say it in the shortest way.

* `Piece.Tile i j pieces`: the pieces follow each other without a gap, from position `i` to
  position `j`.
* `Run.Encodes labels runs`: the runs are a run-length encoding of the labels. There is only one
  (`Run.Encodes.unique`).
* `Run.encodes_ofPieces`: joining pieces into runs encodes the labels of their bytes.
* `Run.Encodes.edge_iff`: a run ends exactly where the label changes. Of pieces it can only be said
  that the label changes nowhere else (`Piece.Tile.getElem?_eq`), since neighbouring pieces may have
  the same label.
-/

namespace Linewise

/-! ## Labels byte by byte -/

/-- The labels of the bytes of a piece. -/
def Piece.byteLabels (p : Piece) : List String := List.replicate (p.stop - p.start) p.label

/-- The labels of the bytes of a run. -/
def Run.byteLabels (r : Run) : List String := List.replicate r.length r.label

/-- The pieces follow each other without a gap, from position `i` to position `j`. -/
def Piece.Tile : (i j : Nat) → List Piece → Prop
  | i, j, [] => i = j
  | i, j, p :: pieces => p.start = i ∧ i ≤ p.stop ∧ Piece.Tile p.stop j pieces

namespace Piece

theorem Tile.append {i j k : Nat} {ps qs : List Piece} (hp : Tile i j ps) (hq : Tile j k qs) :
    Tile i k (ps ++ qs) := by
  induction ps generalizing i with
  | nil =>
    rw [show i = j from hp]
    exact hq
  | cons p ps ih =>
    obtain ⟨hstart, hstop, hrest⟩ := hp
    exact ⟨hstart, hstop, ih hrest⟩

theorem Tile.le {i j : Nat} {pieces : List Piece} (h : Tile i j pieces) : i ≤ j := by
  induction pieces generalizing i with
  | nil => exact Nat.le_of_eq h
  | cons p pieces ih =>
    obtain ⟨-, hstop, hrest⟩ := h
    exact Nat.le_trans hstop (ih hrest)

/-- Tiling pieces label as many bytes as they cover. -/
theorem Tile.length_byteLabels {i j : Nat} {pieces : List Piece} (h : Tile i j pieces) :
    (pieces.flatMap byteLabels).length = j - i := by
  induction pieces generalizing i with
  | nil =>
    rw [show i = j from h, Nat.sub_self]
    rfl
  | cons p pieces ih =>
    obtain ⟨hstart, hstop, hrest⟩ := h
    have hle := hrest.le
    rw [List.flatMap_cons, List.length_append, ih hrest, byteLabels, List.length_replicate, hstart]
    omega

/-- Where no piece ends, the label stays the same. -/
theorem Tile.getElem?_eq {i j n : Nat} {pieces : List Piece} (h : Tile i j pieces) (hn : i < n)
    (hne : ∀ p ∈ pieces, p.stop ≠ n) :
    (pieces.flatMap byteLabels)[n - 1 - i]? = (pieces.flatMap byteLabels)[n - i]? := by
  induction pieces generalizing i with
  | nil => rfl
  | cons p pieces ih =>
    obtain ⟨hstart, hstop, hrest⟩ := h
    obtain ⟨hp, hne⟩ := List.forall_mem_cons.mp hne
    have hlength : p.byteLabels.length = p.stop - i := by
      rw [byteLabels, List.length_replicate, hstart]
    rw [List.flatMap_cons]
    rcases Nat.lt_or_gt_of_ne hp with hlt | hlt
    · -- both bytes lie behind the first piece
      rw [List.getElem?_append_right (by omega), List.getElem?_append_right (by omega), hlength,
        show n - 1 - i - (p.stop - i) = n - 1 - p.stop by omega,
        show n - i - (p.stop - i) = n - p.stop by omega]
      exact ih hrest hlt hne
    · rw [List.getElem?_append_left (by omega), List.getElem?_append_left (by omega), byteLabels,
        hstart, List.getElem?_replicate_of_lt (by omega), List.getElem?_replicate_of_lt (by omega)]

end Piece

/-! ## The encoding -/

namespace Run

/-- The runs are a run-length encoding of the labels: they say the same, no run is empty, and no two
neighbours could be joined. -/
structure Encodes (labels : List String) (runs : List Run) : Prop where
  /-- The runs say the same as the labels. -/
  expand : runs.flatMap byteLabels = labels
  /-- No run is empty. -/
  length_pos : ∀ r ∈ runs, 0 < r.length
  /-- Neighbours have different labels. -/
  label_ne : runs.IsChain fun r r' => r.label ≠ r'.label

theorem encodes_nil : Encodes [] [] := ⟨rfl, by simp, List.isChain_nil⟩

theorem Encodes.tail {labels : List String} {r : Run} {runs : List Run}
    (h : Encodes labels (r :: runs)) : Encodes (runs.flatMap byteLabels) runs :=
  ⟨rfl, fun r' hr' => h.length_pos r' (List.mem_cons_of_mem _ hr'), h.label_ne.tail⟩

/-- The first label of what runs say is that of the first run. -/
theorem Encodes.head?_eq {labels : List String} {runs : List Run} (h : Encodes labels runs) :
    labels.head? = runs.head?.map Run.label := by
  rw [← h.expand]
  cases runs with
  | nil => rfl
  | cons r runs =>
    obtain ⟨n, hn⟩ := Nat.exists_eq_succ_of_ne_zero
      (Nat.ne_of_gt (h.length_pos r List.mem_cons_self))
    rw [List.flatMap_cons, byteLabels, hn]
    rfl

/-- Behind the first run there is another label, or nothing. -/
theorem Encodes.head?_tail_ne {labels : List String} {r : Run} {runs : List Run}
    (h : Encodes labels (r :: runs)) : (runs.flatMap byteLabels).head? ≠ some r.label := by
  rw [h.tail.head?_eq]
  cases runs with
  | nil => simp
  | cons r' runs =>
    intro heq
    exact (List.isChain_cons_cons.mp h.label_ne).1 (Option.some.inj heq).symm

/-- A block of equal labels ends where another label begins. -/
theorem replicate_append_inj {x : String} {n m : Nat} {l l' : List String}
    (h : List.replicate n x ++ l = List.replicate m x ++ l') (hl : l.head? ≠ some x)
    (hl' : l'.head? ≠ some x) : n = m ∧ l = l' := by
  induction n generalizing m with
  | zero =>
    cases m with
    | zero => exact ⟨rfl, h⟩
    | succ m =>
      rw [show l = x :: (List.replicate m x ++ l') from h] at hl
      exact absurd rfl hl
  | succ n ih =>
    cases m with
    | zero =>
      rw [show l' = x :: (List.replicate n x ++ l) from h.symm] at hl'
      exact absurd rfl hl'
    | succ m =>
      rw [List.replicate_succ, List.replicate_succ] at h
      obtain ⟨hn, heq⟩ := ih (List.cons.inj h).2
      exact ⟨congrArg Nat.succ hn, heq⟩

/-- **There is only one run-length encoding.** -/
theorem Encodes.unique {labels : List String} {runs runs' : List Run} (h : Encodes labels runs)
    (h' : Encodes labels runs') : runs = runs' := by
  induction runs generalizing labels runs' with
  | nil =>
    have hhead := h'.head?_eq
    rw [h.head?_eq] at hhead
    cases runs' with
    | nil => rfl
    | cons r' runs' => cases hhead
  | cons r runs ih =>
    have hhead := h'.head?_eq
    rw [h.head?_eq] at hhead
    cases runs' with
    | nil => cases hhead
    | cons r' runs' =>
      have hlabel : r.label = r'.label := Option.some.inj hhead
      have hexpand : List.replicate r.length r.label ++ runs.flatMap byteLabels =
          List.replicate r'.length r.label ++ runs'.flatMap byteLabels := by
        have hsame := h.expand.trans h'.expand.symm
        rwa [List.flatMap_cons, List.flatMap_cons, byteLabels, byteLabels, ← hlabel] at hsame
      have hne := h'.head?_tail_ne
      rw [← hlabel] at hne
      obtain ⟨hlength, hrest⟩ := replicate_append_inj hexpand h.head?_tail_ne hne
      have hruns : runs = runs' := ih h.tail (hrest ▸ h'.tail)
      have hr : r = r' := by
        cases r
        cases r'
        cases hlabel
        cases hlength
        rfl
      rw [hr, hruns]

/-! ## Joining pieces -/

/-- A piece in front of what runs say becomes part of the first run, or a run of its own. -/
theorem encodes_add {labels : List String} {runs : List Run} (h : Encodes labels runs)
    (p : Piece) : Encodes (p.byteLabels ++ labels) (add p runs) := by
  unfold add
  split
  · next hempty =>
    rw [Piece.byteLabels, Nat.sub_eq_zero_of_le hempty]
    exact h
  · next hlt =>
    have hpos : 0 < p.stop - p.start := Nat.sub_pos_of_lt (Nat.lt_of_not_le hlt)
    split
    · refine ⟨?_, ?_, List.isChain_singleton _⟩
      · rw [← h.expand]
        rfl
      · intro r hr
        rw [List.mem_singleton.mp hr]
        exact hpos
    · next r rest =>
      split
      · next hlabel =>
        refine ⟨?_, ?_, ?_⟩
        · rw [← h.expand, List.flatMap_cons, List.flatMap_cons, byteLabels, byteLabels,
            Piece.byteLabels, hlabel, ← List.append_assoc, List.replicate_append_replicate]
        · intro r' hr'
          rcases List.mem_cons.mp hr' with rfl | hrest
          · exact Nat.lt_of_lt_of_le hpos (Nat.le_add_right _ _)
          · exact h.length_pos r' (List.mem_cons_of_mem _ hrest)
        · -- only the label of the first run matters for its neighbour
          cases rest with
          | nil => exact List.isChain_singleton _
          | cons r' rest =>
            obtain ⟨hne, hchain⟩ := List.isChain_cons_cons.mp h.label_ne
            exact List.isChain_cons_cons.mpr ⟨hlabel ▸ hne, hchain⟩
      · next hlabel =>
        refine ⟨?_, ?_, List.isChain_cons_cons.mpr ⟨fun heq => hlabel heq.symm, h.label_ne⟩⟩
        · rw [← h.expand]
          rfl
        · intro r' hr'
          rcases List.mem_cons.mp hr' with rfl | hrest
          · exact hpos
          · exact h.length_pos r' hrest

/-- **Joining pieces into runs encodes the labels of their bytes.** -/
theorem encodes_ofPieces (pieces : List Piece) :
    Encodes (pieces.flatMap Piece.byteLabels) (ofPieces pieces) := by
  induction pieces with
  | nil => exact encodes_nil
  | cons p pieces ih => exact encodes_add ih p

/-- The lengths of the runs sum to the number of the labels. -/
theorem Encodes.sum_length {labels : List String} {runs : List Run} (h : Encodes labels runs) :
    (runs.map Run.length).sum = labels.length := by
  rw [← h.expand, List.length_flatMap]
  congr 1
  refine List.map_congr_left fun r _ => ?_
  rw [byteLabels, List.length_replicate]

/-! ## Where runs end -/

/-- The lengths of the runs in front of a place sum to it. -/
def Edge (runs : List Run) (n : Nat) : Prop := ∃ k, ((runs.take k).map Run.length).sum = n

theorem edge_cons {r : Run} {runs : List Run} {n : Nat} :
    Edge (r :: runs) n ↔ n = 0 ∨ r.length ≤ n ∧ Edge runs (n - r.length) := by
  constructor
  · rintro ⟨k, rfl⟩
    cases k with
    | zero => exact Or.inl rfl
    | succ k =>
      refine Or.inr ⟨?_, k, ?_⟩
      · exact Nat.le_add_right _ _
      · rw [List.take_succ_cons, List.map_cons, List.sum_cons, Nat.add_sub_cancel_left]
  · rintro (rfl | ⟨hle, k, hk⟩)
    · exact ⟨0, rfl⟩
    · refine ⟨k + 1, ?_⟩
      rw [List.take_succ_cons, List.map_cons, List.sum_cons, hk, Nat.add_sub_cancel' hle]

/-- No run ends behind the last byte. -/
theorem Encodes.le_of_edge {labels : List String} {runs : List Run} {n : Nat}
    (h : Encodes labels runs) (hn : Edge runs n) : n ≤ labels.length := by
  obtain ⟨k, rfl⟩ := hn
  have hsplit : (runs.map Run.length).sum =
      ((runs.take k).map Run.length).sum + ((runs.drop k).map Run.length).sum := by
    rw [← List.sum_append, ← List.map_append, List.take_append_drop]
  rw [← h.sum_length, hsplit]
  exact Nat.le_add_right _ _

/-- **A run ends exactly where the label changes.** -/
theorem Encodes.edge_iff {labels : List String} {runs : List Run} {n : Nat}
    (h : Encodes labels runs) (hpos : 0 < n) (hlt : n < labels.length) :
    Edge runs n ↔ labels[n - 1]? ≠ labels[n]? := by
  induction runs generalizing labels n with
  | nil =>
    rw [← h.expand] at hlt
    exact absurd hlt (Nat.not_lt_zero n)
  | cons r runs ih =>
    have hr := h.length_pos r List.mem_cons_self
    have hnext := h.head?_tail_ne
    have hlength : r.byteLabels.length = r.length := by rw [byteLabels, List.length_replicate]
    have hrest := ih (n := n - r.length) h.tail
    have hexpand := h.expand
    rw [List.flatMap_cons] at hexpand
    rw [← hexpand, List.length_append, hlength] at hlt
    rw [edge_cons, ← hexpand, or_iff_right (Nat.ne_of_gt hpos)]
    rcases Nat.lt_trichotomy n r.length with hn | rfl | hn
    · -- inside of the first run
      rw [List.getElem?_append_left (by omega), List.getElem?_append_left (by omega), byteLabels,
        List.getElem?_replicate_of_lt (by omega), List.getElem?_replicate_of_lt hn]
      exact iff_of_false (fun hedge => Nat.not_le_of_lt hn hedge.1) fun hne => hne rfl
    · -- behind it, another label begins
      rw [List.getElem?_append_left (by omega), List.getElem?_append_right (by omega), hlength,
        Nat.sub_self, ← List.head?_eq_getElem?, byteLabels,
        List.getElem?_replicate_of_lt (by omega)]
      exact iff_of_true ⟨Nat.le_refl _, 0, rfl⟩ hnext.symm
    · rw [List.getElem?_append_right (by omega), List.getElem?_append_right (by omega), hlength,
        show n - 1 - r.length = n - r.length - 1 by omega,
        and_iff_right (Nat.le_of_lt hn)]
      exact hrest (by omega) (by omega)

end Run
end Linewise
