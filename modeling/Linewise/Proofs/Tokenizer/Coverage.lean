import Linewise.Proofs.Tokenizer.Progress

/-!
# The runs cover the line

A full pass cuts a line into pieces that tile it: no byte is left out, given twice or out of order.
Its runs are the run-length encoding of the labels that the pieces give to the bytes. Hence no run
is empty, the lengths of the runs sum to the length of the line, and neighbouring runs have
different labels.

Nothing is assumed of the grammars. They may own or share nested grammars, refer to each other in
circles, and have patterns of either flavour that match whatever they like.
-/

namespace Linewise

namespace Scan

/-- A line is scanned to its end, and its pieces tile it. -/
theorem covers_line (pass : Pass) (root : Grammar) (c : Carry) :
    (line pass root c).1.offset = pass.text.size ∧
      Piece.Tile 0 pass.text.size (line pass root c).2 := by
  obtain ⟨hend, hpending, htile⟩ := covers_steps pass (s := start pass root c) pass.text.size
    (Nat.le_refl 0) (Nat.zero_le _) (Nat.le_add_left _ _)
  refine ⟨hend, ?_⟩
  -- what is pending at the end of the line is the last piece
  exact htile.append ⟨rfl, hpending, rfl⟩

end Scan

namespace Tokenizer

/-- **The runs of a full pass cover the line.** The scan reaches the end of the line and its pieces
tile the line; the runs are the one run-length encoding of the labels that the pieces give to the
bytes. -/
theorem runs_cover_line (k : Tokenizer) (t : Text) (c : Carry) :
    (Scan.line ⟨k.table, t, false⟩ k.root c).1.offset = t.size ∧
      Piece.Tile 0 t.size (Scan.line ⟨k.table, t, false⟩ k.root c).2 ∧
      ∃ runs, (k.tokenize false t c).runs = some runs ∧
        (∀ r ∈ runs, 0 < r.length) ∧
        (runs.map Run.length).sum = t.size ∧
        (runs.IsChain fun r r' => r.label ≠ r'.label) ∧
        ∀ runs', runs' = runs ↔
          Run.Encodes ((Scan.line ⟨k.table, t, false⟩ k.root c).2.flatMap Piece.byteLabels)
            runs' := by
  obtain ⟨hend, htile⟩ := Scan.covers_line ⟨k.table, t, false⟩ k.root c
  have hencodes := Run.encodes_ofPieces (Scan.line ⟨k.table, t, false⟩ k.root c).2
  refine ⟨hend, htile, Run.ofPieces (Scan.line ⟨k.table, t, false⟩ k.root c).2, rfl,
    hencodes.length_pos, ?_, hencodes.label_ne, fun runs' => ?_⟩
  · rw [hencodes.sum_length, htile.length_byteLabels, Nat.sub_zero]
  · constructor
    · rintro rfl
      exact hencodes
    · intro h
      exact h.unique hencodes

end Tokenizer
end Linewise
