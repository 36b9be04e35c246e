import Linewise.Grammar.Basic

/-!
# Labelled text

Tokenizing cuts a line into *pieces*, each with a label. A piece whose text is a symbol of its
grammar takes the label of the symbol. What a caller gets are *runs*: neighbouring pieces with the
same label are joined, and empty pieces vanish, so that the runs are the shortest way to say which
byte has which label.
-/

namespace Linewise

/-- A labelled stretch of a line. -/
structure Piece where
  /-- Its label. -/
  label : String
  /-- Where it begins. -/
  start : Nat
  /-- Where it ends. -/
  stop : Nat
  deriving DecidableEq, Repr

/-- A stretch of a line under a label of the grammar `g`, which its symbols may override. -/
def Piece.under (g : Grammar) (label : String) (t : Text) (start stop : Nat) : Piece :=
  ⟨(g.symbol? (t.slice start stop)).getD label, start, stop⟩

/-- A number of bytes that share a label. -/
structure Run where
  /-- Their label. -/
  label : String
  /-- Their number. -/
  length : Nat
  deriving DecidableEq, Repr

/-- Puts a piece in front of runs. -/
def Run.add (p : Piece) (runs : List Run) : List Run :=
  if p.stop ≤ p.start then runs
  else
    match runs with
    | [] => [⟨p.label, p.stop - p.start⟩]
    | r :: rest =>
      if r.label = p.label then ⟨p.label, p.stop - p.start + r.length⟩ :: rest
      else ⟨p.label, p.stop - p.start⟩ :: r :: rest

/-- The runs of consecutive pieces. -/
def Run.ofPieces (pieces : List Piece) : List Run := pieces.foldr Run.add []

end Linewise
