/-!
# Tables of code points

A property of code points is a list of disjoint ranges in increasing order, and a case mapping is a
list of rows, each of which shifts equally spaced code points by a common amount. Both are read from
the front; because they are in order, a search can stop at the first range that begins too late.
-/

namespace Linewise
namespace Unicode

/-- Disjoint ranges of code points, both ends included, in increasing order. -/
abbrev Ranges := List (Nat × Nat)

/-- Whether one of the ranges holds `c`. -/
def Ranges.contains : Ranges → Nat → Bool
  | [], _ => false
  | (first, last) :: rest, c =>
    if c < first then false else if c ≤ last then true else Ranges.contains rest c

/-- A row of a case mapping: every `stride`-th code point from `first` to `last` is shifted. -/
structure CaseRow where
  /-- The first code point of the row. -/
  first : Nat
  /-- The last code point of the row. -/
  last : Nat
  /-- The distance between neighbours. -/
  stride : Nat
  /-- What is added. -/
  shift : Int

namespace CaseRow

/-- Whether the row shifts `c`. -/
def contains (row : CaseRow) (c : Nat) : Bool :=
  row.first ≤ c && c ≤ row.last && (c - row.first) % row.stride == 0

/-- What the row makes of `c`. -/
def apply (row : CaseRow) (c : Nat) : Nat := (Int.ofNat c + row.shift).toNat

/-- The code point of the row that is shifted to `target`, if there is one. -/
def source? (row : CaseRow) (target : Nat) : Option Nat :=
  let c := (Int.ofNat target - row.shift).toNat
  if row.contains c && row.apply c == target then some c else none

end CaseRow

/-- What the rows make of `c`; a code point in no row stays as it is. -/
def mapCase : List CaseRow → Nat → Nat
  | [], c => c
  | row :: rows, c =>
    if c < row.first then c else if row.contains c then row.apply c else mapCase rows c

end Unicode
end Linewise
