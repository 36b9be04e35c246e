/-!
# What one line leaves to the next

A line of text can end inside a region: an open comment, a string, a nested language. What the next
line has to know about that is packed into one 64-bit word, so that an editor can keep it beside
each line and compare it cheaply. The word holds four fields of eight bits, least significant first.
Field `l` belongs to nesting level `l`: it is `0` when nothing is open there, and one more than the
index of the open rule otherwise.

The layout is part of the format, since such words may be stored. Two limits follow from it, and the
operations keep both by refusing what does not fit:

* there are `maxDepth` levels, so a level past the last reads as closed and cannot be marked;
* a field holds a rule index below `maxRules`, so a greater index cannot be marked.

The upper half of the word is unused. `truncate` always clears it, whatever stored garbage it held.
-/

namespace Linewise

/-- The number of nesting levels that a carry describes. -/
def maxDepth : Nat := 4

/-- The number of rules whose index fits into one field, whose value `0` means that no rule is
open. -/
def maxRules : Nat := 255

/-- The rules that are open at the end of a line, one field of eight bits for each nesting level. -/
structure Carry where
  /-- The packed fields, level `0` in the least significant byte. -/
  bits : BitVec 64
  deriving DecidableEq, Repr

namespace Carry

/-- Nothing is open: how the first line of a document starts. -/
def clear : Carry := ⟨0⟩

/-- Whether no bit is set. -/
def isClear (c : Carry) : Bool := c.bits == 0

/-- The field of `level`, as it is stored. -/
def field (c : Carry) (level : Nat) : Nat :=
  if maxDepth ≤ level then 0 else ((c.bits >>> (8 * level)) &&& 0xFF).toNat

/-- The index of the rule that is open at `level`. -/
def active? (c : Carry) (level : Nat) : Option Nat :=
  match c.field level with
  | 0 => none
  | rule + 1 => some rule

/-- Marks `rule` as open at `level`. A level or an index that does not fit leaves the carry as it
is. -/
def mark (c : Carry) (level rule : Nat) : Carry :=
  if maxDepth ≤ level || maxRules ≤ rule then c
  else
    ⟨(c.bits &&& ~~~(0xFF#64 <<< (8 * level))) ||| (BitVec.ofNat 64 (rule + 1) <<< (8 * level))⟩

/-- Keeps the fields below `level` and clears everything else. -/
def truncate (c : Carry) (level : Nat) : Carry :=
  let kept := 8 * min level maxDepth
  ⟨c.bits &&& ((1#64 <<< kept) - 1)⟩

/-- Marks the given pairs of a level and a rule index, in order, in the clear carry. -/
def ofLevels (levels : List (Nat × Nat)) : Carry :=
  levels.foldl (fun c p => c.mark p.1 p.2) clear

/-- The open levels from `level` on, at most `n` of them, up to the first one that is closed. -/
def levelsFrom (c : Carry) : Nat → Nat → List (Nat × Nat)
  | 0, _ => []
  | n + 1, level =>
    match c.active? level with
    | none => []
    | some rule => (level, rule) :: levelsFrom c n (level + 1)

/-- The open levels, outermost first, each with its rule. A closed level ends the list even if a
level above it is marked. -/
def levels (c : Carry) : List (Nat × Nat) := c.levelsFrom maxDepth 0

end Carry
end Linewise
