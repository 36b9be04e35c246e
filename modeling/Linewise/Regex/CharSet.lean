import Linewise.Regex.Ast
import Linewise.Unicode.CaseFold
import Linewise.Unicode.Classes

/-!
# Sets of characters

A set is kept as the expression that defines it, and `contains` evaluates the expression for one
code point. The same sets serve for characters and, where an expression works on bytes, for the
numbers `0` to `255`; only closing a set under case differs, since bytes have a case in ASCII alone.
-/

namespace Linewise
namespace Regex

/-- A set of code points, or of bytes. -/
inductive CharSet where
  /-- No code point. -/
  | none
  /-- The code points from `first` to `last`. -/
  | range (first last : Nat)
  /-- The decimal digits of all scripts. -/
  | digit
  /-- The blanks. -/
  | space
  /-- The word characters. -/
  | word
  /-- The code points in one of the two. -/
  | union (left right : CharSet)
  /-- The code points in both. -/
  | inter (left right : CharSet)
  /-- The code points in the first but not in the second. -/
  | diff (left right : CharSet)
  /-- The code points in exactly one of the two. -/
  | symmDiff (left right : CharSet)
  /-- All others. -/
  | compl (inner : CharSet)
  /-- The code points that differ from one in the set by case at most, in ASCII or in Unicode. -/
  | folded (unicode : Bool) (inner : CharSet)
  deriving Repr

namespace CharSet

/-- The other case of an ASCII letter; any other code point is unchanged. -/
def otherCase (c : Nat) : Nat :=
  if 0x41 ≤ c && c ≤ 0x5A then c + 0x20 else if 0x61 ≤ c && c ≤ 0x7A then c - 0x20 else c

/-- Whether the set holds `c`. -/
def contains : CharSet → Nat → Bool
  | .none, _ => false
  | .range first last, c => first ≤ c && c ≤ last
  | .digit, c => Unicode.isDigit c
  | .space, c => Unicode.isSpace c
  | .word, c => Unicode.isWord c
  | .union a b, c => a.contains c || b.contains c
  | .inter a b, c => a.contains c && b.contains c
  | .diff a b, c => a.contains c && !b.contains c
  | .symmDiff a b, c => a.contains c != b.contains c
  | .compl a, c => !a.contains c
  | .folded true a, c => (Unicode.variants c).any fun d => a.contains d
  | .folded false a, c => a.contains c || a.contains (otherCase c)

/-- The set of one code point. -/
def single (c : Nat) : CharSet := .range c c

/-- The union of several sets. -/
def unionAll (sets : List CharSet) : CharSet := sets.foldr .union .none

/-- The union of several ranges. -/
def ofRanges (ranges : List (Nat × Nat)) : CharSet := unionAll (ranges.map fun r => .range r.1 r.2)

/-- The complement, if asked for. -/
def negateIf (negated : Bool) (s : CharSet) : CharSet := if negated then .compl s else s

/-- The closure under case, if asked for. -/
def foldIf (ignoreCase unicode : Bool) (s : CharSet) : CharSet :=
  if ignoreCase then .folded unicode s else s

/-- Whether the set holds ASCII bytes only. -/
def isAscii (s : CharSet) : Bool := (List.range 128).all fun i => !s.contains (128 + i)

/-- The characters of a named class. They are ASCII characters. -/
def posix : PosixClass → CharSet
  | .alnum => ofRanges [(0x30, 0x39), (0x41, 0x5A), (0x61, 0x7A)]
  | .alpha => ofRanges [(0x41, 0x5A), (0x61, 0x7A)]
  | .ascii => .range 0 0x7F
  | .blank => ofRanges [(0x09, 0x09), (0x20, 0x20)]
  | .cntrl => ofRanges [(0, 0x1F), (0x7F, 0x7F)]
  | .digit => .range 0x30 0x39
  | .graph => .range 0x21 0x7E
  | .lower => .range 0x61 0x7A
  | .print => .range 0x20 0x7E
  | .punct => ofRanges [(0x21, 0x2F), (0x3A, 0x40), (0x5B, 0x60), (0x7B, 0x7E)]
  | .space => ofRanges [(0x09, 0x0D), (0x20, 0x20)]
  | .upper => .range 0x41 0x5A
  | .word => ofRanges [(0x30, 0x39), (0x41, 0x5A), (0x5F, 0x5F), (0x61, 0x7A)]
  | .xdigit => ofRanges [(0x30, 0x39), (0x41, 0x46), (0x61, 0x66)]

/-- The characters of a class with a one-letter escape, in all of Unicode or in ASCII. -/
def perl : (unicode : Bool) → PerlClass → CharSet
  | true, .digit => .digit
  | true, .space => .space
  | true, .word => .word
  | false, .digit => posix .digit
  | false, .space => posix .space
  | false, .word => posix .word

/-- The set that an operator makes of two. -/
def apply : SetOp → CharSet → CharSet → CharSet
  | .intersection => .inter
  | .difference => .diff
  | .symmetricDifference => .symmDiff

end CharSet
end Regex
end Linewise
