import Linewise.Regex.Ast
import Linewise.Regex.Cursor

/-!
# Repetition operators

`?`, `*`, `+`, and counts in braces. Each applies to the expression before it, and a question mark
after it makes it lazy. A count may be spaced out with blanks. An expression that ends inside the
braces is refused at the brace, whatever else is wrong with the count.
-/

namespace Linewise
namespace Regex

/-- How often something is repeated. -/
structure Repeat where
  /-- The least number of times. -/
  least : Nat
  /-- The greatest number of times, if there is a limit. -/
  most : Option Nat
  /-- Whether more is preferred to less. -/
  greedy : Bool

/-- The greatest count that can be written. -/
def maxCount : Nat := 4294967295

/-- Moves over blanks. -/
def skipBlanks (x : Bool) : Nat → Cursor → Cursor
  | 0, c => c
  | n + 1, c =>
    match c.rest with
    | [] => c
    | ch :: _ => if Unicode.isSpace ch.toNat then skipBlanks x n (c.bumpSpace x) else c

/-- Reads decimal digits: their values, the last one first. -/
def readDigits (x : Bool) : Nat → List Nat → Cursor → List Nat × Cursor
  | 0, digits, c => (digits, c)
  | n + 1, digits, c =>
    match c.rest with
    | [] => (digits, c)
    | ch :: _ =>
      if ch.isDigit then readDigits x n ((ch.toNat - 0x30) :: digits) (c.bumpSpace x)
      else (digits, c)

/-- Reads a count with the blanks around it. The count itself may be refused although the reading
goes on. -/
def readCount (x : Bool) (c : Cursor) : Except Fault Nat × Cursor :=
  let first := skipBlanks false c.rest.length c
  let (digits, after) := readDigits x first.rest.length [] first
  let value := digits.foldr (fun d v => v * 10 + d) 0
  let count :=
    if digits.isEmpty then refuse .countEmpty first.offset
    else if maxCount < value then refuse .countInvalid first.offset
    else .ok value
  (count, skipBlanks x after.rest.length after)

/-- Reads a question mark that makes a repetition lazy. -/
def readLazy (c : Cursor) : Bool × Cursor :=
  if c.looksAt '?' then (false, c.bump) else (true, c)

/-- Reads the operator of one sign, `ch`. -/
def readSimpleRepeat (ch : Char) (c : Cursor) : Repeat × Cursor :=
  let (greedy, after) := readLazy c.bump
  if ch = '?' then (⟨0, some 1, greedy⟩, after)
  else if ch = '*' then (⟨0, none, greedy⟩, after)
  else (⟨1, none, greedy⟩, after)

/-- Reads the part of a count after the least number: the greatest one. -/
def readMost (x : Bool) (opened least : Nat) (c : Cursor) : Except Fault (Option Nat × Cursor) := do
  if c.looksAt ',' then
    let after := c.bumpSpace x
    if after.atEnd then refuse .countUnclosed opened
    else if after.looksAt '\x7d' then return (none, after)
    else
      let (count, after) := readCount x after
      return (some (← count), after)
  else return (some least, c)

/-- Reads a count in braces. `c` stands at the opening brace. -/
def readCounted (x : Bool) (c : Cursor) : Except Fault (Repeat × Cursor) := do
  let inner := c.bumpSpace x
  if inner.atEnd then refuse .countUnclosed c.offset
  else
    let (count, after) := readCount x inner
    if after.atEnd then refuse .countUnclosed c.offset
    else
      let least ← count
      let (most, after) ← readMost x c.offset least after
      if !after.looksAt '\x7d' then refuse .countUnclosed c.offset
      else
        let (greedy, after) := readLazy (after.bumpSpace x)
        match most with
        | some limit =>
          if limit < least then refuse .countRange c.offset
          else return (⟨least, most, greedy⟩, after)
        | none => return (⟨least, most, greedy⟩, after)

end Regex
end Linewise
