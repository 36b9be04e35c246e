import Linewise.Text.Basic

/-!
# Symbols

A grammar can give labels to exact texts, such as its keywords, which then override the label of any
rule. The pairs of a text and its label may come in any order and may repeat a text; the first pair
with a text counts.

The table is kept in increasing order of the texts' bytes, without repetitions, so that a look-up
can halve the range of candidates at each step. A text longer than every key is answered without
looking.
-/

namespace Linewise

/-- The text of a symbol, as bytes. -/
abbrev SymbolKey := List UInt8

/-- Compares two texts byte by byte; a text comes after its own beginnings. -/
def compareKeys : SymbolKey → SymbolKey → Ordering
  | [], [] => .eq
  | [], _ :: _ => .lt
  | _ :: _, [] => .gt
  | a :: as, b :: bs => if a < b then .lt else if b < a then .gt else compareKeys as bs

/-- A table of symbols. -/
structure Symbols where
  /-- The keys, in increasing order, with their labels. -/
  entries : Array (SymbolKey × String)
  /-- The length of the longest key. -/
  longest : Nat

namespace Symbols

/-- Adds a pair to an ordered list, unless the key is there already. -/
def insertNew (key : SymbolKey) (label : String) :
    List (SymbolKey × String) → List (SymbolKey × String)
  | [] => [(key, label)]
  | (k, l) :: rest =>
    match compareKeys key k with
    | .lt => (key, label) :: (k, l) :: rest
    | .eq => (k, l) :: rest
    | .gt => (k, l) :: insertNew key label rest

/-- The ordered list of the pairs, of which the first with a key counts. -/
def ordered (pairs : List (String × String)) : List (SymbolKey × String) :=
  pairs.foldl (fun entries p => insertNew (Text.ofString p.1).toList p.2 entries) []

/-- The table of the given pairs. -/
def ofList (pairs : List (String × String)) : Symbols where
  entries := (ordered pairs).toArray
  longest := (ordered pairs).foldl (fun n e => max n e.1.length) 0

/-- Looks for a key among the entries from `low` up to, but not including, `high`, in at most `n`
steps. -/
def findBetween (entries : Array (SymbolKey × String)) (key : SymbolKey) :
    Nat → (low high : Nat) → Option String
  | 0, _, _ => none
  | n + 1, low, high =>
    if high ≤ low then none
    else
      let middle := (low + high) / 2
      match entries[middle]? with
      | none => none
      | some (k, label) =>
        match compareKeys key k with
        | .eq => some label
        | .lt => findBetween entries key n low middle
        | .gt => findBetween entries key n (middle + 1) high

/-- The label of a text. -/
def find? (s : Symbols) (t : Text) : Option String :=
  if s.longest < t.size then none
  else findBetween s.entries t.toList (s.entries.size + 1) 0 s.entries.size

end Symbols
end Linewise
