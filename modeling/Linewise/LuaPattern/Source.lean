import Linewise.Text.Ascii

/-!
# Reading a pattern without a text

A Lua-style pattern is a sequence of bytes in which a few punctuation bytes carry meaning: `%`
escapes the next byte or makes a class of a letter, `[` and `]` enclose a set, `(` and `)` mark
where a capture begins and ends, `^` and `$` anchor, and `*`, `+`, `-`, `?` quantify the element
before them. This module holds the three questions about a pattern that need no text:

* how many captures it closes (`closeCount`), and with it how many boundaries a match reports;
* where its first element ends (`elementRest?`);
* whether all that is left of it can match the empty text (`tailCloses?`), which decides whether a
  match survives running out of input, and how many captures close there.

The first two cut sets and escapes in different ways: `closeCount` only remembers whether it is
inside a set, while `elementRest?` jumps over whole elements. They look at the same bytes and have
to agree.

A position past the end of a pattern reads as the byte `0` (`byteAt`), which is no element: a
pattern that holds it matches nothing from there on.
-/

namespace Linewise
namespace LuaPattern

/-- A pattern: its bytes, in order. -/
abbrev Source := List UInt8

/-- The byte `%`, which escapes the byte after it or makes a class of a letter. -/
abbrev percent : UInt8 := 0x25
/-- The byte `[`, which opens a set. -/
abbrev openSet : UInt8 := 0x5B
/-- The byte `]`, which closes a set. -/
abbrev closeSet : UInt8 := 0x5D
/-- The byte `(`, which begins a capture. -/
abbrev openGroup : UInt8 := 0x28
/-- The byte `)`, which ends a capture. -/
abbrev closeGroup : UInt8 := 0x29
/-- The byte `^`, which anchors a pattern and inverts a set. -/
abbrev caret : UInt8 := 0x5E
/-- The byte `$`, which anchors a pattern at the end of the text. -/
abbrev dollar : UInt8 := 0x24
/-- The byte `.`, which accepts every character. -/
abbrev dot : UInt8 := 0x2E
/-- The byte `-`, the lazy quantifier. -/
abbrev minus : UInt8 := 0x2D
/-- The byte `*`, any number. -/
abbrev star : UInt8 := 0x2A
/-- The byte `+`, at least one. -/
abbrev plus : UInt8 := 0x2B
/-- The byte `?`, at most one. -/
abbrev question : UInt8 := 0x3F
/-- The letter `f`, which after `%` makes a frontier. -/
abbrev frontierLetter : UInt8 := 0x66

namespace Source

/-- The byte at position `i`, or `0` past the end. -/
def byteAt (p : Source) (i : Nat) : UInt8 := p.getD i 0

/-- Counts the `)` outside of sets. `escaped` says that the first byte follows a `%`, and `inSet`
that it stands inside a set. -/
def countCloses : (escaped inSet : Bool) → Source → Nat
  | _, _, [] => 0
  | true, inSet, _ :: rest => countCloses false inSet rest
  | false, inSet, c :: rest =>
    if c = percent then countCloses true inSet rest
    else if c = openSet then countCloses false true rest
    else if c = closeSet then countCloses false false rest
    else if c = closeGroup && !inSet then countCloses false inSet rest + 1
    else countCloses false inSet rest

/-- The number of captures that a pattern closes. -/
def closeCount (p : Source) : Nat := countCloses false false p

/-- What follows the `]` that closes a set, reading from inside the set. `escaped` says that the
first byte follows a `%`. -/
def setRest? : (escaped : Bool) → Source → Option Source
  | _, [] => none
  | true, _ :: rest => setRest? false rest
  | false, c :: rest =>
    if c = percent then setRest? true rest
    else if c = closeSet then some rest
    else setRest? false rest

/-- What follows the first element of a pattern, its quantifier not included. A frontier and a set
that is not closed have no such rest: neither of them can match the empty text. -/
def elementRest? : Source → Option Source
  | [] => none
  | c :: rest =>
    if c = percent then
      match rest with
      | [] => some []
      | kind :: rest => if Ascii.toLower kind = frontierLetter then none else some rest
    else if c = openSet then
      match rest with
      | [] => none
      | d :: inner => if d = caret then setRest? false inner else setRest? false (d :: inner)
    else some rest

/-- Whether `c` is a quantifier that allows an element to be left out. -/
def isOptional (c : UInt8) : Bool := c == minus || c == star || c == question

/-- Whether `c` is any quantifier. -/
def isQuantifier (c : UInt8) : Bool := isOptional c || c == plus

/-- Reads at most `n` items of a pattern of which every element has to be optional. -/
def optionalCloses? : Nat → Source → Option Nat
  | _, [] => some 0
  | 0, _ => none
  | n + 1, c :: rest =>
    if c = openGroup then optionalCloses? n rest
    else if c = closeGroup then (optionalCloses? n rest).map (· + 1)
    else
      match elementRest? (c :: rest) with
      | none => none
      | some [] => none
      | some (q :: rest) => if isOptional q then optionalCloses? n rest else none

/-- If the whole pattern can match the empty text because each of its elements is optional: the
number of captures that it closes. Every item takes at least one byte, so its length bounds their
number. -/
def tailCloses? (p : Source) : Option Nat := optionalCloses? p.length p

/-- The pattern after its first element and the quantifier of that element, if it has one. -/
def afterElement? (p : Source) : Option Source :=
  match elementRest? p with
  | none => none
  | some [] => some []
  | some (q :: rest) => if isQuantifier q then some rest else some (q :: rest)

end Source
end LuaPattern
end Linewise
