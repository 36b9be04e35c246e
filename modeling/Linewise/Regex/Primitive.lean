import Linewise.Regex.Ast
import Linewise.Regex.Cursor

/-!
# Escapes

The smallest parts of an expression: characters, the dot, anchors, and what a backslash introduces.
The same reading serves inside and outside of sets. Letters and digits are kept back after a
backslash: those without a meaning are refused, while every other ASCII character may be escaped,
needed or not.

A brace after `\b` can open the name of a special word boundary or a count. What decides is the
first character in it that is not ignored: a letter or a hyphen makes it a name, and anything else
leaves the brace to be read again as a count.
-/

namespace Linewise
namespace Regex

/-- The value of a hexadecimal digit. -/
def hexValue? (c : Char) : Option Nat :=
  if '0' ≤ c && c ≤ '9' then some (c.toNat - 0x30)
  else if 'a' ≤ c && c ≤ 'f' then some (c.toNat - 0x61 + 10)
  else if 'A' ≤ c && c ≤ 'F' then some (c.toNat - 0x41 + 10)
  else none

/-- The character with the code point `n`, if there is one. -/
def scalar? (n : Nat) : Option Char :=
  if n < 0xD800 || (0xDFFF < n && n < 0x110000) then some (Char.ofNat n) else none

/-- The character with the code point `n`, written at `offset`. -/
def scalarOr (n offset : Nat) : Except Fault Char :=
  match scalar? n with
  | some ch => .ok ch
  | none => refuse .hexValue offset

/-- Reads exactly `n + 1` hexadecimal digits and appends them to `value`. -/
def fixedHex (x : Bool) : Nat → (value : Nat) → Cursor → Reading Nat
  | n, value, c =>
    match c.rest with
    | [] => refuse .escapeEnd c.offset
    | ch :: _ =>
      match hexValue? ch with
      | none => refuse .hexDigit c.offset
      | some digit =>
        match n with
        | 0 => .ok (value * 16 + digit, c.bumpSpace x)
        | n + 1 => fixedHex x n (value * 16 + digit) (c.bumpSpace x)

/-- Reads hexadecimal digits up to a closing brace: their value, and whether there were any.
`opened` is the offset of the opening brace, and `n` bounds the number of characters. -/
def bracedHex (x : Bool) (opened : Nat) :
    Nat → (value : Nat) → (any : Bool) → Cursor → Reading (Nat × Bool)
  | 0, _, _, _ => refuse .escapeEnd opened
  | n + 1, value, any, c =>
    match c.rest with
    | [] => refuse .escapeEnd opened
    | ch :: _ =>
      if ch = '\x7d' then .ok ((value, any), c.bumpSpace x)
      else
        match hexValue? ch with
        | none => refuse .hexDigit c.offset
        | some digit => bracedHex x opened n (value * 16 + digit) true (c.bumpSpace x)

/-- Reads the character that a hexadecimal escape names, from its letter on. `start` is the offset
of the backslash. -/
def readHex (x : Bool) (start : Nat) (letter : Char) (c : Cursor) :
    Except Fault (Literal × Cursor) := do
  let c := c.bumpSpace x
  if c.atEnd then refuse .escapeEnd c.offset
  else if c.looksAt '\x7b' then
    let ((value, any), after) ← bracedHex x c.offset c.rest.length 0 false (c.bumpSpace x)
    if !any then refuse .hexEmpty c.offset
    else return (⟨start, ← scalarOr value (c.offset + 1), false⟩, after)
  else
    let more := if letter = 'x' then 1 else if letter = 'u' then 3 else 7
    let (value, after) ← fixedHex x more 0 c
    return (⟨start, ← scalarOr value c.offset, letter == 'x'⟩, after)

/-- Passes over the name of a property up to its closing brace. -/
def skipProperty (x : Bool) : Nat → Cursor → Except Fault Cursor
  | 0, c => refuse .escapeEnd c.offset
  | n + 1, c =>
    match c.rest with
    | [] => refuse .escapeEnd c.offset
    | ch :: _ => if ch = '\x7d' then .ok c.bump else skipProperty x n (c.bumpSpace x)

/-- Reads a Unicode property from its letter on: a name in braces or a single letter. -/
def readProperty (x : Bool) (start : Nat) (c : Cursor) : Except Fault (Ast × Cursor) := do
  let c := c.bumpSpace x
  if c.atEnd then refuse .escapeEnd c.offset
  else if c.looksAt '\x7b' then
    return (.property start, ← skipProperty x c.rest.length (c.bumpSpace x))
  else if c.looksAt '\\' then refuse .propertyInvalid c.offset
  else return (.property start, c.bumpSpace x)

/-- A character that has a meaning of its own somewhere in an expression. -/
def isMeta (c : Char) : Bool :=
  c ∈
    ['\\', '.', '+', '*', '?', '(', ')', '|', '[', ']', '\x7b', '\x7d', '^', '$', '#', '&', '-',
      '~']

/-- A character that may follow a backslash and then stands for itself. -/
def isEscapable (c : Char) : Bool :=
  isMeta c || (c.toNat < 0x80 && !c.isAlphanum && c != '<' && c != '>')

/-- The control character that a letter names after a backslash. -/
def controlEscape? (c : Char) : Option Char :=
  if c = 'a' then some '\x07'
  else if c = 'f' then some '\x0c'
  else if c = 't' then some '\t'
  else if c = 'n' then some '\n'
  else if c = 'r' then some '\r'
  else if c = 'v' then some '\x0b'
  else none

/-- The anchor that a letter names after a backslash. -/
def anchorEscape? (c : Char) : Option Anchor :=
  if c = 'A' then some .textStart
  else if c = 'z' then some .textEnd
  else if c = 'b' then some .word
  else if c = 'B' then some .notWord
  else if c = '<' then some .wordStart
  else if c = '>' then some .wordEnd
  else none

/-- The class that a letter names after a backslash, and whether it is negated. -/
def perlEscape? (c : Char) : Option (PerlClass × Bool) :=
  if c = 'd' then some (.digit, false)
  else if c = 'D' then some (.digit, true)
  else if c = 's' then some (.space, false)
  else if c = 'S' then some (.space, true)
  else if c = 'w' then some (.word, false)
  else if c = 'W' then some (.word, true)
  else none

/-- A character of the name of a special word boundary. -/
def isBoundaryChar (c : Char) : Bool := c.isAlpha || c == '-'

/-- Reads the name of a special word boundary, and stops at the first character that cannot belong
to it. -/
def boundaryName (x : Bool) : Nat → Cursor → List Char × Cursor
  | 0, c => ([], c)
  | n + 1, c =>
    match c.rest with
    | [] => ([], c)
    | ch :: _ =>
      if isBoundaryChar ch then
        let (name, after) := boundaryName x n (c.bumpSpace x)
        (ch :: name, after)
      else ([], c)

/-- The special word boundary of a name. -/
def namedBoundary? (name : List Char) : Option Anchor :=
  if name = "start".toList then some .wordStart
  else if name = "end".toList then some .wordEnd
  else if name = "start-half".toList then some .wordStartHalf
  else if name = "end-half".toList then some .wordEndHalf
  else none

/-- Reads what a brace after `\b` introduces, if it is the name of a special word boundary. `start`
is the offset of the backslash, and `c` stands at the brace. -/
def readBoundary (x : Bool) (start : Nat) (c : Cursor) : Reading Anchor :=
  let inside := c.bumpSpace x
  match inside.rest with
  | [] => refuse .boundaryEnd start
  | ch :: _ =>
    if !isBoundaryChar ch then .ok (.word, c)
    else
      let (name, after) := boundaryName x inside.rest.length inside
      if !after.looksAt '\x7d' then refuse .boundaryUnclosed c.offset
      else
        match namedBoundary? name with
        | none => refuse .boundaryUnrecognized inside.offset
        | some anchor => .ok (anchor, after.bump)

/-- Reads what the letter or sign `ch` means after a backslash at `start`. `c` stands at `ch`. -/
def readEscaped (x : Bool) (start : Nat) (ch : Char) (c : Cursor) : Reading Ast :=
  if ch.isDigit then refuse .backreference start
  else if ch = 'x' || ch = 'u' || ch = 'U' then
    (readHex x start ch c).map fun (literal, after) => (.literal literal, after)
  else if ch = 'p' || ch = 'P' then readProperty x start c
  else
    match perlEscape? ch with
    | some (kind, negated) => .ok (.perl start negated kind, c.bump)
    | none =>
      if isEscapable ch then .ok (.literal ⟨start, ch, false⟩, c.bump)
      else
        match controlEscape? ch with
        | some control => .ok (.literal ⟨start, control, false⟩, c.bump)
        | none =>
          match anchorEscape? ch with
          | none => refuse .escapeUnrecognized start
          | some anchor =>
            if anchor = .word && c.bump.looksAt '\x7b' then
              (readBoundary x start c.bump).map fun (anchor, after) => (.anchor start anchor, after)
            else .ok (.anchor start anchor, c.bump)

/-- Reads an escape. `c` stands at the backslash. -/
def readEscape (x : Bool) (c : Cursor) : Reading Ast :=
  match c.bump.rest with
  | [] => refuse .escapeEnd c.offset
  | ch :: _ => readEscaped x c.offset ch c.bump

/-- Reads one part of an expression that starts with the character `ch`. -/
def readPrimitive (x : Bool) (ch : Char) (c : Cursor) : Reading Ast :=
  if ch = '\\' then readEscape x c
  else if ch = '.' then .ok (.dot c.offset, c.bump)
  else if ch = '^' then .ok (.anchor c.offset .lineStart, c.bump)
  else if ch = '$' then .ok (.anchor c.offset .lineEnd, c.bump)
  else .ok (.literal ⟨c.offset, ch, false⟩, c.bump)

end Regex
end Linewise
