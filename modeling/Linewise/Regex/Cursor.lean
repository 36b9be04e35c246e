import Linewise.Unicode.Classes

/-!
# Reading an expression

A reader moves over the characters of an expression and knows the byte offset of the next one. In
the mode `x` it passes over blanks and over comments, which run from a `#` to the end of the line;
where that happens is part of the syntax, so each function that can do it takes the mode as an
argument.

A reading fails with a `Fault`: a reason, and the offset at which the text that is to blame begins.
-/

namespace Linewise
namespace Regex

/-- Why an expression is refused. -/
inductive Reason where
  /-- An anchor stands inside a set. -/
  | classEscapeInvalid
  /-- A range ends before it begins. -/
  | classRangeInvalid
  /-- A range begins or ends with something other than a character. -/
  | classRangeLiteral
  /-- A set has no closing bracket. -/
  | classUnclosed
  /-- A count has no digits. -/
  | countEmpty
  /-- A count is too great. -/
  | countInvalid
  /-- The greatest count lies below the least. -/
  | countRange
  /-- A count has no closing brace. -/
  | countUnclosed
  /-- The expression ends inside an escape. -/
  | escapeEnd
  /-- The character after a backslash has no meaning there. -/
  | escapeUnrecognized
  /-- A digit stands after a backslash. -/
  | backreference
  /-- An escape needs a hexadecimal digit. -/
  | hexDigit
  /-- An escape has no digits between its braces. -/
  | hexEmpty
  /-- No character has the code point of an escape. -/
  | hexValue
  /-- A hyphen among flags has no flag after it. -/
  | flagDanglingNegation
  /-- A flag is given twice. -/
  | flagDuplicate
  /-- The expression ends inside a list of flags. -/
  | flagEnd
  /-- A second hyphen stands among flags. -/
  | flagRepeatedNegation
  /-- A letter names no flag. -/
  | flagUnrecognized
  /-- Two captures have the same name. -/
  | groupNameDuplicate
  /-- The name of a capture is empty. -/
  | groupNameEmpty
  /-- The expression ends inside the name of a capture. -/
  | groupNameEnd
  /-- A character may not stand in the name of a capture. -/
  | groupNameInvalid
  /-- A group has no closing parenthesis. -/
  | groupUnclosed
  /-- A closing parenthesis has no group to close. -/
  | groupUnopened
  /-- A group asks to look ahead or behind. -/
  | lookAround
  /-- The expression nests too deep. -/
  | nestingLimit
  /-- A backslash stands where a property is to be named. -/
  | propertyInvalid
  /-- A property is not known. -/
  | propertyNotFound
  /-- A repetition has nothing to repeat. -/
  | repetitionMissing
  /-- The expression ends right after the brace of a word boundary. -/
  | boundaryEnd
  /-- The name of a word boundary has no closing brace. -/
  | boundaryUnclosed
  /-- A name is not one of a word boundary. -/
  | boundaryUnrecognized
  /-- A character beyond ASCII stands where bytes are meant. -/
  | unicodeNotAllowed
  /-- A part of a character could match. -/
  | invalidUtf8
  deriving DecidableEq, Repr

/-- An expression is refused. -/
structure Fault where
  /-- Why. -/
  reason : Reason
  /-- The byte offset of what is to blame. -/
  offset : Nat
  deriving DecidableEq, Repr

/-- A place in an expression. -/
structure Cursor where
  /-- The characters still to be read. -/
  rest : List Char
  /-- The byte offset of the next character. -/
  offset : Nat
  deriving Repr

namespace Cursor

/-- The start of an expression. -/
def ofString (s : String) : Cursor := ⟨s.toList, 0⟩

/-- Whether everything was read. -/
def atEnd (c : Cursor) : Bool := c.rest.isEmpty

/-- The next character is `ch`. -/
def looksAt (c : Cursor) (ch : Char) : Bool := c.rest.head? == some ch

/-- Moves over one character. -/
def bump (c : Cursor) : Cursor :=
  match c.rest with
  | [] => c
  | ch :: rest => ⟨rest, c.offset + ch.utf8Size⟩

/-- Moves over `n` characters. -/
def bumps : Nat → Cursor → Cursor
  | 0, c => c
  | n + 1, c => bumps n c.bump

/-- Passes over blanks and comments from `offset` on; `inComment` says that a comment is being
read. -/
def passBlanks : (inComment : Bool) → List Char → Nat → Cursor
  | _, [], offset => ⟨[], offset⟩
  | true, ch :: rest, offset => passBlanks (ch != '\n') rest (offset + ch.utf8Size)
  | false, ch :: rest, offset =>
    if Unicode.isSpace ch.toNat then passBlanks false rest (offset + ch.utf8Size)
    else if ch = '#' then passBlanks true rest (offset + 1)
    else ⟨ch :: rest, offset⟩

/-- Passes over blanks and comments if they are ignored. -/
def space (ignoring : Bool) (c : Cursor) : Cursor :=
  if ignoring then passBlanks false c.rest c.offset else c

/-- Moves over one character, and then over blanks and comments if they are ignored. -/
def bumpSpace (ignoring : Bool) (c : Cursor) : Cursor := c.bump.space ignoring

/-- Moves over the given characters if they come next. -/
def bumpIf? (c : Cursor) (expected : List Char) : Option Cursor :=
  if expected.isPrefixOf c.rest then some (bumps expected.length c) else none

/-- The character after blanks and one `#`, looking ahead from behind the next character. A comment
is not passed over as a whole: the look-ahead ends at the first character of its text. -/
def aheadOfBlanks : (inComment : Bool) → List Char → Option Char
  | _, [] => none
  | inComment, ch :: rest =>
    if Unicode.isSpace ch.toNat then aheadOfBlanks inComment rest
    else if !inComment && ch = '#' then aheadOfBlanks true rest
    else some ch

/-- The character after the next one. Where blanks are ignored it is the first that is not blank; if
nothing but blanks is left, it is the blank itself. -/
def peek (ignoring : Bool) (c : Cursor) : Option Char :=
  let following := c.rest.drop 1
  if ignoring then (aheadOfBlanks false following).or following.head? else following.head?

end Cursor

/-- A reading: it fails, or it gives a value and the place behind it. -/
abbrev Reading (α : Type) := Except Fault (α × Cursor)

/-- Refuses the expression. -/
def refuse {α : Type} (reason : Reason) (offset : Nat) : Except Fault α := .error ⟨reason, offset⟩

end Regex
end Linewise
