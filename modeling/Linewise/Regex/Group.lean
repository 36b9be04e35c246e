import Linewise.Regex.Ast
import Linewise.Regex.Cursor

/-!
# How a group opens

After an opening parenthesis comes nothing, a name, or a question mark with flags. Flags are closed
by a colon, and then hold inside of the group, or by the parenthesis, and then there is no group:
they hold for the rest of the group around. A group captures unless it is opened with flags;
captures are numbered in the order in which they open, and their names have to differ.
-/

namespace Linewise
namespace Regex

/-- The captures opened so far. -/
structure Captures where
  /-- How many there are. -/
  count : Nat
  /-- The names of those that have one. -/
  names : List (List Char)

/-- What an opening parenthesis turned out to introduce. -/
inductive Opening where
  /-- Flags on their own. -/
  | flags (items : List FlagItem)
  /-- A group. -/
  | group (kind : GroupKind)

/-- The flag of a letter. -/
def flagOf? (c : Char) : Option Flag :=
  if c = 'i' then some .ignoreCase
  else if c = 'm' then some .multiLine
  else if c = 's' then some .dotNewline
  else if c = 'U' then some .swapGreed
  else if c = 'u' then some .unicode
  else if c = 'R' then some .crlf
  else if c = 'x' then some .ignoreSpace
  else none

/-- Why a flag item is refused that was given before. -/
def repeatedItem : FlagItem → Reason
  | .negation => .flagRepeatedNegation
  | .flag _ => .flagDuplicate

/-- Reads flags up to the sign that ends them. `items` holds those read so far, the last one first,
and `dangling` the place of a `-` that no flag has followed yet. -/
def readFlags : List Char → (offset : Nat) → (items : List FlagItem) → (dangling : Option Nat) →
    Except Fault (List FlagItem × Cursor)
  | [], offset, _, _ => refuse .flagEnd offset
  | c :: rest, offset, items, dangling =>
    if c = ':' || c = ')' then
      match dangling with
      | some place => refuse .flagDanglingNegation place
      | none => .ok (items.reverse, ⟨c :: rest, offset⟩)
    else
      match if c = '-' then some FlagItem.negation else (flagOf? c).map FlagItem.flag with
      | none => refuse .flagUnrecognized offset
      | some item =>
        if item ∈ items then refuse (repeatedItem item) offset
        else
          readFlags rest (offset + c.utf8Size) (item :: items)
            (if c = '-' then some offset else none)

/-- Whether `c` may stand in a name. -/
def isNameChar (first : Bool) (c : Char) : Bool :=
  if first then c == '_' || Unicode.isAlphabetic c.toNat
  else c == '_' || c == '.' || c == '[' || c == ']' || Unicode.isAlphanumeric c.toNat

/-- Reads a name up to its closing angle bracket. `name` holds what was read so far, the last
character first. -/
def readNameChars : List Char → (offset : Nat) → (name : List Char) → Reading (List Char)
  | [], offset, _ => refuse .groupNameEnd offset
  | c :: rest, offset, name =>
    if c = '>' then .ok (name.reverse, ⟨rest, offset + 1⟩)
    else if isNameChar name.isEmpty c then readNameChars rest (offset + c.utf8Size) (c :: name)
    else refuse .groupNameInvalid offset

/-- Reads the name of a capture. -/
def readName (captures : Captures) (c : Cursor) : Except Fault (List Char × Cursor) := do
  let (name, after) ← readNameChars c.rest c.offset []
  if name.isEmpty then refuse .groupNameEmpty c.offset
  else if name ∈ captures.names then refuse .groupNameDuplicate c.offset
  else return (name, after)

/-- Whether the expression goes on with a sign for looking ahead or behind. -/
def looksAround (c : Cursor) : Bool :=
  [['?', '='], ['?', '!'], ['?', '<', '='], ['?', '<', '!']].any (·.isPrefixOf c.rest)

/-- Reads what an opening parenthesis introduces, with the captures opened so far. `c` stands at the
parenthesis. -/
def readOpening (x : Bool) (captures : Captures) (c : Cursor) :
    Except Fault ((Opening × Captures) × Cursor) := do
  let inner := c.bumpSpace x
  let index := captures.count + 1
  if looksAround inner then refuse .lookAround c.offset
  else
    match (inner.bumpIf? ['?', 'P', '<']).or (inner.bumpIf? ['?', '<']) with
    | some named =>
      let (name, after) ← readName captures named
      return ((.group (.capture index), ⟨index, name :: captures.names⟩), after)
    | none =>
      if inner.looksAt '?' then
        if inner.bump.atEnd then refuse .groupUnclosed c.offset
        else
          let (items, after) ← readFlags inner.bump.rest inner.bump.offset [] none
          if after.looksAt ':' then return ((.group (.plain items), captures), after.bump)
          else if items.isEmpty then refuse .repetitionMissing inner.offset
          else return ((.flags items, captures), after.bump)
      else return ((.group (.capture index), ⟨index, captures.names⟩), inner)

end Regex
end Linewise
