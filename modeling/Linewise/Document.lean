import Linewise.Tokenizer.Scan

/-!
# Documents

An editor asks for one line at a time, and to tokenize a line one has to know the carry that the
line before it ends in. A `CarryCache` remembers these carries from the first line on, so that only
what was edited, and what comes after it, has to be derived again.

Entry `i` of the cache is the carry at the end of line `i`. Entries are only ever added behind those
that are there, each derived from the one before it. Whoever edits the document has to say so, by
dropping the entries from the first changed line on, or, when a single line was changed in place, by
asking for that line: if its carry is no longer what was remembered, everything from there on is
dropped.

Missing entries are derived by quick passes, while a line that is asked for is tokenized in full.
-/

namespace Linewise

namespace Document

/-- Replaces `remove` lines from `line` on by others. What lies past the end of the document is not
there to be replaced. -/
def edit (lines : List Text) (line remove : Nat) (insert : List Text) : List Text :=
  lines.take line ++ insert ++ lines.drop (line + remove)

end Document

/-- The carries at the ends of the first lines of a document. -/
structure CarryCache where
  /-- The carries, that of the first line first. -/
  carries : List Carry
  deriving DecidableEq, Repr

namespace CarryCache

/-- Nothing is remembered. -/
def empty : CarryCache := ⟨[]⟩

/-- How many lines are remembered. -/
def size (c : CarryCache) : Nat := c.carries.length

/-- Forgets the lines from `line` on. -/
def dropFrom (c : CarryCache) (line : Nat) : CarryCache := ⟨c.carries.take line⟩

/-- The carry at the start of `line`, as far as it is remembered. -/
def carryAt (c : CarryCache) (line : Nat) : Carry :=
  match line with
  | 0 => .clear
  | before + 1 => c.carries.getD before .clear

/-- The carries at the ends of consecutive lines, of which the first begins in the given carry. -/
def derive (k : Tokenizer) : Carry → List Text → List Carry
  | _, [] => []
  | carry, t :: rest =>
    let next := (k.tokenize true t carry).carry
    next :: derive k next rest

/-- Derives what is missing up to the start of `line`. -/
def extend (c : CarryCache) (k : Tokenizer) (lines : List Text) (line : Nat) : CarryCache :=
  let missing := (lines.take line).drop c.size
  ⟨c.carries ++ derive k (c.carryAt c.size) missing⟩

/-- The carry at the start of `line`, or at the end of the document if there are fewer lines. -/
def carryBefore (c : CarryCache) (k : Tokenizer) (lines : List Text) (line : Nat) :
    Carry × CarryCache :=
  let extended := c.extend k lines line
  (extended.carryAt (min line lines.length), extended)

/-- Remembers the carry at the end of `line`, all lines before which are remembered. If it differs
from what was remembered, what comes after it is forgotten. -/
def remember (c : CarryCache) (line : Nat) (carry : Carry) : CarryCache :=
  if c.carries[line]? = some carry then c else ⟨c.carries.take line ++ [carry]⟩

/-- Tokenizes a line of a document. There is no answer past its end. -/
def highlight (c : CarryCache) (k : Tokenizer) (lines : List Text) (line : Nat) :
    Option Line × CarryCache :=
  match lines[line]? with
  | none => (none, c)
  | some t =>
    let (carry, extended) := c.carryBefore k lines line
    let result := k.tokenize false t carry
    (some result, extended.remember line result.carry)

end CarryCache

end Linewise
