import Linewise.Regex.Group
import Linewise.Regex.Repetition
import Linewise.Regex.SetReader

/-!
# Reading a whole expression

The reader goes over the expression once. What is not finished is kept on a stack of open groups;
the alternatives and the sequence being read belong to the innermost of them. When the expression
ends, an open group is refused at its parenthesis, the innermost first.

After the reading comes one more check: an expression may not nest deeper than `maxNesting`.
Sequences and alternatives count as levels as well as groups, repetitions and sets do, and the first
node in reading order that is too deep is to blame.
-/

namespace Linewise
namespace Regex

/-- The alternatives being read on one level. -/
structure Branches where
  /-- Where the first alternative begins. -/
  start : Nat
  /-- The finished alternatives, the last one first. -/
  finished : List Ast
  /-- Where the alternative being read begins. -/
  branchStart : Nat
  /-- What was read of it, the last part first. -/
  items : List Ast

namespace Branches

/-- Nothing was read yet. -/
def none (start : Nat) : Branches := ⟨start, [], start, []⟩

/-- Adds a part to the alternative being read. -/
def push (b : Branches) (a : Ast) : Branches := { b with items := a :: b.items }

/-- The alternative being read as an expression. -/
def branch (b : Branches) : Ast :=
  match b.items with
  | [] => .empty b.branchStart
  | [a] => a
  | items => .concat b.branchStart items.reverse

/-- Finishes an alternative; the next one begins at `start`. -/
def split (b : Branches) (start : Nat) : Branches :=
  ⟨b.start, b.branch :: b.finished, start, []⟩

/-- All alternatives as an expression. -/
def toAst (b : Branches) : Ast :=
  match b.finished with
  | [] => b.branch
  | finished => .alternation b.start (b.branch :: finished).reverse

end Branches

/-- A group that is still open. -/
structure OpenGroup where
  /-- Where its parenthesis stands. -/
  start : Nat
  /-- What the group does. -/
  kind : GroupKind
  /-- Whether blanks were ignored before it. -/
  ignoring : Bool
  /-- What was read around it. -/
  outer : Branches

/-- What the reader knows besides its place. -/
structure Progress where
  /-- The open groups, the innermost first. -/
  groups : List OpenGroup
  /-- What was read on the innermost level. -/
  level : Branches
  /-- Whether blanks are ignored. -/
  ignoring : Bool
  /-- The captures opened so far. -/
  captures : Captures

/-- Whether something can be repeated: not flags. -/
def repeatable : Ast → Bool
  | .empty _ => false
  | .flags _ _ => false
  | _ => true

/-- Opens a group, or takes over flags. `c` stands at the opening parenthesis. -/
def openGroup (p : Progress) (c : Cursor) : Except Fault (Progress × Cursor) := do
  let ((opening, captures), after) ← readOpening p.ignoring p.captures c
  match opening with
  | .flags items =>
    let ignoring := (flagState .ignoreSpace false items).getD p.ignoring
    return ({ p with level := p.level.push (.flags c.offset items), ignoring }, after)
  | .group kind =>
    let ignoring :=
      match kind with
      | .capture _ => p.ignoring
      | .plain items => (flagState .ignoreSpace false items).getD p.ignoring
    let groups := ⟨c.offset, kind, p.ignoring, p.level⟩ :: p.groups
    return (⟨groups, .none after.offset, ignoring, captures⟩, after)

/-- Closes the innermost group. `c` stands at the closing parenthesis. -/
def closeGroup (p : Progress) (c : Cursor) : Except Fault (Progress × Cursor) :=
  match p.groups with
  | [] => refuse .groupUnopened c.offset
  | group :: groups =>
    .ok
      ({ p with
          groups
          level := group.outer.push (.group group.start group.kind p.level.toAst)
          ignoring := group.ignoring },
        c.bump)

/-- Reads a repetition operator, which begins with `ch`, and applies it. -/
def repeatLast (p : Progress) (ch : Char) (c : Cursor) : Except Fault (Progress × Cursor) := do
  match p.level.items with
  | [] => refuse .repetitionMissing c.offset
  | last :: items =>
    if !repeatable last then refuse .repetitionMissing c.offset
    else
      let (r, after) ←
        if ch = '\x7b' then readCounted p.ignoring c else .ok (readSimpleRepeat ch c)
      let repeated := Ast.repetition last.start r.least r.most r.greedy last
      return ({ p with level := { p.level with items := repeated :: items } }, after)

/-- Reads one part of the expression, which begins with `ch`. -/
def readPart (p : Progress) (ch : Char) (c : Cursor) : Except Fault (Progress × Cursor) := do
  if ch = '(' then openGroup p c
  else if ch = ')' then closeGroup p c
  else if ch = '|' then return ({ p with level := p.level.split c.bump.offset }, c.bump)
  else if ch = '[' then
    let (set, after) ← readSet p.ignoring c
    return ({ p with level := p.level.push set }, after)
  else if ch = '?' || ch = '*' || ch = '+' || ch = '\x7b' then repeatLast p ch c
  else
    let (primitive, after) ← readPrimitive p.ignoring ch c
    return ({ p with level := p.level.push primitive }, after)

/-- Reads at most `n` parts. Each takes at least one character. -/
def readParts : Nat → Progress → Cursor → Except Fault Ast
  | 0, p, _ => .ok p.level.toAst
  | n + 1, p, c => do
    let c := c.space p.ignoring
    match c.rest with
    | [] =>
      match p.groups with
      | [] => return p.level.toAst
      | group :: _ => refuse .groupUnclosed group.start
    | ch :: _ =>
      let (p, after) ← readPart p ch c
      readParts n p after

/-! ## The nesting limit -/

/-- The number of levels that an expression may nest. -/
def maxNesting : Nat := 250

mutual

/-- Where a set expression nests too deep, at `depth` levels below the surface. -/
def SetExpr.tooDeep? (depth : Nat) : SetExpr → Option Nat
  | .bracketed start _ inner =>
    if maxNesting ≤ depth then some start else inner.tooDeep? (depth + 1)
  | .union start items => if maxNesting ≤ depth then some start else setsTooDeep? (depth + 1) items
  | .binary start _ left right =>
    if maxNesting ≤ depth then some start
    else (left.tooDeep? (depth + 1)).or (right.tooDeep? (depth + 1))
  | .empty _ => none
  | .literal _ => none
  | .range _ _ _ => none
  | .posix _ _ _ => none
  | .perl _ _ _ => none
  | .property _ => none

/-- Where the first of several set expressions nests too deep. -/
def setsTooDeep? (depth : Nat) : List SetExpr → Option Nat
  | [] => none
  | e :: rest => (e.tooDeep? depth).or (setsTooDeep? depth rest)

end

mutual

/-- Where an expression nests too deep, at `depth` levels below the surface. -/
def Ast.tooDeep? (depth : Nat) : Ast → Option Nat
  | .set start _ inner => if maxNesting ≤ depth then some start else inner.tooDeep? (depth + 1)
  | .repetition start _ _ _ inner =>
    if maxNesting ≤ depth then some start else inner.tooDeep? (depth + 1)
  | .group start _ inner => if maxNesting ≤ depth then some start else inner.tooDeep? (depth + 1)
  | .concat start items => if maxNesting ≤ depth then some start else astsTooDeep? (depth + 1) items
  | .alternation start branches =>
    if maxNesting ≤ depth then some start else astsTooDeep? (depth + 1) branches
  | .empty _ => none
  | .flags _ _ => none
  | .literal _ => none
  | .dot _ => none
  | .anchor _ _ => none
  | .perl _ _ _ => none
  | .property _ => none

/-- Where the first of several expressions nests too deep. -/
def astsTooDeep? (depth : Nat) : List Ast → Option Nat
  | [] => none
  | a :: rest => (a.tooDeep? depth).or (astsTooDeep? depth rest)

end

/-- Reads an expression. -/
def Ast.ofString (s : String) : Except Fault Ast := do
  let c := Cursor.ofString s
  let a ← readParts (c.rest.length + 1) ⟨[], .none 0, false, ⟨0, []⟩⟩ c
  match a.tooDeep? 0 with
  | some start => refuse .nestingLimit start
  | none => return a

end Regex
end Linewise
