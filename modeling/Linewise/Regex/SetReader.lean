import Linewise.Regex.Primitive

/-!
# Reading a set in brackets

Sets nest, and inside a set the operators `&&`, `--` and `~~` combine what stands to their left with
what stands to their right, all with the same strength and from the left. Both are kept on one
stack: an open bracket with what its surroundings had collected, or an operator with its finished
left side. Between two of them a union is collected.

Some signs mean themselves depending on where they stand: hyphens right after the opening bracket, a
`]` that would close an empty set, and a hyphen that is followed by a `]` or another hyphen. A named
class such as `[:alpha:]` is read only inside a set, and one whose name is not known is read as a
set in brackets instead, so it is no error of its own.
-/

namespace Linewise
namespace Regex

/-- The members of a union, the last one first. -/
structure Members where
  /-- Where the union begins. -/
  start : Nat
  /-- Its members, the last one first. -/
  items : List SetExpr

namespace Members

/-- A union without members. -/
def none (start : Nat) : Members := ⟨start, []⟩

/-- Adds a member. The first one says where the union begins. -/
def push (m : Members) (e : SetExpr) : Members :=
  match m.items with
  | [] => ⟨e.start, [e]⟩
  | items => ⟨m.start, e :: items⟩

/-- The union as an expression. -/
def toExpr (m : Members) : SetExpr :=
  match m.items with
  | [] => .empty m.start
  | [e] => e
  | items => .union m.start items.reverse

end Members

/-- What is not finished around the place being read. -/
inductive SetFrame where
  /-- An open bracket, and the members of the union that it belongs to. -/
  | opened (start : Nat) (negated : Bool) (outer : Members)
  /-- An operator and its left side. -/
  | operator (op : SetOp) (left : SetExpr)

/-- Finishes the operator on top of the stack, if there is one, with the right side `right`. -/
def finishOperator (right : SetExpr) : List SetFrame → SetExpr × List SetFrame
  | .operator op left :: frames => (.binary left.start op left right, frames)
  | frames => (right, frames)

/-- Where the innermost open bracket stands. -/
def innermostBracket : List SetFrame → Nat
  | [] => 0
  | .opened start _ _ :: _ => start
  | .operator _ _ :: frames => innermostBracket frames

/-- Reads the hyphens at the beginning of a set as members. -/
def leadingHyphens (x : Bool) (start : Nat) : Nat → Members → Cursor → Reading Members
  | 0, members, c => .ok (members, c)
  | n + 1, members, c =>
    if c.looksAt '-' then
      let after := c.bumpSpace x
      if after.atEnd then refuse .classUnclosed start
      else leadingHyphens x start n (members.push (.literal ⟨c.offset, '-', false⟩)) after
    else .ok (members, c)

/-- Reads an opening bracket and what follows it directly: whether the set is negated, and the
members that would mean something else further on. -/
def openBracket (x : Bool) (c : Cursor) : Except Fault ((Bool × Members) × Cursor) := do
  let start := c.offset
  let c := c.bumpSpace x
  if c.atEnd then refuse .classUnclosed start
  else
    let negated := c.looksAt '^'
    let c := if negated then c.bumpSpace x else c
    if c.atEnd then refuse .classUnclosed start
    else
      let (members, c) ← leadingHyphens x start c.rest.length (.none c.offset) c
      if members.items.isEmpty && c.looksAt ']' then
        let after := c.bumpSpace x
        if after.atEnd then refuse .classUnclosed start
        else return ((negated, members.push (.literal ⟨c.offset, ']', false⟩)), after)
      else return ((negated, members), c)

/-- The class of a name. -/
def posixClass? (name : List Char) : Option PosixClass :=
  if name = "alnum".toList then some .alnum
  else if name = "alpha".toList then some .alpha
  else if name = "ascii".toList then some .ascii
  else if name = "blank".toList then some .blank
  else if name = "cntrl".toList then some .cntrl
  else if name = "digit".toList then some .digit
  else if name = "graph".toList then some .graph
  else if name = "lower".toList then some .lower
  else if name = "print".toList then some .print
  else if name = "punct".toList then some .punct
  else if name = "space".toList then some .space
  else if name = "upper".toList then some .upper
  else if name = "word".toList then some .word
  else if name = "xdigit".toList then some .xdigit
  else none

/-- Reads a named class, if that is what stands at the bracket. -/
def posixAt? (c : Cursor) : Option (SetExpr × Cursor) :=
  match c.bumpIf? ['[', ':'] with
  | none => none
  | some inside =>
    let negated := inside.looksAt '^'
    let named := if negated then inside.bump else inside
    let name := named.rest.takeWhile (· != ':')
    match (Cursor.bumps name.length named).bumpIf? [':', ']'], posixClass? name with
    | some after, some kind => some (.posix c.offset negated kind, after)
    | _, _ => none

/-- A part of an expression as a member of a set. Only characters and classes can be members. -/
def memberOf : Ast → Except Fault SetExpr
  | .literal l => .ok (.literal l)
  | .perl start negated kind => .ok (.perl start negated kind)
  | .property start => .ok (.property start)
  | a => refuse .classEscapeInvalid a.start

/-- A part of an expression as an end of a range. Only characters can be. -/
def endpointOf : Ast → Except Fault Literal
  | .literal l => .ok l
  | a => refuse .classRangeLiteral a.start

/-- Reads a character or an escape inside a set. -/
def readMember (x : Bool) (c : Cursor) : Reading Ast :=
  match c.rest with
  | [] => refuse .classUnclosed c.offset
  | ch :: _ =>
    if ch = '\\' then readEscape x c else .ok (.literal ⟨c.offset, ch, false⟩, c.bump)

/-- Reads a member, or a range between two of them. -/
def readMemberOrRange (x : Bool) (frames : List SetFrame) (c : Cursor) :
    Except Fault (SetExpr × Cursor) := do
  let (first, c) ← readMember x c
  let c := c.space x
  if c.atEnd then refuse .classUnclosed (innermostBracket frames)
  else if !c.looksAt '-' || c.peek x == some ']' || c.peek x == some '-' then
    return (← memberOf first, c)
  else
    let c := c.bumpSpace x
    if c.atEnd then refuse .classUnclosed (innermostBracket frames)
    else
      let (last, c) ← readMember x c
      let lower ← endpointOf first
      let upper ← endpointOf last
      if upper.char < lower.char then refuse .classRangeInvalid first.start
      else return (.range first.start lower upper, c)

/-- The operator at the cursor, and the place behind it. -/
def operatorAt? (c : Cursor) : Option (SetOp × Cursor) :=
  match c.bumpIf? ['&', '&'], c.bumpIf? ['-', '-'], c.bumpIf? ['~', '~'] with
  | some after, _, _ => some (.intersection, after)
  | none, some after, _ => some (.difference, after)
  | none, none, some after => some (.symmetricDifference, after)
  | none, none, none => none

/-- Reads a set to the bracket that closes it, at most `n` items of it. -/
def readSetFrom (x : Bool) :
    Nat → List SetFrame → Members → Cursor → Except Fault (Ast × Cursor)
  | 0, frames, _, _ => refuse .classUnclosed (innermostBracket frames)
  | n + 1, frames, members, c => do
    let c := c.space x
    if c.atEnd then refuse .classUnclosed (innermostBracket frames)
    else if c.looksAt '[' then
      match posixAt? c with
      | some (named, after) => readSetFrom x n frames (members.push named) after
      | none =>
        let ((negated, inner), after) ← openBracket x c
        readSetFrom x n (.opened c.offset negated members :: frames) inner after
    else if c.looksAt ']' then
      match finishOperator members.toExpr frames with
      | (inside, .opened start negated outer :: frames) =>
        if frames.isEmpty then return (.set start negated inside, c.bump)
        else readSetFrom x n frames (outer.push (.bracketed start negated inside)) c.bump
      | (_, frames) => refuse .classUnclosed (innermostBracket frames)
    else
      match operatorAt? c with
      | some (op, after) =>
        let (left, frames) := finishOperator members.toExpr frames
        readSetFrom x n (.operator op left :: frames) (.none after.offset) after
      | none =>
        let (member, after) ← readMemberOrRange x frames c
        readSetFrom x n frames (members.push member) after

/-- Reads a set. `c` stands at its opening bracket. -/
def readSet (x : Bool) (c : Cursor) : Except Fault (Ast × Cursor) := do
  let ((negated, members), after) ← openBracket x c
  readSetFrom x c.rest.length [.opened c.offset negated (.none c.offset)] members after

end Regex
end Linewise
