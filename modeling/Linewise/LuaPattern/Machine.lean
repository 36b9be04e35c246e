import Linewise.Text.Basic
import Linewise.LuaPattern.Source

/-!
# The pattern machine

A pattern is matched in a single pass from left to right, by a machine whose whole memory is one
`State`. It is not a backtracking matcher: it remembers exactly *one* point to return to, the place
where a greedy element last took a character that its successor would have accepted as well. A later
greedy element overwrites that point, so an ambiguous pattern can fail where a search would succeed.
Grammars are written against this behaviour, so it is kept to the last step.

## 1.  Reading an element

`read` looks at the pattern byte under the cursor. It either moves on inside the pattern (`skip`),
or completes an element and says in `State.accepts` whether the element accepts the character at
hand (`element`). A set is read member by member; once a member has accepted, the rest of the set is
skipped.

## 2.  Looking ahead

`probe` asks whether the first element of a pattern accepts the byte at a position. It reads like
the machine itself, but neither moves in the text nor records anything. A probe never asks a probe:
it stops at its first element, and frontiers and quantifiers, which look ahead, come after that.

## 3.  One step of the machine

`step` is one turn: `atEnd` when the input has run out, and otherwise a reading, followed, when it
completes an element, by `close`, which counts the match, tests a pending frontier and obeys the
quantifier.

## 4.  Running

`run` repeats `step`. Nothing in a step makes the state smaller: a frontier takes no character, so a
pattern that repeats one can hold the machine in place for ever. The number of turns is therefore
bounded from outside, by a `turnLimit` that no machine that comes to an end gets near, and that no
caller lives to see reached.

Every read outside the pattern's or the text's range, and every subtraction that would fall below
zero, is a `fault`, so that the absence of faults can be stated.
-/

namespace Linewise
namespace LuaPattern

/-- What stays the same while a pattern is matched. -/
structure Setting where
  /-- The whole pattern. -/
  pattern : Source
  /-- The whole text. -/
  text : Text
  /-- Where the pattern ends: before a final `$`, if there is one. -/
  stop : Nat
  /-- Whether a final `$` demands that the match ends with the text. -/
  toEnd : Bool
  /-- How often the machine may return to a remembered point. -/
  returnLimit : Nat

/-- The memory of the machine. -/
structure State where
  /-- The position in the pattern. -/
  cursor : Nat
  /-- The position in the text. -/
  position : Nat
  /-- Whether the cursor is inside a set. -/
  inSet : Bool
  /-- Whether the set being read, or just read, is inverted. -/
  inverted : Bool
  /-- A frontier that waits for the element after it: where it stands in the pattern, and where in
  the text it was met. -/
  frontier : Option (Nat × Nat)
  /-- Whether a frontier was just passed, so that the next advance must not leave the character. -/
  rewound : Bool
  /-- Where the element being read begins. A greedy element is repeated from there. -/
  elementStart : Nat
  /-- The one remembered point in the text. -/
  retry : Option Nat
  /-- How often the machine has returned. -/
  returns : Nat
  /-- The least number of times that the element has to match. -/
  least : Nat
  /-- The greatest number of times that the element may match; nothing means no limit. -/
  most : Option Nat
  /-- How often the element has matched. -/
  count : Nat
  /-- Whether the element, or the member of a set, accepts the character at hand. -/
  accepts : Bool
  /-- Whether the element just read was the last one of the pattern. -/
  finished : Bool
  /-- Whether the cursor went back to the start of a greedy element that matched. -/
  repeating : Bool
  /-- Where captures were closed so far, in order. -/
  closes : List Nat
  deriving DecidableEq, Repr

/-- How a match ends. -/
inductive Verdict where
  /-- The pattern does not match. -/
  | reject
  /-- The pattern matches. The boundaries are the closed captures, in the order in which they were
  reached, and the end of the match. -/
  | accept (boundaries : List Nat)
  /-- Something was read out of range. -/
  | fault
  deriving DecidableEq, Repr

/-- How a match begins. -/
inductive Start where
  /-- The pattern is anchored and the position is not the start of the text. -/
  | reject
  /-- The position lies behind the end of the text. -/
  | fault
  /-- The machine can run. -/
  | ready (setting : Setting) (state : State)

/-- Sets up the machine for matching `pattern` in `text` at `offset`. A leading `^` holds at offset
`0` alone, and a final `$` is taken off the pattern, also where it is escaped. -/
def start (pattern : Source) (text : Text) (offset : Nat) : Start :=
  if text.size < offset then .fault
  else
    let anchored := pattern.byteAt 0 == caret
    if anchored && offset != 0 then .reject
    else
      let cursor := if anchored then 1 else 0
      let toEnd := cursor < pattern.length && pattern.byteAt (pattern.length - 1) == dollar
      .ready
        { pattern
          text
          stop := if toEnd then pattern.length - 1 else pattern.length
          toEnd
          returnLimit := (pattern.length + 1) * (text.size - offset + 1) }
        { cursor
          position := offset
          inSet := false
          inverted := false
          frontier := none
          rewound := false
          elementStart := 0
          retry := none
          returns := 0
          least := 1
          most := some 1
          count := 0
          accepts := false
          finished := false
          repeating := false
          closes := [] }

/-! ## 1.  Reading an element -/

/-- Whether `c` belongs to the class that the letter `kind` names after a `%`. An upper-case letter
inverts its class; a byte that names no class stands for itself, so an upper-case letter without a
class accepts everything but itself. Bytes at or above `0x80` count as letters and as control
characters. -/
def classAccepts (kind c : UInt8) : Bool :=
  let high := 0x80 ≤ c
  let lower := Ascii.toLower kind
  let hit :=
    if lower = 0x61 then Ascii.isAlpha c || high
    else if lower = 0x77 then Ascii.isAlnum c || high
    else if lower = 0x6C then Ascii.isLower c || high
    else if lower = 0x75 then Ascii.isUpper c || high
    else if lower = 0x64 then Ascii.isDigit c
    else if lower = 0x67 then Ascii.isGraphic c
    else if lower = 0x63 then Ascii.isControl c || high
    else if lower = 0x70 then Ascii.isPunct c
    else if lower = 0x73 then Ascii.isSpace c
    else if lower = 0x78 then Ascii.isHexDigit c
    else if lower = 0x7A then c == 0
    else kind == c
  if lower = kind then hit else !hit

/-- What came of one reading. -/
inductive Reading where
  /-- The pattern cannot match. -/
  | reject
  /-- Something was read out of range. -/
  | fault
  /-- The cursor moved; no element is complete yet. -/
  | skip (state : State)
  /-- An element is complete, and `State.accepts` says whether it accepts. -/
  | element (state : State)

/-- Completes a reading: inside a set it is only a member, and outside it is an element, inverted if
it is an inverted set. -/
def finishRead (s : State) : Reading :=
  if s.inSet then .skip s
  else .element { s with accepts := if s.inverted then !s.accepts else s.accepts }

/-- Reads what a `%` at the cursor introduces: a frontier, a class or an escaped byte. -/
def readEscape (cfg : Setting) (s : State) : Reading :=
  match cfg.text[s.position]? with
  | none => .fault
  | some c =>
    let kind := cfg.pattern.byteAt (s.cursor + 1)
    if kind = 0 then .reject
    else if Ascii.toLower kind = frontierLetter then
      .skip { s with frontier := some (s.cursor, s.position), cursor := s.cursor + 2 }
    else finishRead { s with accepts := classAccepts kind c, cursor := s.cursor + 2 }

/-- Reads a byte that stands for itself. -/
def readLiteral (cfg : Setting) (s : State) (literal : UInt8) : Reading :=
  match cfg.text[s.position]? with
  | none => .fault
  | some c => finishRead { s with accepts := literal == c, cursor := s.cursor + 1 }

/-- Opens a set at the cursor. A `^` right after the bracket inverts it. -/
def readSetOpening (cfg : Setting) (s : State) : Reading :=
  let opened := { s with inSet := true, elementStart := s.cursor, cursor := s.cursor + 1 }
  if cfg.pattern.byteAt opened.cursor = caret then
    .skip { opened with inverted := true, cursor := opened.cursor + 1 }
  else .skip opened

/-- Reads the byte at the cursor according to its meaning. -/
def readByte (cfg : Setting) (s : State) : Reading :=
  let c := cfg.pattern.byteAt s.cursor
  if c = 0 then .reject
  else if c = dot then finishRead { s with accepts := true, cursor := s.cursor + 1 }
  else if c = openGroup && !s.inSet then .skip { s with cursor := s.cursor + 1 }
  else if c = closeGroup && !s.inSet then
    .skip
      { s with
        closes := s.closes ++ [s.position]
        cursor := s.cursor + 1
        elementStart := s.cursor + 1 }
  else if c = openSet && !s.inSet then readSetOpening cfg s
  else if c = closeSet && s.inSet then finishRead { s with inSet := false, cursor := s.cursor + 1 }
  else if c = percent then readEscape cfg s
  else readLiteral cfg s c

/-- Whether the byte at the cursor ends the set that is being read: an `]` that does not follow a
`%`. Nothing when there is no byte before the cursor to look at. -/
def closesSet? (cfg : Setting) (s : State) : Option Bool :=
  if cfg.pattern.byteAt s.cursor = closeSet then
    match s.cursor with
    | 0 => none
    | before + 1 => some (cfg.pattern.byteAt before != percent)
  else some false

/-- One reading. In a set of which a member has accepted, everything up to the end is skipped. -/
def read (cfg : Setting) (s : State) : Reading :=
  let marked :=
    if cfg.pattern.byteAt s.cursor ≠ closeSet && !s.inSet then { s with elementStart := s.cursor }
    else s
  if s.inSet && s.accepts then
    match closesSet? cfg s with
    | none => .fault
    | some false => .skip { s with cursor := s.cursor + 1 }
    | some true => readByte cfg marked
  else readByte cfg marked

/-! ## 2.  Looking ahead -/

/-- Reads on, at most `n` times, until an element is complete. Nothing stands for a fault. -/
def probeFrom (cfg : Setting) : Nat → State → Option Bool
  | 0, _ => some false
  | n + 1, s =>
    if cfg.stop ≤ s.cursor || s.position = cfg.text.size then some false
    else
      match read cfg s with
      | .reject => some false
      | .fault => none
      | .skip s => probeFrom cfg n s
      | .element s => some s.accepts

/-- Whether the first element of `pattern` accepts the byte of `text` at `offset`. At the end of the
text nothing is accepted. Each reading moves the cursor, so the length of the pattern bounds their
number. -/
def probe (pattern : Source) (text : Text) (offset : Nat) : Option Bool :=
  match start pattern text offset with
  | .reject => some false
  | .fault => none
  | .ready cfg s => probeFrom cfg (pattern.length + 1) s

/-! ## 3.  One step of the machine -/

/-- One turn of the machine. -/
inductive Turn where
  /-- The machine goes on. -/
  | next (state : State)
  /-- The match has ended. -/
  | done (verdict : Verdict)

/-- Moves to the next character, or, right after a frontier, to the character at hand. -/
def advance (cfg : Setting) (s : State) : State :=
  { s with
    position := cfg.text.charStart (if s.rewound then s.position else s.position + 1)
    rewound := false }

/-- The pattern is used up: the end of the match is the last boundary. -/
def conclude (cfg : Setting) (s : State) : Verdict :=
  if cfg.toEnd && s.position ≠ cfg.text.size then .reject else .accept (s.closes ++ [s.position])

/-- What is left of the pattern when the input has run out. While a greedy element repeats it has
already matched, so it is left out together with its quantifier. -/
def remainder? (cfg : Setting) (s : State) : Option Source :=
  let rest : Source := (cfg.pattern.take cfg.stop).drop s.cursor
  if s.repeating then rest.afterElement? else some rest

/-- The input has run out, and no point to return to is left: the rest of the pattern has to be
optional. -/
def exhausted (cfg : Setting) (s : State) : Verdict :=
  match (remainder? cfg s).bind Source.tailCloses? with
  | none => .reject
  | some n =>
    conclude cfg { s with closes := s.closes ++ List.replicate n s.position, cursor := cfg.stop }

/-- A turn at the end of the input. After the last element its count decides. Otherwise the machine
returns to the remembered point, once, and goes on behind the element that it had begun. -/
def atEnd (cfg : Setting) (s : State) : Turn :=
  if s.finished then .done (if s.least ≤ s.count then conclude cfg s else .reject)
  else
    match s.retry with
    | none => .done (exhausted cfg s)
    | some point =>
      let forgotten := { s with retry := none }
      if s.returns < cfg.returnLimit then
        .next
          { forgotten with
            returns := s.returns + 1
            position := point
            cursor := s.cursor + 1
            repeating := false }
      else .done (exhausted cfg forgotten)

/-- Tests a pending frontier: the character before the position must be outside of the frontier's
set, and the one at the position inside. Before the start of the text is outside, except for an
inverted set. Passing it takes no character, so the position goes back to where the frontier was
met. -/
def passFrontier (cfg : Setting) (s : State) : Turn :=
  match s.frontier with
  | none => .next s
  | some (place, met) =>
    if s.position = 0 && cfg.pattern.byteAt (place + 3) = caret then .done .reject
    else
      let set := cfg.pattern.drop (place + 2)
      let before? := if s.position = 0 then some false else probe set cfg.text (s.position - 1)
      match before?, probe set cfg.text s.position with
      | some before, some here =>
        if !before && here then
          .next { s with frontier := none, position := met, rewound := true }
        else .done .reject
      | _, _ => .done .fault

/-- Takes the quantifier at the cursor, if there is one, and says whether it is greedy. -/
def takeQuantifier (cfg : Setting) (s : State) : State × Bool :=
  let q := cfg.pattern.byteAt s.cursor
  if q = minus then ({ s with least := 0, most := none, cursor := s.cursor + 1 }, false)
  else if q = star then ({ s with least := 0, most := none, cursor := s.cursor + 1 }, true)
  else if q = plus then ({ s with least := 1, most := none, cursor := s.cursor + 1 }, true)
  else if q = question then ({ s with least := 0, most := some 1, cursor := s.cursor + 1 }, true)
  else (s, false)

/-- Whether `count` lies below a limit. -/
def belowLimit (count : Nat) : Option Nat → Bool
  | none => true
  | some limit => count < limit

/-- Whether `count` exceeds a limit. -/
def aboveLimit (count : Nat) : Option Nat → Bool
  | none => false
  | some limit => limit < count

/-- The element accepted and may accept again. A greedy element is repeated, and if its successor
accepts the same character, that character becomes the remembered point. A lazy one gives way to its
successor, which takes the character and is thereby read too. -/
def again (cfg : Setting) (s : State) (greedy : Bool) : Turn :=
  match probe (cfg.pattern.drop s.cursor) cfg.text s.position with
  | none => .done .fault
  | some next =>
    if greedy || !next then
      .next
        (advance cfg
          { s with
            retry := if next then some s.position else s.retry
            cursor := s.elementStart
            repeating := true })
    else
      .next (advance cfg { s with cursor := s.cursor + 1, finished := s.cursor + 1 = cfg.stop })

/-- The element is done with: its count has to be within its quantifier, and the last character is
taken if the element accepted it. -/
def settle (cfg : Setting) (s : State) (recent : Bool) : Turn :=
  if s.count < s.least || aboveLimit s.count s.most then .done .reject
  else
    let moved := if s.count > 0 && recent then advance cfg s else s
    .next
      { moved with
        least := 1
        most := some 1
        count := 0
        elementStart := s.cursor
        inverted := false }

/-- Closes the element just read. -/
def close (cfg : Setting) (s : State) : Turn :=
  let recent := s.accepts
  let counted := { s with count := if recent then s.count + 1 else s.count, accepts := false }
  match passFrontier cfg counted with
  | .done verdict => .done verdict
  | .next passed =>
    let (quantified, greedy) := takeQuantifier cfg passed
    let marked := { quantified with finished := quantified.cursor = cfg.stop }
    if recent && belowLimit marked.count marked.most then again cfg marked greedy
    else settle cfg marked recent

/-- One turn of the machine. -/
def step (cfg : Setting) (s : State) : Turn :=
  if cfg.stop ≤ s.cursor then .done (conclude cfg s)
  else if s.position = cfg.text.size then atEnd cfg s
  else
    match read cfg { s with repeating := false } with
    | .reject => .done .reject
    | .fault => .done .fault
    | .skip s => .next s
    | .element s => close cfg s

/-! ## 4.  Running -/

/-- At most `n` turns. A machine that has not ended by then has not matched. -/
def run (cfg : Setting) : Nat → State → Verdict
  | 0, _ => .reject
  | n + 1, s =>
    match step cfg s with
    | .done verdict => verdict
    | .next s => run cfg n s

/-- The number of turns that a match is given. A machine that comes to an end does so within the
cube of the area, so only one that goes on for ever runs out of turns; and there are so many that it
does not come to that either. -/
def turnLimit (pattern : Source) (text : Text) : Nat :=
  let area := (pattern.length + 2) * (text.size + 2)
  Nat.pow 2 64 * (area * area * area)

/-- Matches `pattern` in `text` at `offset`. An offset past the end is no match. -/
def verdictAt (pattern : Source) (text : Text) (offset : Nat) : Verdict :=
  if text.size < offset then .reject
  else
    match start pattern text offset with
    | .reject => .reject
    | .fault => .fault
    | .ready cfg s => run cfg (turnLimit pattern text) s

/-- The boundaries of a match of `pattern` in `text` at `offset`. -/
def boundariesAt? (pattern : Source) (text : Text) (offset : Nat) : Option (List Nat) :=
  match verdictAt pattern text offset with
  | .accept boundaries => some boundaries
  | .reject => none
  | .fault => none

end LuaPattern
end Linewise
