import Std.Data.HashSet
import Linewise.Regex.Basic
import Linewise.Regex.Program
import Linewise.Text.Ascii
import Linewise.Text.Utf8

/-!
# Running a program

The search tries the alternatives in order of preference and answers the first match that it
completes. What it still has to try is a stack of threads, each with the captures that it has
closed. A pair of an instruction and a position is tried only once: if it has led to nothing the
first time, it cannot lead to anything later, and a loop that takes no character comes to an end. So
the number of turns is bounded by the size of the program times the length of the text.

A match begins at the given position and nowhere else. Conditions on a position see the whole text,
also what lies before the match.

## Words at the edge of a damaged character

With `unicode`, a condition on words reads the character on either side. A side without a character,
or with bytes that form none, is no word. Three conditions are more careful: `\B` and the two half
conditions do not hold beside bytes that form no character.
-/

namespace Linewise
namespace Regex

/-! ## Conditions on a position -/

/-- What a position has on one side: nothing, damaged bytes, or a character that is or is not part
of a word. -/
inductive Side where
  /-- The text ends here. -/
  | edge
  /-- Bytes that form no character. -/
  | damaged
  /-- A character. -/
  | char (word : Bool)
  deriving DecidableEq, Repr

namespace Side

/-- Whether a word is on this side. -/
def isWord : Side → Bool
  | .char word => word
  | .edge => false
  | .damaged => false

/-- The side before position `i`. -/
def before (unicode : Bool) (t : Text) (i : Nat) : Side :=
  if i = 0 then .edge
  else if !unicode then .char (Ascii.isWord (t.getD (i - 1) 0))
  else
    match t.charBefore? i with
    | none => .damaged
    | some c => .char (Unicode.isWord c)

/-- The side after position `i`. -/
def after (unicode : Bool) (t : Text) (i : Nat) : Side :=
  if t.size ≤ i then .edge
  else if !unicode then .char (Ascii.isWord (t.getD i 0))
  else
    match t.charAt? i with
    | none => .damaged
    | some (c, _) => .char (Unicode.isWord c)

end Side

/-- Whether a condition on words holds between two sides. -/
def wordHolds (left right : Side) : Anchor → Bool
  | .word => left.isWord != right.isWord
  | .notWord => left != .damaged && right != .damaged && left.isWord == right.isWord
  | .wordStart => !left.isWord && right.isWord
  | .wordEnd => left.isWord && !right.isWord
  | .wordStartHalf => left != .damaged && !left.isWord
  | .wordEndHalf => right != .damaged && !right.isWord
  | _ => false

/-- Whether a condition holds at position `i`. -/
def lookHolds (t : Text) (i : Nat) : Look → Bool
  | .textStart => i == 0
  | .textEnd => i == t.size
  | .lineStart false => i == 0 || t.getD (i - 1) 0 == 0x0A
  | .lineStart true =>
    i == 0 || t.getD (i - 1) 0 == 0x0A ||
      (t.getD (i - 1) 0 == 0x0D && (t.size ≤ i || t.getD i 0 != 0x0A))
  | .lineEnd false => i == t.size || t.getD i 0 == 0x0A
  | .lineEnd true =>
    i == t.size || t.getD i 0 == 0x0D ||
      (t.getD i 0 == 0x0A && (i == 0 || t.getD (i - 1) 0 != 0x0D))
  | .word unicode kind => wordHolds (Side.before unicode t i) (Side.after unicode t i) kind

/-! ## The search -/

/-- One way of matching that is still to be followed. -/
structure Thread where
  /-- The number of the next instruction. -/
  instr : Nat
  /-- The position in the text. -/
  position : Nat
  /-- Where each capture was closed last, if it was. -/
  closes : List (Option Nat)
  deriving Repr

/-- What one instruction makes of a thread: a match, or the threads to follow instead. -/
inductive Move where
  /-- The match is complete. -/
  | found (found : Found)
  /-- The threads that go on, the preferred one first. -/
  | follow (threads : List Thread)

/-- Executes one instruction. -/
def Thread.move (t : Text) (thread : Thread) : Instr → Move
  | .accept => .found ⟨thread.position, thread.closes⟩
  | .char set next =>
    match t.charAt? thread.position with
    | none => .follow []
    | some (c, length) =>
      if set.contains c then
        .follow [{ thread with instr := next, position := thread.position + length }]
      else .follow []
  | .byte set next =>
    match t[thread.position]? with
    | none => .follow []
    | some b =>
      if set.contains b.toNat then
        .follow [{ thread with instr := next, position := thread.position + 1 }]
      else .follow []
  | .look look next =>
    if lookHolds t thread.position look then .follow [{ thread with instr := next }] else .follow []
  | .close group next =>
    let closes := thread.closes.set (group - 1) (some thread.position)
    .follow [{ thread with instr := next, closes }]
  | .split targets => .follow (targets.map fun target => { thread with instr := target })

/-- The pairs of an instruction and a position that were tried. -/
abbrev Tried := Std.HashSet (Nat × Nat)

/-- At most `n` turns of the search. -/
def search (program : Program) (t : Text) : Nat → Tried → List Thread → Option Found
  | 0, _, _ => none
  | _, _, [] => none
  | n + 1, tried, thread :: rest =>
    let place := (thread.instr, thread.position)
    if tried.contains place then search program t n tried rest
    else
      match program.code[thread.instr]? with
      | none => search program t n (tried.insert place) rest
      | some instr =>
        match thread.move t instr with
        | .found found => some found
        | .follow threads => search program t n (tried.insert place) (threads ++ rest)

/-- More turns than a search from `offset` can take: each pair is tried once, and each trial adds as
many threads as its instruction is wide. -/
def turnBound (program : Program) (t : Text) (offset : Nat) : Nat :=
  (t.size - offset + 1) * (program.code.toList.map Instr.width).foldl Nat.add 0 + 2

/-- The preferred match that begins at `offset`. -/
def Program.matchAt? (program : Program) (t : Text) (offset : Nat) : Option Found :=
  search program t (turnBound program t offset) ∅
    [⟨program.start, offset, List.replicate program.groups none⟩]

/-- A program as a matcher. -/
def Program.matcher (program : Program) : Matcher := ⟨program.groups, program.matchAt?⟩

end Regex
end Linewise
