import Linewise.Tokenizer.Run
import Linewise.Tokenizer.Stack

/-!
# Scanning a line

A line is scanned from left to right. The scan knows the open grammars, the carry that describes
them, the position, and how far the line has been cut into pieces. What lies between the two, from
`pending` to `offset`, has been looked at but not yet labelled: it is text without a rule, or the
inside of a region.

## 1.  Matches that count

A match that takes nothing is no match: otherwise a pattern of optional elements could hold the scan
in place. Each step therefore moves at least one byte forward, and a line of `n` bytes takes at most
`n` steps. The one exception costs nothing: an empty match of an escape still keeps its region open
for one byte.

## 2.  One step

At each position there are three ways on, tried in this order.

* `closeNested?`: inside a nested grammar, the rule that opened it closes here.
* `enterRule?`: nothing is open in the innermost grammar, and one of its rules enters here; if none
  does, the scan skips a word or a byte.
* `insideRegion`: a region is open in the innermost grammar; an escape takes the byte after it
  along, the closing pattern ends the region, and anything else stays in it.

All of this is written for any way of finding matches (`Matching`), and a scan is the case in which
the patterns find them.

## 3.  The whole line

What is left at the end of the line belongs to the innermost region or to no rule. A quick pass
tries only the rules up to the last stateful one: it is after the carry alone.
-/

namespace Linewise

/-- What stays the same while a line is scanned. -/
structure Pass where
  /-- The shared grammars. -/
  table : Table
  /-- The line. -/
  text : Text
  /-- Whether only the carry is asked for. -/
  quick : Bool

/-- A way to find the matches of patterns: the boundaries of a match at a position, if there is one.
-/
abbrev Matching := Pattern → Text → Nat → Option (List Nat)

/-- How far a line has been scanned. -/
structure Scan where
  /-- The open grammars. -/
  stack : Stack
  /-- The open rules. -/
  carry : Carry
  /-- The position. -/
  offset : Nat
  /-- How far the line has been cut into pieces. -/
  pending : Nat

/-! ## 1.  Matches that count -/

/-- The boundaries of a match that takes at least one byte. -/
def consumedWith? (find : Matching) (p : Pattern) (t : Text) (offset : Nat) : Option (List Nat) :=
  (find p t offset).filter fun bounds => offset < bounds.getLast?.getD 0

/-- The boundaries of a match of the pattern that takes at least one byte. -/
def consumed? : Matching := consumedWith? Pattern.boundariesAt?

/-- The end of a match: its last boundary. -/
def matchEnd (bounds : List Nat) (offset : Nat) : Nat := max (bounds.getLast?.getD offset) offset

/-- Cuts a match of a rule of `g` into its segments, which end at the given boundaries: the pieces,
and where the last one ends. A segment for which the rule has no label has the default label of the
grammar. -/
def segments (g : Grammar) (r : Rule Grammar) (t : Text) :
    (index last : Nat) → List Nat → List Piece × Nat
  | _, last, [] => ([], last)
  | index, last, bound :: bounds =>
    let stop := max bound last
    let (pieces, final) := segments g r t (index + 1) stop bounds
    (.under g ((r.label? index).getD g.defaultLabel) t last stop :: pieces, final)

/-- The first rule that enters at `offset`, with its index and its boundaries. The rules are counted
from `index`. -/
def firstMatchWith? (find : Matching) (t : Text) (offset : Nat) :
    (index : Nat) → List (Rule Grammar) → Option (Nat × Rule Grammar × List Nat)
  | _, [] => none
  | index, r :: rules =>
    match consumedWith? find r.enter t offset with
    | some bounds => some (index, r, bounds)
    | none => firstMatchWith? find t offset (index + 1) rules

/-- The first rule whose pattern enters at `offset`. -/
def firstMatch? (t : Text) (offset index : Nat) (rules : List (Rule Grammar)) :
    Option (Nat × Rule Grammar × List Nat) :=
  firstMatchWith? Pattern.boundariesAt? t offset index rules

namespace Scan

/-- The label of what is open in the innermost grammar: of its region, or the default label. -/
def openLabel (s : Scan) : String :=
  match s.stack.openRule? s.carry with
  | none => s.stack.top.defaultLabel
  | some r => r.label

/-- The pending text as a piece. -/
def pendingPiece (s : Scan) (t : Text) (stop : Nat) : Piece :=
  .under s.stack.top s.openLabel t s.pending stop

/-! ## 2.  One step -/

/-- Where the scan goes on if no rule matches: behind a word, or behind one byte. -/
def skip (t : Text) (offset : Nat) : Nat :=
  offset + max (t.countWhile Ascii.isAlnum (t.size - offset) offset) 1

/-- A rule of the innermost grammar enters. A region stays pending as a whole; the segments of any
other match are pieces at once, and a nested grammar is opened behind them if a carry can describe
it. -/
def enter (pass : Pass) (s : Scan) (index : Nat) (r : Rule Grammar) (bounds : List Nat) :
    Scan × List Piece :=
  let before := Piece.under s.stack.top s.stack.top.defaultLabel pass.text s.pending s.offset
  match Grammar.nested? pass.table r with
  | none =>
    if r.close.isSome then
      ({ s with
          carry := s.carry.mark s.stack.depth index
          offset := matchEnd bounds s.offset
          pending := s.offset },
        [before])
    else
      let (pieces, stop) := segments s.stack.top r pass.text 0 s.offset bounds
      ({ s with offset := stop, pending := stop }, before :: pieces)
  | some g =>
    let (pieces, stop) := segments s.stack.top r pass.text 0 s.offset bounds
    let moved := { s with offset := stop, pending := stop }
    if s.stack.depth + 1 < maxDepth then
      ({ moved with
          stack := s.stack.push g
          carry := s.carry.mark s.stack.depth index },
        before :: pieces)
    else (moved, before :: pieces)

/-- The rules that are tried where nothing is open. -/
def tried (pass : Pass) (s : Scan) : List (Rule Grammar) :=
  if pass.quick then s.stack.top.rules.take s.stack.top.statefulCount else s.stack.top.rules

section

variable (find : Matching)

/-- Inside a nested grammar: the rule around it closes here, unless it is escaped. An open region of
the nested grammar is given up. -/
def closeNestedWith? (pass : Pass) (s : Scan) : Option (Scan × List Piece) :=
  match s.stack.below with
  | [] => none
  | parent :: below =>
    let outer : Stack := ⟨parent, below⟩
    match outer.openRule? s.carry with
    | none => none
    | some r =>
      let escaped := r.escape.any fun p => (find p pass.text s.offset).isSome
      if escaped then none
      else
        match r.close.bind fun p => consumedWith? find p pass.text s.offset with
        | none => none
        | some bounds =>
          let (pieces, stop) := segments parent r pass.text 0 s.offset bounds
          some
            ({ stack := outer
               carry := s.carry.truncate outer.depth
               offset := stop
               pending := stop },
              s.pendingPiece pass.text s.offset :: pieces)

/-- Nothing is open in the innermost grammar. -/
def enterRuleWith (pass : Pass) (s : Scan) : Scan × List Piece :=
  match firstMatchWith? find pass.text s.offset 0 (s.tried pass) with
  | none => ({ s with offset := skip pass.text s.offset }, [])
  | some (index, r, bounds) => s.enter pass index r bounds

/-- A region of the innermost grammar is open. -/
def insideRegionWith (pass : Pass) (s : Scan) (r : Rule Grammar) : Scan × List Piece :=
  match r.escape.bind fun p => find p pass.text s.offset with
  | some bounds => ({ s with offset := min (matchEnd bounds s.offset + 1) pass.text.size }, [])
  | none =>
    match r.close.bind fun p => consumedWith? find p pass.text s.offset with
    | none => ({ s with offset := s.offset + 1 }, [])
    | some bounds =>
      let (pieces, stop) := segments s.stack.top r pass.text 0 s.pending bounds
      ({ s with
          carry := s.carry.truncate s.stack.depth
          offset := stop
          pending := stop },
        pieces)

/-- One step, and the pieces that it cuts off. -/
def stepWith (pass : Pass) (s : Scan) : Scan × List Piece :=
  match s.closeNestedWith? find pass with
  | some result => result
  | none =>
    match s.carry.active? s.stack.depth with
    | none => s.enterRuleWith find pass
    | some index =>
      match s.stack.top.rules[index]? with
      | some r => s.insideRegionWith find pass r
      | none => ({ s with offset := s.offset + 1 }, [])

end

/-! ### With the matches of the patterns -/

/-- Inside a nested grammar: the rule around it closes here. -/
def closeNested? (pass : Pass) (s : Scan) : Option (Scan × List Piece) :=
  s.closeNestedWith? Pattern.boundariesAt? pass

/-- Nothing is open in the innermost grammar. -/
def enterRule (pass : Pass) (s : Scan) : Scan × List Piece :=
  s.enterRuleWith Pattern.boundariesAt? pass

/-- A region of the innermost grammar is open. -/
def insideRegion (pass : Pass) (s : Scan) (r : Rule Grammar) : Scan × List Piece :=
  s.insideRegionWith Pattern.boundariesAt? pass r

/-- One step, and the pieces that it cuts off. -/
def step (pass : Pass) (s : Scan) : Scan × List Piece := s.stepWith Pattern.boundariesAt? pass

/-! ## 3.  The whole line -/

/-- At most `n` steps of the kind `f`, and the pieces that they cut off. -/
def stepsBy (t : Text) (f : Scan → Scan × List Piece) : Nat → Scan → Scan × List Piece
  | 0, s => (s, [])
  | n + 1, s =>
    if t.size ≤ s.offset then (s, [])
    else
      let (s, pieces) := f s
      let (s, more) := stepsBy t f n s
      (s, pieces ++ more)

/-- The rest of a line by steps of the kind `f`: how the scan ends, and the pieces in order. What is
left at the end is a piece as well. -/
def restBy (t : Text) (f : Scan → Scan × List Piece) (s : Scan) : Scan × List Piece :=
  let (s, pieces) := stepsBy t f t.size s
  (s, pieces ++ [s.pendingPiece t t.size])

/-- At most `n` steps. -/
def steps (pass : Pass) (n : Nat) (s : Scan) : Scan × List Piece :=
  stepsBy pass.text (step pass) n s

/-- How the scan of a line begins. -/
def start (pass : Pass) (root : Grammar) (carry : Carry) : Scan :=
  let (stack, carry) := Stack.resume pass.table root carry
  ⟨stack, carry, 0, 0⟩

/-- Scans a line to its end: how the scan ends, and all pieces in order. -/
def line (pass : Pass) (root : Grammar) (carry : Carry) : Scan × List Piece :=
  restBy pass.text (step pass) (start pass root carry)

end Scan

/-- A line that has been tokenized. -/
structure Line where
  /-- Its runs; a quick pass has none to offer. -/
  runs : Option (List Run)
  /-- What the next line has to know. -/
  carry : Carry
  deriving DecidableEq, Repr

/-- What a line is tokenized with. -/
structure Tokenizer where
  /-- The shared grammars. -/
  table : Table
  /-- The grammar of the text as a whole. -/
  root : Grammar

namespace Tokenizer

/-- Tokenizes a line that begins in the given carry. A quick pass answers the carry alone. -/
def tokenize (k : Tokenizer) (quick : Bool) (t : Text) (carry : Carry) : Line :=
  let (s, pieces) := Scan.line ⟨k.table, t, quick⟩ k.root carry
  ⟨if quick then none else some (Run.ofPieces pieces), s.carry⟩

/-- Tokenizes consecutive lines, the first of which begins in the given carry. -/
def tokenizeAll (k : Tokenizer) (quick : Bool) : Carry → List Text → List Line
  | _, [] => []
  | carry, t :: rest =>
    let line := k.tokenize quick t carry
    line :: tokenizeAll k quick line.carry rest

/-- The grammars that are open in a carry, and what of the carry fits them. -/
def resume (k : Tokenizer) (carry : Carry) : Stack × Carry := Stack.resume k.table k.root carry

end Tokenizer

end Linewise
