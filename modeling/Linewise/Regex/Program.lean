import Linewise.Regex.Expr

/-!
# Programs

An expression is matched by a program: a list of instructions, each naming the ones that may follow
it. `split` names several, in order of preference. A program is written from its end to its
beginning, since an instruction has to know what comes after it; only a loop refers to itself, and
is filled in when its body has been written.

## Loops whose body may be empty

`x*` is a choice between one more round and going on. Where `x` can match the empty text, that
single choice would put going on before alternatives of `x` that are preferred to it, so `x*` is
written as `(x+)?` instead. Where `x` cannot be empty the two agree.
-/

namespace Linewise
namespace Regex

/-- One instruction of a program. -/
inductive Instr where
  /-- The match is complete. -/
  | accept
  /-- Takes one character of a set. -/
  | char (set : CharSet) (next : Nat)
  /-- Takes one byte of a set. -/
  | byte (set : CharSet) (next : Nat)
  /-- Goes on only if a condition holds here. -/
  | look (look : Look) (next : Nat)
  /-- A capture ends here. -/
  | close (group next : Nat)
  /-- Goes on at one of several places, the preferred one first. -/
  | split (targets : List Nat)
  deriving Repr

/-- How many places an instruction can lead to. -/
def Instr.width : Instr → Nat
  | .accept => 0
  | .split targets => targets.length
  | _ => 1

/-- The instructions written so far. -/
abbrev Code := Array Instr

/-- Writes part of a program in front of the instruction with the given number, and answers where it
begins. -/
abbrev Writer := Nat → Code → Nat × Code

namespace Code

/-- Writes one instruction. -/
def emit (instr : Instr) (code : Code) : Nat × Code := (code.size, code.push instr)

/-- Writes a choice between two places, of which the first is preferred if `greedy`. -/
def choose (greedy : Bool) (more done : Nat) : Instr :=
  .split (if greedy then [more, done] else [done, more])

/-- Writes `n` copies of a part, one after the other. -/
def copies (part : Writer) : Nat → Writer
  | 0, next, code => (next, code)
  | n + 1, next, code =>
    let (start, code) := part next code
    copies part n start code

/-- Writes at most `n` copies of a part. Each may be left out together with all that follow. -/
def optionals (part : Writer) (greedy : Bool) : Nat → Writer
  | 0, next, code => (next, code)
  | n + 1, next, code =>
    let (inner, code) := optionals part greedy n next code
    let (start, code) := part inner code
    emit (choose greedy start next) code

/-- Writes a part that can be repeated from its end: where the part begins, and where the choice
stands. -/
def loop (part : Writer) (greedy : Bool) (next : Nat) (code : Code) : (Nat × Nat) × Code :=
  let (again, code) := emit (.split []) code
  let (start, code) := part again code
  ((start, again), code.setIfInBounds again (choose greedy start next))

/-- Writes a repetition of a part. `solid` says that the part cannot be empty. -/
def repetition (part : Writer) (solid greedy : Bool) (least : Nat) (most : Option Nat) : Writer :=
  fun next code =>
    match least, most with
    | least, some most =>
      let (start, code) := optionals part greedy (most - least) next code
      copies part least start code
    | 0, none =>
      let ((start, again), code) := loop part greedy next code
      if solid then (again, code) else emit (choose greedy start next) code
    | least + 1, none =>
      let ((start, _), code) := loop part greedy next code
      copies part least start code

end Code

mutual

/-- Writes an expression. -/
def Expr.write : Expr → Writer
  | .empty => fun next code => (next, code)
  | .char set => fun next code => Code.emit (.char set next) code
  | .byte set => fun next code => Code.emit (.byte set next) code
  | .look look => fun next code => Code.emit (.look look next) code
  | .repetition least most greedy inner =>
    Code.repetition inner.write inner.neverEmpty greedy least most
  | .capture index inner => fun next code =>
    let (close, code) := Code.emit (.close index next) code
    inner.write close code
  | .concat items => writeAll items
  | .alternation branches => fun next code =>
    let (targets, code) := writeEach branches next code
    Code.emit (.split targets) code

/-- Writes expressions one after the other. -/
def writeAll : List Expr → Writer
  | [] => fun next code => (next, code)
  | e :: rest => fun next code =>
    let (next, code) := writeAll rest next code
    e.write next code

/-- Writes expressions side by side, and answers where each begins. -/
def writeEach : List Expr → Nat → Code → List Nat × Code
  | [], _, code => ([], code)
  | e :: rest, next, code =>
    let (start, code) := e.write next code
    let (starts, code) := writeEach rest next code
    (start :: starts, code)

end

/-- A program. -/
structure Program where
  /-- Its instructions. -/
  code : Code
  /-- The number of the first one. -/
  start : Nat
  /-- How many captures it knows, apart from the whole match. -/
  groups : Nat

/-- The program of an expression. Its last instruction has the number `0`. -/
def Program.ofExpr (e : Expr) : Program :=
  let (start, code) := e.write 0 #[.accept]
  ⟨code, start, e.lastCapture⟩

end Regex
end Linewise
