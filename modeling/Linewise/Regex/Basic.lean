import Linewise.Text.Basic

/-!
# Regular expressions

Regular expressions are compiled and searched for by an *engine*. Nothing here depends on how an
engine works, or on which expressions it understands: it either makes an automaton of a text or says
why it refuses the text, and an automaton answers the match that begins at a position, if there is
one. Of the answers only this much is known: a match has a place for each capture, and it lies, with
its captures, between the position and the end of the text (`Matcher.Reliable`).

What is done here with the answers is to make *boundaries* of them, one for each capture in the
order of their numbers and a last one for the end of the match. They never go back: a capture that
ends before the boundary in front of it, or that took no part in the match, repeats that boundary.
-/

namespace Linewise
namespace Regex

/-! ## Engines -/

/-- A complete match. -/
structure Found where
  /-- Where it ends. -/
  stop : Nat
  /-- Where each capture ended, if it took part. -/
  closes : List (Option Nat)
  deriving DecidableEq, Repr

/-- A match lies between an offset and the end of the text. -/
structure Found.Between (t : Text) (offset : Nat) (found : Found) : Prop where
  /-- It does not end before the offset. -/
  offset_le : offset ≤ found.stop
  /-- It ends in the text. -/
  le_size : found.stop ≤ t.size
  /-- So does each of its captures, and not before the offset. -/
  closes : ∀ stop, some stop ∈ found.closes → offset ≤ stop ∧ stop ≤ t.size

/-- What can be asked of a compiled expression. -/
structure Matcher where
  /-- The number of its captures. -/
  groups : Nat
  /-- The match that begins at an offset. -/
  matchAt? : Text → Nat → Option Found

/-- What is known of the answers to questions about places in the text. -/
structure Matcher.Reliable (m : Matcher) : Prop where
  /-- A match has a place for each capture. -/
  length_closes : ∀ {t : Text} {offset : Nat} {found : Found},
    offset ≤ t.size → m.matchAt? t offset = some found → found.closes.length = m.groups
  /-- A match and its captures end between the offset and the end of the text. -/
  between : ∀ {t : Text} {offset : Nat} {found : Found},
    offset ≤ t.size → m.matchAt? t offset = some found → found.Between t offset

/-- A matcher that can be relied on. -/
structure Automaton extends Matcher where
  /-- It keeps to what is known of matchers. -/
  reliable : toMatcher.Reliable

/-- What compiles expressions. -/
class Engine where
  /-- Makes an automaton of an expression, or says in words why it refuses it. -/
  build : String → Except String Automaton
  /-- Where the syntax of an expression is at fault, if it is. This is a reading of its own: it may
  object to an expression that has an automaton, and it may find no fault with one that has none. -/
  faultOffset? : String → Option Nat

end Regex

/-! ## Compiled expressions -/

/-- A regular expression that can be matched. -/
structure Regex where
  /-- Its text. -/
  source : String
  /-- What finds its matches. -/
  automaton : Regex.Automaton

namespace Regex

/-- Why an expression is refused. -/
structure Refusal where
  /-- The words of the engine. -/
  message : String
  /-- The place that is reported: where the syntax is at fault, or the start if it is not. -/
  offset : Nat
  deriving DecidableEq, Repr

/-- Compiles an expression. -/
def compile [Engine] (source : String) : Except Refusal Regex :=
  match Engine.build source with
  | .ok automaton => .ok ⟨source, automaton⟩
  | .error message => .error ⟨message, (Engine.faultOffset? source).getD 0⟩

/-! ## Boundaries -/

/-- The boundaries of captures that ended at the given places, behind the boundary `last`, and of a
match that ends at `stop`. -/
def boundariesAfter (stop : Nat) : (last : Nat) → List (Option Nat) → List Nat
  | last, [] => [max stop last]
  | last, close :: rest =>
    let boundary := max (close.getD last) last
    boundary :: boundariesAfter stop boundary rest

namespace Matcher

/-- The number of boundaries of a match. -/
def boundaryCount (m : Matcher) : Nat := m.groups + 1

/-- The boundaries of a match at `offset`. -/
def boundariesAt? (m : Matcher) (t : Text) (offset : Nat) : Option (List Nat) :=
  if t.size < offset then none
  else (m.matchAt? t offset).map fun found => boundariesAfter found.stop offset found.closes

end Matcher

/-- The number of boundaries of a match. -/
def boundaryCount (r : Regex) : Nat := r.automaton.boundaryCount

/-- The boundaries of a match at `offset`. -/
def boundariesAt? (r : Regex) (t : Text) (offset : Nat) : Option (List Nat) :=
  r.automaton.boundariesAt? t offset

end Regex
end Linewise
